import Mathlib.Algebra.BigOperators.Group.List
import Mathlib.Data.List.Basic
import Mathlib.Data.List.DropRight

/-! Python `str` operations used by the audit scripts, over lists of code points.

A Python `str` is a sequence of code points, so a text is a `List Char` and every
index is a code-point index. Slices take non-negative bounds only: the scripts
never slice with a negative index.
-/

set_option autoImplicit false

namespace SourceAudit

/-- `str.isspace`, which is also the `\s` class of `str` patterns: CPython's ASCII
whitespace table and the Unicode separators. -/
def isSpace (c : Char) : Bool :=
  let n := c.toNat
  (9 ≤ n && n ≤ 13) || (28 ≤ n && n ≤ 32) || n == 0x85 || n == 0xA0 || n == 0x1680 ||
    (0x2000 ≤ n && n ≤ 0x200A) || n == 0x2028 || n == 0x2029 || n == 0x202F ||
    n == 0x205F || n == 0x3000

/-- The `\w` class of `str` patterns on ASCII text: letters, digits and the underscore.
Beyond ASCII, Python also takes every Unicode letter and digit; the results that depend on
that difference assume an ASCII text. -/
def isWord (c : Char) : Bool := c.isAlphanum || c == '_'

theorem isWord_not_space (c : Char) (word : isWord c = true) : isSpace c = false := by
  have bound : ∀ low high : UInt32, low ≤ c.val → c.val ≤ high →
      low.toNat ≤ c.toNat ∧ c.toNat ≤ high.toNat :=
    fun _ _ above below => ⟨above, below⟩
  simp only [isWord, Char.isAlphanum, Char.isAlpha, Char.isUpper, Char.isLower, Char.isDigit, Bool.or_eq_true,
    Bool.and_eq_true, decide_eq_true_eq, beq_iff_eq] at word
  rcases word with ((⟨low, high⟩ | ⟨low, high⟩) | ⟨low, high⟩) | rfl
  all_goals first
    | rfl
    | have := bound _ _ low high
      simp only [UInt32.reduceToNat] at this
      simp only [isSpace, Bool.or_eq_false_iff, Bool.and_eq_false_iff, decide_eq_false_iff_not, beq_eq_false_iff_ne]
      omega

/-- `items[start:stop]`, of a `str` or a `list`. -/
def slice {α : Type} (items : List α) (start stop : Nat) : List α :=
  (items.drop start).take (stop - start)

/-- `str.strip()`. -/
def strip (text : List Char) : List Char :=
  (text.dropWhile isSpace).rdropWhile isSpace

/-- `text.split('\n')`. -/
def splitLines (text : List Char) : List (List Char) := text.splitOn '\n'

/-- `'\n'.join(lines)`. -/
def joinLines (lines : List (List Char)) : List Char := ['\n'].intercalate lines

/-- `str.lower()` on ASCII letters. Beyond ASCII only the Kelvin sign and `İ` lower to ASCII
letters (`k`, and `i` before a combining dot), and neither can complete a keyword the scripts
look for in lower-cased text, so every such test comes out as in Python. -/
def lower (text : List Char) : List Char := text.map Char.toLower

/-- One character of `str.upper()` as an ASCII keyword sees it: the full uppercase mapping of
every character whose mapping holds an ASCII letter (the ASCII letters, `ı`, `ſ`, `ß`, `ŉ`, `ǰ`,
`ẖ`, `ẗ`, `ẘ`, `ẙ`, `ẚ` and the ligatures `ﬀ` to `ﬆ`); any other character is kept, where
Python maps it to characters that are again beyond ASCII. -/
def upperChar (c : Char) : List Char :=
  match c.toNat with
  | 0x0131 => ['I']
  | 0x017F => ['S']
  | 0x00DF => ['S', 'S']
  | 0x0149 => [Char.ofNat 0x02BC, 'N']
  | 0x01F0 => ['J', Char.ofNat 0x030C]
  | 0x1E96 => ['H', Char.ofNat 0x0331]
  | 0x1E97 => ['T', Char.ofNat 0x0308]
  | 0x1E98 => ['W', Char.ofNat 0x030A]
  | 0x1E99 => ['Y', Char.ofNat 0x030A]
  | 0x1E9A => ['A', Char.ofNat 0x02BE]
  | 0xFB00 => ['F', 'F']
  | 0xFB01 => ['F', 'I']
  | 0xFB02 => ['F', 'L']
  | 0xFB03 => ['F', 'F', 'I']
  | 0xFB04 => ['F', 'F', 'L']
  | 0xFB05 => ['S', 'T']
  | 0xFB06 => ['S', 'T']
  | _ => [c.toUpper]

/-- `str.upper()`, for the test of an ASCII keyword in the result. -/
def upper (text : List Char) : List Char := text.flatMap upperChar

example : upper "// \uFB01xme".toList = "// FIXME".toList := by decide

/-- `str.capitalize()` on ASCII letters. The scripts capitalize only an inner type that starts
with one of the simple types, so the first character is ASCII; a letter beyond ASCII later in
the type is left as it is, where Python lower-cases it. -/
def capitalize : List Char → List Char
  | [] => []
  | c :: rest => c.toUpper :: lower rest

/-- `text[:position].count('\n') + 1`: the 1-based line of a position. -/
def lineOf (text : List Char) (position : Nat) : Nat :=
  (text.take position).count '\n' + 1

@[simp] theorem slice_length {α : Type} (items : List α) (start stop : Nat) :
    (slice items start stop).length = min (stop - start) (items.length - start) := by
  simp [slice]

theorem slice_append_middle {α : Type} (front middle back : List α) :
    slice (front ++ middle ++ back) front.length (front.length + middle.length) = middle := by
  simp [slice]

/-- Keeping the items numbered in `(low, high]`, numbering from `first`, is a drop and a take. -/
theorem filterMap_enumFrom_between {α : Type} (items : List α) (first low high : Nat) :
    (items.enumFrom first).filterMap (fun numbered =>
        if low < numbered.1 ∧ numbered.1 ≤ high then some numbered.2 else none) =
      (items.drop (low + 1 - first)).take (high + 1 - max (low + 1) first) := by
  induction items generalizing first with
  | nil => simp
  | cons item rest ih =>
    rw [List.enumFrom_cons, List.filterMap_cons, ih]
    dsimp only
    by_cases inside : low < first ∧ first ≤ high
    · rw [if_pos inside, show low + 1 - first = 0 by omega, show low + 1 - (first + 1) = 0 by omega,
        show high + 1 - max (low + 1) first = high - first + 1 by omega,
        show high + 1 - max (low + 1) (first + 1) = high - first by omega]
      rfl
    · rw [if_neg inside]
      by_cases early : first ≤ low
      · rw [show low + 1 - first = (low - first) + 1 by omega, show low + 1 - (first + 1) = low - first by omega,
          show max (low + 1) (first + 1) = max (low + 1) first by omega]
        rfl
      · rw [show high + 1 - max (low + 1) (first + 1) = 0 by omega, show high + 1 - max (low + 1) first = 0 by omega]
        simp

/-- `items[start:stop]` holds the items numbered, from 1, above `start` and up to `stop`. -/
theorem slice_eq_numbered {α : Type} (items : List α) (start stop : Nat) :
    slice items start stop = (items.enumFrom 1).filterMap fun numbered =>
      if start < numbered.1 ∧ numbered.1 ≤ stop then some numbered.2 else none := by
  rw [filterMap_enumFrom_between, slice, show max (start + 1) 1 = start + 1 by omega,
    Nat.add_sub_cancel, Nat.add_sub_add_right]

theorem joinLines_splitLines (text : List Char) : joinLines (splitLines text) = text :=
  List.intercalate_splitOn text '\n'

theorem splitLines_joinLines (lines : List (List Char)) (clean : ∀ line ∈ lines, '\n' ∉ line)
    (nonempty : lines ≠ []) : splitLines (joinLines lines) = lines :=
  List.splitOn_intercalate lines '\n' clean nonempty

end SourceAudit
