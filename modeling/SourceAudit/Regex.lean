import SourceAudit.Text

/-! The part of Python's `re` that the audit scripts use.

A pattern is matched by a backtracking walk in continuation-passing style: each
construct hands every way it can match, in Python's order of preference, to the
rest of the pattern, and the first complete match wins. Repetition is greedy and
applies to one character class only, which is all the scripts' patterns repeat;
alternation tries its left branch first. `finditer` scans left to right and
resumes at the end of each match. None of the scripts' patterns matches the empty
string, so Python's special treatment of empty matches never arises.
-/

set_option autoImplicit false

namespace SourceAudit

/-- A position in a text: the characters already passed, nearest first, and the rest. -/
structure Cursor where
  before : List Char
  after : List Char
  deriving DecidableEq, Repr

def Cursor.pos (cursor : Cursor) : Nat := cursor.before.length

/-- A partial match: where it stands and the groups closed so far, newest first,
each as `(index, start, stop)`. -/
structure Thread where
  cursor : Cursor
  groups : List (Nat × Nat × Nat)
  deriving DecidableEq, Repr

inductive Re where
  /-- One character of a class. -/
  | cls (accepts : Char → Bool)
  /-- Greedy repetition of a class, `[...]*`. -/
  | many (accepts : Char → Bool)
  | seq (first second : Re)
  /-- `first|second`. -/
  | alt (first second : Re)
  | empty
  /-- `^` under `re.MULTILINE`. -/
  | lineStart
  /-- `$` without `re.MULTILINE`: the end, or before a final newline. -/
  | stringEnd
  /-- `\b`. -/
  | wordBoundary
  /-- `(?<!...)` of a fixed sequence of classes. -/
  | notAfter (classes : List (Char → Bool))
  | group (index : Nat) (body : Re)

namespace Re

def char (c : Char) : Re := .cls (· == c)

def lit : List Char → Re
  | [] => .empty
  | c :: rest => .seq (char c) (lit rest)

/-- `[...]+`. -/
def many1 (accepts : Char → Bool) : Re := .seq (.cls accepts) (.many accepts)

/-- Greedy `(?:...)?`. -/
def opt (body : Re) : Re := .alt body .empty

def seqs : List Re → Re
  | [] => .empty
  | first :: rest => .seq first (seqs rest)

/-- `.`: any character but a newline. -/
def dot : Char → Bool := (· != '\n')

/-- `.*`. -/
def dotStar : Re := .many dot

end Re

/-- Whether the passed characters end, nearest first, with the given classes. -/
def endsWith : List Char → List (Char → Bool) → Bool
  | _, [] => true
  | [], _ :: _ => false
  | c :: before, accepts :: classes => accepts c && endsWith before classes

def atLineStart (before : List Char) : Bool :=
  match before with
  | [] => true
  | c :: _ => c == '\n'

def atWordBoundary (cursor : Cursor) : Bool :=
  (cursor.before.head?.map isWord).getD false != (cursor.after.head?.map isWord).getD false

/-- The greedy repetition of a class from `after` on, longest run first. -/
def manyFrom (accepts : Char → Bool) (groups : List (Nat × Nat × Nat))
    (k : Thread → Option Thread) : List Char → List Char → Option Thread
  | before, [] => k ⟨⟨before, []⟩, groups⟩
  | before, c :: after =>
    if accepts c then
      manyFrom accepts groups k (c :: before) after <|> k ⟨⟨before, c :: after⟩, groups⟩
    else k ⟨⟨before, c :: after⟩, groups⟩

namespace Re

/-- Every way `pattern` matches from `thread`, in Python's order, handed to `k`
until one completes. -/
def walk : Re → Thread → (Thread → Option Thread) → Option Thread
  | .cls accepts, ⟨⟨before, c :: after⟩, groups⟩, k =>
    if accepts c then k ⟨⟨c :: before, after⟩, groups⟩ else none
  | .cls _, ⟨⟨_, []⟩, _⟩, _ => none
  | .many accepts, ⟨⟨before, after⟩, groups⟩, k => manyFrom accepts groups k before after
  | .seq first second, thread, k => first.walk thread fun next => second.walk next k
  | .alt first second, thread, k => first.walk thread k <|> second.walk thread k
  | .empty, thread, k => k thread
  | .lineStart, thread, k => if atLineStart thread.cursor.before then k thread else none
  | .stringEnd, thread, k =>
    if thread.cursor.after = [] ∨ thread.cursor.after = ['\n'] then k thread else none
  | .wordBoundary, thread, k => if atWordBoundary thread.cursor then k thread else none
  | .notAfter classes, thread, k =>
    if endsWith thread.cursor.before classes then none else k thread
  | .group index body, thread, k =>
    body.walk thread fun next =>
      k { next with groups := (index, thread.cursor.pos, next.cursor.pos) :: next.groups }

/-- `pattern.match` at a cursor: the first complete match starting there. -/
def matchAt (pattern : Re) (cursor : Cursor) : Option Thread :=
  pattern.walk ⟨cursor, []⟩ some

end Re

/-- One match of `finditer`. -/
structure Found where
  start : Nat
  stop : Nat
  groups : List (Nat × Nat × Nat)
  deriving DecidableEq, Repr

/-- `match.group(index)` of a match in `text`; group zero is the whole match. -/
def Found.group (found : Found) (text : List Char) : Nat → List Char
  | 0 => slice text found.start found.stop
  | index =>
    match found.groups.find? (·.1 == index) with
    | some (_, start, stop) => slice text start stop
    | none => []

namespace Re

/-- The search loop of `finditer`: at each position not covered by an earlier
match (`skip` counts the covered ones still ahead), try to match there. -/
def scan (pattern : Re) (skip : Nat) (before : List Char) : List Char → List Found
  | [] =>
    if skip = 0 then
      match pattern.matchAt ⟨before, []⟩ with
      | some thread => [⟨before.length, thread.cursor.pos, thread.groups⟩]
      | none => []
    else []
  | c :: after =>
    if skip = 0 then
      match pattern.matchAt ⟨before, c :: after⟩ with
      | some thread =>
        ⟨before.length, thread.cursor.pos, thread.groups⟩ ::
          pattern.scan (thread.cursor.pos - before.length - 1) (c :: before) after
      | none => pattern.scan 0 (c :: before) after
    else pattern.scan (skip - 1) (c :: before) after

/-- `re.finditer(pattern, text)`. -/
def finditer (pattern : Re) (text : List Char) : List Found := pattern.scan 0 [] text

/-- `re.findall(pattern, text)` for a pattern with one group. -/
def findall (pattern : Re) (text : List Char) : List (List Char) :=
  (pattern.finditer text).map fun found => found.group text 1

/-- `len(re.findall(pattern, text))`. -/
def count (pattern : Re) (text : List Char) : Nat := (pattern.finditer text).length

/-- `re.search(pattern, text)`. -/
def search (pattern : Re) (text : List Char) : Option Found := (pattern.finditer text).head?

end Re

/-- The text outside the given matches, from `position` on. -/
def keepOutside (text : List Char) : Nat → List Found → List Char
  | position, [] => text.drop position
  | position, found :: rest => slice text position found.start ++ keepOutside text found.stop rest

/-- `re.sub(pattern, '', text)`. -/
def Re.erase (pattern : Re) (text : List Char) : List Char :=
  keepOutside text 0 (pattern.finditer text)

/-! ## Walking literals and classes -/

namespace Re

@[simp] theorem walk_seq (first second : Re) (thread : Thread) (k : Thread → Option Thread) :
    (Re.seq first second).walk thread k = first.walk thread fun next => second.walk next k := rfl

@[simp] theorem walk_empty (thread : Thread) (k : Thread → Option Thread) :
    Re.empty.walk thread k = k thread := rfl

theorem walk_lineStart (thread : Thread) (k : Thread → Option Thread) :
    Re.lineStart.walk thread k = if atLineStart thread.cursor.before then k thread else none := rfl

theorem walk_notAfter (classes : List (Char → Bool)) (thread : Thread) (k : Thread → Option Thread) :
    (Re.notAfter classes).walk thread k = if endsWith thread.cursor.before classes then none else k thread := rfl

theorem walk_cls_cons (accepts : Char → Bool) (before : List Char) (c : Char) (after : List Char)
    (groups : List (Nat × Nat × Nat)) (k : Thread → Option Thread) :
    (Re.cls accepts).walk ⟨⟨before, c :: after⟩, groups⟩ k =
      if accepts c then k ⟨⟨c :: before, after⟩, groups⟩ else none := rfl

theorem walk_alt (first second : Re) (thread : Thread) (k : Thread → Option Thread) :
    (Re.alt first second).walk thread k = (first.walk thread k <|> second.walk thread k) := rfl

theorem walk_many (accepts : Char → Bool) (before after : List Char) (groups : List (Nat × Nat × Nat))
    (k : Thread → Option Thread) :
    (Re.many accepts).walk ⟨⟨before, after⟩, groups⟩ k = manyFrom accepts groups k before after := rfl

theorem walk_lit_append (pre rest before : List Char) (groups : List (Nat × Nat × Nat))
    (k : Thread → Option Thread) :
    (lit pre).walk ⟨⟨before, pre ++ rest⟩, groups⟩ k = k ⟨⟨pre.reverse ++ before, rest⟩, groups⟩ := by
  induction pre generalizing before with
  | nil => rfl
  | cons c pre ih => simp [lit, char, walk, ih]

theorem walk_lit_mismatch (pre after before : List Char) (groups : List (Nat × Nat × Nat))
    (k : Thread → Option Thread) (mismatch : ¬ pre <+: after) :
    (lit pre).walk ⟨⟨before, after⟩, groups⟩ k = none := by
  induction pre generalizing before after with
  | nil => exact absurd List.nil_prefix mismatch
  | cons c pre ih =>
    cases after with
    | nil => rfl
    | cons d after =>
      simp only [lit, char, walk_seq, walk, beq_iff_eq]
      split_ifs with same
      · subst same
        exact ih _ _ fun isPrefix => mismatch ((List.prefix_cons_inj _).mpr isPrefix)
      · rfl

/-- A needle that overlaps no shifted copy of itself, found at a position of `pre` followed
by the needle, lies wholly inside `pre`. -/
theorem infix_of_unbordered_prefix (needle pre rest : List Char) (k : Nat) (inside : k < pre.length)
    (unbordered : ∀ shift < needle.length, 0 < shift → needle.drop shift ≠ needle.take (needle.length - shift))
    (starts : needle <+: pre.drop k ++ needle ++ rest) : needle <:+: pre := by
  have tailPos : 0 < (pre.drop k).length := by simp only [List.length_drop]; omega
  rw [List.prefix_iff_eq_take, List.append_assoc, List.take_append_eq_append_take] at starts
  by_cases fits : needle.length ≤ (pre.drop k).length
  · rw [Nat.sub_eq_zero_of_le fits, List.take_zero, List.append_nil] at starts
    exact (List.prefix_iff_eq_take.mpr starts).isInfix.trans (List.drop_suffix k pre).isInfix
  · rw [List.take_of_length_le (by omega), List.take_append_of_le_length (by omega)] at starts
    refine absurd ?_ (unbordered _ (by omega) tailPos)
    calc needle.drop (pre.drop k).length
        = (pre.drop k ++ needle.take (needle.length - (pre.drop k).length)).drop (pre.drop k).length := by
          rw [← starts]
      _ = needle.take (needle.length - (pre.drop k).length) := List.drop_left ..

/-- The longest run of accepted characters is tried first: when the rest of the pattern
succeeds right after it, that is the match. -/
theorem manyFrom_run (accepts : Char → Bool) (groups : List (Nat × Nat × Nat))
    (k : Thread → Option Thread) (before run rest : List Char) (result : Thread)
    (all : ∀ c ∈ run, accepts c = true) (stop : ∀ c ∈ rest.head?, accepts c = false)
    (ends : k ⟨⟨run.reverse ++ before, rest⟩, groups⟩ = some result) :
    manyFrom accepts groups k before (run ++ rest) = some result := by
  induction run generalizing before with
  | nil =>
    cases rest with
    | nil => exact ends
    | cons c rest => simpa [manyFrom, stop c rfl] using ends
  | cons c run ih =>
    rw [List.cons_append, manyFrom, if_pos (all c (List.mem_cons_self _ _)),
      ih _ (fun d member => all d (List.mem_cons_of_mem _ member)) (by simpa using ends)]
    rfl

theorem walk_group (index : Nat) (body : Re) (thread : Thread) (k : Thread → Option Thread) :
    (Re.group index body).walk thread k = body.walk thread fun next =>
      k { next with groups := (index, thread.cursor.pos, next.cursor.pos) :: next.groups } := rfl

theorem walk_opt_of_none (body : Re) (thread : Thread) (k : Thread → Option Thread)
    (fails : body.walk thread k = none) : (opt body).walk thread k = k thread := by
  simp [opt, walk, fails]

theorem scan_no_match (pattern : Re) (before pre rest : List Char)
    (none : ∀ k < pre.length, pattern.matchAt ⟨(pre.take k).reverse ++ before, pre.drop k ++ rest⟩ = none) :
    pattern.scan 0 before (pre ++ rest) = pattern.scan 0 (pre.reverse ++ before) rest := by
  induction pre generalizing before with
  | nil => rfl
  | cons c pre ih =>
    have first := none 0 (by simp)
    simp only [List.take_zero, List.reverse_nil, List.nil_append, List.drop_zero] at first
    rw [List.cons_append, scan, if_pos rfl, ← List.cons_append, first]
    simp only [List.reverse_cons, List.append_assoc, List.singleton_append]
    exact ih _ fun k below => by simpa using none (k + 1) (by simpa using below)

theorem scan_found (pattern : Re) (before : List Char) (c : Char) (after : List Char) (thread : Thread)
    (found : pattern.matchAt ⟨before, c :: after⟩ = some thread) :
    pattern.scan 0 before (c :: after) = ⟨before.length, thread.cursor.pos, thread.groups⟩ ::
      pattern.scan (thread.cursor.pos - before.length - 1) (c :: before) after := by
  simp [scan, found]

theorem scan_skip (pattern : Re) (before pre rest : List Char) :
    pattern.scan pre.length before (pre ++ rest) = pattern.scan 0 (pre.reverse ++ before) rest := by
  induction pre generalizing before with
  | nil => rfl
  | cons c pre ih => simp [scan, ih]

theorem scan_skip_length (pattern : Re) (before after : List Char) :
    pattern.scan after.length before after = pattern.scan 0 (after.reverse ++ before) [] := by
  simpa using scan_skip pattern before after []

theorem scan_none (pattern : Re) (before text : List Char)
    (none : ∀ k ≤ text.length, pattern.matchAt ⟨(text.take k).reverse ++ before, text.drop k⟩ = none) :
    pattern.scan 0 before text = [] := by
  have atEnd := none text.length le_rfl
  simp only [List.take_length, List.drop_length] at atEnd
  rw [← List.append_nil text, scan_no_match _ _ _ _ fun k below => by simpa using none k below.le]
  simp [scan, atEnd]

/-- A text with exactly one match: none starts before it, it covers `body`, and none starts
after it. -/
theorem scan_single (pattern : Re) (before pre body post : List Char) (groups : List (Nat × Nat × Nat))
    (nonempty : body ≠ [])
    (clearBefore : ∀ k < pre.length,
      pattern.matchAt ⟨(pre.take k).reverse ++ before, pre.drop k ++ (body ++ post)⟩ = none)
    (found : pattern.matchAt ⟨pre.reverse ++ before, body ++ post⟩ =
      some ⟨⟨body.reverse ++ (pre.reverse ++ before), post⟩, groups⟩)
    (clearAfter : ∀ k ≤ post.length,
      pattern.matchAt ⟨(post.take k).reverse ++ (body.reverse ++ (pre.reverse ++ before)), post.drop k⟩ = none) :
    pattern.scan 0 before (pre ++ body ++ post) =
      [⟨pre.length + before.length, body.length + (pre.length + before.length), groups⟩] := by
  obtain ⟨c, body, rfl⟩ := List.exists_cons_of_ne_nil nonempty
  rw [List.cons_append] at found
  rw [List.append_assoc, scan_no_match _ _ _ _ clearBefore, List.cons_append, scan_found _ _ _ _ _ found]
  simp only [Cursor.pos, List.length_append, List.length_reverse, List.length_cons]
  rw [show body.length + 1 + (pre.length + before.length) - (pre.length + before.length) - 1 = body.length by
    omega, scan_skip, scan_none _ _ _ fun k below => by simpa using clearAfter k below]

theorem walk_lit_space_none (pre after before : List Char) (groups : List (Nat × Nat × Nat)) (rest : Re)
    (k : Thread → Option Thread) (noSpace : ∀ c ∈ after, isSpace c = false) :
    (Re.seq (lit pre) (Re.seq (many1 isSpace) rest)).walk ⟨⟨before, after⟩, groups⟩ k = none := by
  by_cases found : pre <+: after
  · obtain ⟨tail, rfl⟩ := found
    rw [walk_seq, walk_lit_append]
    cases tail with
    | nil => rfl
    | cons c tail =>
      simp only [walk_seq, many1, walk_cls_cons, noSpace c (by simp), Bool.false_eq_true, if_false]
  · rw [walk_seq]
    exact walk_lit_mismatch _ _ _ _ _ found

/-! ## Walks move forward -/

theorem manyFrom_none (accepts : Char → Bool) (groups : List (Nat × Nat × Nat)) (k : Thread → Option Thread)
    (before run rest : List Char) (all : ∀ c ∈ run, accepts c = true) (stop : ∀ c ∈ rest.head?, accepts c = false)
    (fails : ∀ i ≤ run.length, k ⟨⟨(run.take i).reverse ++ before, run.drop i ++ rest⟩, groups⟩ = none) :
    manyFrom accepts groups k before (run ++ rest) = none := by
  induction run generalizing before with
  | nil =>
    have atEnd := fails 0 (Nat.le_refl 0)
    cases rest with
    | nil => exact atEnd
    | cons c rest => simpa [manyFrom, stop c rfl] using atEnd
  | cons c run ih =>
    rw [List.cons_append, manyFrom, if_pos (all c (List.mem_cons_self _ _)),
      ih _ (fun d member => all d (List.mem_cons_of_mem _ member)) fun i within => by
        simpa using fails (i + 1) (by simpa using within)]
    simpa using fails 0 (Nat.zero_le _)

theorem walk_of_suffix (pattern : Re) (thread : Thread) (k : Thread → Option Thread)
    (fails : ∀ next : Thread, next.cursor.after <:+ thread.cursor.after → k next = none) :
    pattern.walk thread k = none := by
  induction pattern generalizing thread k with
  | cls accepts =>
    obtain ⟨⟨before, _ | ⟨c, after⟩⟩, groups⟩ := thread
    · rfl
    · rw [walk_cls_cons]
      split_ifs
      · exact fails _ (List.suffix_cons c after)
      · rfl
  | many accepts =>
    obtain ⟨⟨before, after⟩, groups⟩ := thread
    rw [walk_many]
    induction after generalizing before with
    | nil => exact fails _ (List.suffix_refl _)
    | cons c after ih =>
      rw [manyFrom]
      split_ifs
      · rw [ih _ fun next later => fails next (later.trans (List.suffix_cons c after)), fails _ (List.suffix_refl _)]
        rfl
      · exact fails _ (List.suffix_refl _)
  | seq first second ihFirst ihSecond =>
    exact ihFirst thread _ fun next later => ihSecond next k fun last after => fails last (after.trans later)
  | alt first second ihFirst ihSecond =>
    rw [walk_alt, ihFirst thread k fails, ihSecond thread k fails]
    rfl
  | empty => exact fails thread (List.suffix_refl _)
  | lineStart =>
    rw [walk_lineStart]
    split_ifs
    · exact fails thread (List.suffix_refl _)
    · rfl
  | stringEnd =>
    show (if _ then k thread else none) = none
    split_ifs
    · exact fails thread (List.suffix_refl _)
    · rfl
  | wordBoundary =>
    show (if _ then k thread else none) = none
    split_ifs
    · exact fails thread (List.suffix_refl _)
    · rfl
  | notAfter classes =>
    rw [walk_notAfter]
    split_ifs
    · rfl
    · exact fails thread (List.suffix_refl _)
  | group index body ih => exact ih thread _ fun next later => fails _ later

end Re

/-- `needle in text`, and `text.count(needle)`, for a non-empty needle. -/
def occurs (needle text : List Char) : Bool := ((Re.lit needle).search text).isSome

def occurrences (needle text : List Char) : Nat := (Re.lit needle).count text

end SourceAudit
