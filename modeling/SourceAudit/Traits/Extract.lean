import SourceAudit.Regex

/-! `extract_traits` of `audit_traits.py`: trait headers found by `trait_pattern`,
bodies cut by the brace-depth loop, members counted on comment-stripped lines.

The file read that starts `extract_traits` belongs to the corpus passes; here the
function starts from the decoded text.
-/

set_option autoImplicit false

namespace SourceAudit.Traits

/-- `trait_pattern`, compiled with `re.MULTILINE`; group 1 is `indent`, group 2 is `name`. -/
def traitPattern : Re :=
  .seqs [.lineStart, .group 1 (.many isSpace),
    .opt (.seqs [.lit "pub".toList, .opt (.seqs [.char '(', .many (· != ')'), .char ')']),
      .many1 isSpace]),
    .lit "trait".toList, .many1 isSpace, .group 2 (.many1 isWord),
    .opt (.seqs [.char '<', .many (· != '>'), .char '>']), .many isSpace,
    .opt (.seqs [.char ':', .many isSpace, .many (· != '{')]), .char '{']

/-- `r'//.*$'`, erased from each body line. -/
def commentPattern : Re := .seqs [.lit "//".toList, Re.dotStar, .stringEnd]

/-- `r'\bfn\s+(\w+)'`. -/
def fnPattern : Re := .seqs [.wordBoundary, .lit "fn".toList, .many1 isSpace, .group 1 (.many1 isWord)]

/-- `r'type\s+(\w+)'`. -/
def typePattern : Re := .seqs [.lit "type".toList, .many1 isSpace, .group 1 (.many1 isWord)]

/-- The body of the brace loop: `brace_count` after reading `c`. -/
def countBrace (c : Char) (braceCount : Nat) : Nat :=
  if c = '{' then braceCount + 1 else if c = '}' then braceCount - 1 else braceCount

/-- `while pos < len(content) and brace_count > 0`, over `content[pos:]`; the final
`pos` and `brace_count`. -/
def scanBraces : List Char → Nat → Nat → Nat × Nat
  | [], pos, braceCount => (pos, braceCount)
  | c :: rest, pos, braceCount =>
    if 0 < braceCount then scanBraces rest (pos + 1) (countBrace c braceCount)
    else (pos, braceCount)

/-- `trait_body = content[trait_body_start:pos-1]`. -/
def traitBody (content : List Char) (start : Nat) : List Char :=
  slice content start ((scanBraces (content.drop start) start 1).1 - 1)

/-- The members of a body: `fn` names found line by line once comments are erased. -/
def bodyMethods (body : List Char) : List (List Char) :=
  (splitLines body).flatMap fun line => fnPattern.findall (commentPattern.erase line)

/-- `method_count`, accumulated line by line. -/
def bodyMethodCount (body : List Char) : Nat :=
  (splitLines body).foldl (fun count line => count + (fnPattern.findall (commentPattern.erase line)).length) 0

/-- `assoc_types`: a `findall` over the whole body. -/
def bodyAssocTypes (body : List Char) : List (List Char) := typePattern.findall body

/-- The record `extract_traits` appends for one header. -/
structure TraitInfo where
  name : String
  file : String
  line : Nat
  methodCount : Nat
  methods : List String
  assocTypes : List String
  hasGenerics : Bool
  signature : String
  body : String
  deriving DecidableEq, Repr

def traitRecord (filePath : String) (content : List Char) (header : Found) : TraitInfo :=
  let body := traitBody content header.stop
  { name := String.mk (header.group content 2)
    file := filePath
    line := lineOf content header.start
    methodCount := bodyMethodCount body
    methods := (bodyMethods body).map String.mk
    assocTypes := (bodyAssocTypes body).map String.mk
    hasGenerics := (header.group content 0).contains '<'
    signature := String.mk (strip (header.group content 0))
    body := String.mk (strip body) }

def extractTraits (filePath : String) (content : List Char) : List TraitInfo :=
  (traitPattern.finditer content).map (traitRecord filePath content)

theorem bodyMethodCount_eq_length (body : List Char) :
    bodyMethodCount body = (bodyMethods body).length := by
  suffices ∀ (lines : List (List Char)) (count : Nat),
      lines.foldl (fun count line => count + (fnPattern.findall (commentPattern.erase line)).length) count =
        count + (lines.flatMap fun line => fnPattern.findall (commentPattern.erase line)).length from
    (this _ 0).trans (Nat.zero_add _)
  intro lines
  induction lines with
  | nil => simp
  | cons line rest ih => intro count; simp [ih]; omega

/-! ## The brace-depth counter -/

def braceDelta (c : Char) : Int := if c = '{' then 1 else if c = '}' then -1 else 0

/-- Opened minus closed braces. -/
def braceDepth : List Char → Int
  | [] => 0
  | c :: rest => braceDelta c + braceDepth rest

/-- The counter of the loop after reading `content[start:stop]`: it starts at 1. -/
def depthAfter (content : List Char) (start stop : Nat) : Int :=
  1 + braceDepth (slice content start stop)

/-- `q` is the least index from `start` at which the counter reaches 0. -/
def ClosesAt (content : List Char) (start q : Nat) : Prop :=
  start ≤ q ∧ q < content.length ∧ depthAfter content start (q + 1) = 0 ∧
    ∀ i < q, start ≤ i → depthAfter content start (i + 1) ≠ 0

instance (content : List Char) (start q : Nat) : Decidable (ClosesAt content start q) :=
  inferInstanceAs (Decidable (_ ∧ _ ∧ _ ∧ _))

@[simp] theorem braceDepth_nil : braceDepth [] = 0 := rfl

@[simp] theorem braceDepth_cons (c : Char) (text : List Char) :
    braceDepth (c :: text) = braceDelta c + braceDepth text := rfl

theorem braceDepth_append (first second : List Char) :
    braceDepth (first ++ second) = braceDepth first + braceDepth second := by
  induction first with
  | nil => simp
  | cons c rest ih => simp [ih]; omega

theorem braceDelta_bounds (c : Char) : -1 ≤ braceDelta c ∧ braceDelta c ≤ 1 := by
  unfold braceDelta; split_ifs <;> omega

theorem countBrace_cast (c : Char) {braceCount : Nat} (positive : 0 < braceCount) :
    (countBrace c braceCount : Int) = braceCount + braceDelta c := by
  unfold countBrace braceDelta; split_ifs <;> omega

theorem braceDepth_take_succ (text : List Char) (k : Nat) :
    braceDepth (text.take (k + 1)) = braceDepth (text.take k) + (text[k]?.map braceDelta).getD 0 := by
  rw [List.take_succ, braceDepth_append]
  cases text[k]? <;> simp

theorem scanBraces_zero (rest : List Char) (pos : Nat) : scanBraces rest pos 0 = (pos, 0) := by
  cases rest <;> rfl

/-- The run of the loop up to its first zero: it stops just after the closing brace. -/
theorem scanBraces_first_zero (text : List Char) (pos braceCount j : Nat) (positive : 0 < braceCount)
    (bound : j < text.length) (zero : braceCount + braceDepth (text.take (j + 1)) = 0)
    (before : ∀ i < j, braceCount + braceDepth (text.take (i + 1)) ≠ 0) :
    scanBraces text pos braceCount = (pos + j + 1, 0) := by
  induction text generalizing pos braceCount j with
  | nil => simp at bound
  | cons c rest ih =>
    have stepped := countBrace_cast c positive
    simp only [scanBraces, if_pos positive]
    cases j with
    | zero =>
      have : countBrace c braceCount = 0 := by simp at zero; omega
      rw [this, scanBraces_zero]
    | succ j =>
      have first := before 0 (Nat.succ_pos j)
      simp only [List.take_succ_cons, braceDepth_cons, List.take_zero, braceDepth_nil] at first zero
      rw [ih (pos + 1) _ j (by omega) (by simpa using bound) (by omega) fun i below => ?_]
      · simp only [Prod.mk.injEq, and_true]; omega
      · have := before (i + 1) (by omega)
        simp only [List.take_succ_cons, braceDepth_cons] at this
        omega

theorem depth_pos_before_first_zero (text : List Char) (j : Nat)
    (before : ∀ i < j, 1 + braceDepth (text.take (i + 1)) ≠ 0) :
    ∀ k ≤ j, 0 < 1 + braceDepth (text.take k) := by
  intro k
  induction k with
  | zero => simp
  | succ k ih =>
    intro below
    have step := braceDepth_take_succ text k
    have := before k below
    cases found : text[k]? with
    | none => simp [found] at step; omega
    | some c => have := braceDelta_bounds c; simp [found] at step; omega

theorem braceDelta_eq_neg_one {c : Char} (closing : braceDelta c = -1) : c = '}' := by
  unfold braceDelta at closing; split_ifs at closing; assumption

theorem slice_start_add (content : List Char) (start k : Nat) :
    slice content start (start + k) = (content.drop start).take k := by
  simp [slice]

/-- `ClosesAt` read at offsets from `start`, as the loop sees `content[start:]`. -/
theorem closesAt_offsets {content : List Char} {start q : Nat} (closes : ClosesAt content start q) :
    q - start < (content.drop start).length ∧
      1 + braceDepth ((content.drop start).take (q - start + 1)) = 0 ∧
      ∀ i < q - start, 1 + braceDepth ((content.drop start).take (i + 1)) ≠ 0 := by
  obtain ⟨lower, bound, zero, before⟩ := closes
  refine ⟨by simp; omega, ?_, fun i below => ?_⟩
  · rw [← slice_start_add, show start + (q - start + 1) = q + 1 by omega]; exact zero
  · rw [← slice_start_add]; exact before (start + i) (by omega) (by omega)

theorem traitBody_of_closes {content : List Char} {start q : Nat} (closes : ClosesAt content start q) :
    traitBody content start = slice content start q := by
  obtain ⟨bound, zero, before⟩ := closesAt_offsets closes
  rw [traitBody, scanBraces_first_zero _ start 1 (q - start) Nat.one_pos bound (by exact_mod_cast zero)
    (by exact_mod_cast before)]
  congr 1
  have := closes.1
  omega

theorem scanBraces_never_zero (text : List Char) (pos braceCount : Nat) (positive : 0 < braceCount)
    (never : ∀ i < text.length, braceCount + braceDepth (text.take (i + 1)) ≠ 0) :
    (scanBraces text pos braceCount).1 = pos + text.length := by
  induction text generalizing pos braceCount with
  | nil => rfl
  | cons c rest ih =>
    have stepped := countBrace_cast c positive
    have first := never 0 (by simp)
    simp only [List.take_succ_cons, List.take_zero, braceDepth_cons, braceDepth_nil] at first
    simp only [scanBraces, if_pos positive]
    rw [ih (pos + 1) _ (by omega) fun i below => ?_]
    · simp only [List.length_cons]; omega
    · have := never (i + 1) (by simpa using below)
      simp only [List.take_succ_cons, braceDepth_cons] at this
      omega

/-- An unclosed header still gets a body: all of the rest of the text but its last character. -/
theorem traitBody_of_never_closed {content : List Char} {start : Nat}
    (never : ∀ i < content.length, start ≤ i → depthAfter content start (i + 1) ≠ 0) :
    traitBody content start = slice content start (content.length - 1) := by
  have run := scanBraces_never_zero (content.drop start) start 1 Nat.one_pos fun i below => by
    rw [← slice_start_add]
    exact never (start + i) (by simp at below; omega) (by omega)
  rw [traitBody, run]
  by_cases inside : start ≤ content.length
  · simp only [List.length_drop]; congr 1; omega
  · simp [slice, List.drop_eq_nil_of_le (by omega : content.length ≤ start)]

/-- The cut body is balanced, never dips below zero, and is followed by `}`. -/
theorem closesAt_balanced {content : List Char} {start q : Nat} (closes : ClosesAt content start q) :
    content[q]? = some '}' ∧ braceDepth (slice content start q) = 0 ∧
      ∀ k, 0 ≤ braceDepth ((slice content start q).take k) := by
  obtain ⟨bound, zero, before⟩ := closesAt_offsets closes
  have lower := closes.1
  have positive := depth_pos_before_first_zero _ _ before
  have step := braceDepth_take_succ (content.drop start) (q - start)
  have atQ : (content.drop start)[q - start]? = content[q]? := by
    rw [List.getElem?_drop, show start + (q - start) = q by omega]
  have last := positive (q - start) le_rfl
  rw [show slice content start q = (content.drop start).take (q - start) by
    rw [← slice_start_add, show start + (q - start) = q by omega]]
  cases found : content[q]? with
  | none => simp [atQ, found] at step; omega
  | some c =>
    rw [atQ, found] at step
    have := braceDelta_bounds c
    simp only [Option.map_some', Option.getD_some] at step
    refine ⟨congrArg some (braceDelta_eq_neg_one (by omega)), by omega, fun k => ?_⟩
    rw [List.take_take]
    have := positive (min k (q - start)) (min_le_right _ _)
    omega

/-! ## Bodies of the records -/

/-- A header whose brace closes at `q` gets the body `content[m.end():q].strip()`: the
text up to the first zero of the counter, at any nesting depth. -/
theorem extractTraits_body_closed (filePath : String) (content : List Char) (index q : Nat)
    (header : Found) (matched : (traitPattern.finditer content)[index]? = some header)
    (closes : ClosesAt content header.stop q) :
    (extractTraits filePath content)[index]?.map TraitInfo.body =
        some (String.mk (strip (slice content header.stop q))) ∧
      content[q]? = some '}' ∧ braceDepth (slice content header.stop q) = 0 ∧
      ∀ k, 0 ≤ braceDepth ((slice content header.stop q).take k) :=
  ⟨by simp [extractTraits, matched, traitRecord, traitBody_of_closes closes], closesAt_balanced closes⟩

/-- A body holding two levels of nested braces. -/
def nestedTrait : List Char := "trait Nest \x7b\n  fn f() \x7b \x7b \x7d \x7d\n\x7d\n".toList

theorem extractTraits_body_nested :
    (traitPattern.finditer nestedTrait)[0]? =
        some ⟨0, 12, [(2, 6, 10), (1, 0, 0)]⟩ ∧
      ClosesAt nestedTrait 12 30 ∧
      (extractTraits "lib.rs" nestedTrait)[0]?.map TraitInfo.body =
        some (String.mk (strip (slice nestedTrait 12 30))) :=
  ⟨by decide, by decide,
    (extractTraits_body_closed "lib.rs" _ 0 30 ⟨0, 12, [(2, 6, 10), (1, 0, 0)]⟩ (by decide) (by decide)).1⟩

/-- A header whose brace is never closed is still reported, with the body
`content[m.end():len(content)-1].strip()`. -/
theorem extractTraits_body_unclosed (filePath : String) (content : List Char) (index : Nat)
    (header : Found) (matched : (traitPattern.finditer content)[index]? = some header)
    (never : ∀ i < content.length, header.stop ≤ i → depthAfter content header.stop (i + 1) ≠ 0) :
    (extractTraits filePath content)[index]?.map TraitInfo.body =
      some (String.mk (strip (slice content header.stop (content.length - 1)))) := by
  simp [extractTraits, matched, traitRecord, traitBody_of_never_closed never]

def unclosedTrait : List Char := "trait A \x7b\n  fn f();".toList

theorem extractTraits_body_unclosed_truncates :
    (traitPattern.finditer unclosedTrait)[0]? = some ⟨0, 9, [(2, 6, 7), (1, 0, 0)]⟩ ∧
      (∀ i < unclosedTrait.length, 9 ≤ i →
        depthAfter unclosedTrait 9 (i + 1) ≠ 0) ∧
      (extractTraits "lib.rs" unclosedTrait)[0]?.map TraitInfo.body =
        some (String.mk (strip (slice unclosedTrait 9 18))) :=
  ⟨by decide, by decide,
    extractTraits_body_unclosed "lib.rs" _ 0 ⟨0, 9, [(2, 6, 7), (1, 0, 0)]⟩ (by decide) (by decide)⟩

/-- A brace that is never closed: the counter stays positive to the end, and the header is
reported with the body cut one character short of the end. -/
theorem extractTraits_reports_unclosed :
    (∀ i < unclosedTrait.length, 9 ≤ i →
        depthAfter unclosedTrait 9 (i + 1) ≠ 0) ∧
      (extractTraits "lib.rs" unclosedTrait).map TraitInfo.body = ["fn f()"] := by
  decide

/-! ## Lines of the records -/

def blankLineTrait : List Char := "\ntrait A \x7b\x7d".toList

/-- `^\s*` reaches back over a blank line, so the header on line 2 is reported on line 1. -/
theorem extractTraits_line_counts_blank_lines :
    (extractTraits "lib.rs" blankLineTrait).map TraitInfo.line = [1] ∧
      lineOf blankLineTrait 1 = 2 := by
  decide

/-- From the start of a text of whitespace, `trait `, a name and ` {`: `^` holds there,
`(\s*)` takes all the whitespace, newlines included, and the rest of the header follows. -/
theorem traitPattern_matchAt_leading (blank name rest : List Char) (spaces : ∀ c ∈ blank, isSpace c = true)
    (named : name ≠ []) (word : ∀ c ∈ name, isWord c = true) :
    traitPattern.matchAt ⟨[], blank ++ "trait ".toList ++ name ++ " \x7b".toList ++ rest⟩ =
      some ⟨⟨(blank ++ "trait ".toList ++ name ++ " \x7b".toList).reverse, rest⟩,
        [(2, blank.length + 6, blank.length + 6 + name.length), (1, 0, blank.length)]⟩ := by
  obtain ⟨first, name, rfl⟩ := List.exists_cons_of_ne_nil named
  have firstWord := word first (List.mem_cons_self _ _)
  simp only [Re.matchAt, traitPattern, Re.seqs, Re.walk_seq, Re.walk_group, Re.walk_empty, Re.walk_lineStart,
    atLineStart, if_true, Re.walk_many, List.append_assoc]
  refine Re.manyFrom_run _ _ _ _ blank _ _ spaces (fun c found => by cases found; rfl) ?_
  have notPub : ¬ "pub".toList <+: "trait ".toList ++ (first :: name ++ (" \x7b".toList ++ rest)) := by
    rintro ⟨_, split⟩; cases split
  rw [Re.walk_opt_of_none _ _ _ (by simp only [Re.walk_seq]; exact Re.walk_lit_mismatch _ _ _ _ _ notPub),
    show "trait ".toList ++ (first :: name ++ (" \x7b".toList ++ rest)) =
      "trait".toList ++ (' ' :: first :: name ++ ' ' :: '\x7b' :: rest) from rfl, Re.walk_lit_append]
  simp only [Re.many1, Re.walk_seq, List.cons_append, Re.walk_cls_cons, Re.walk_many,
    show isSpace ' ' = true from rfl, if_true]
  rw [manyFrom, if_neg (by simp [isWord_not_space first firstWord])]
  simp only [Re.walk_cls_cons, firstWord, if_true, Re.walk_many]
  refine Re.manyFrom_run _ _ _ _ name _ _ (fun c member => word c (List.mem_cons_of_mem _ member))
    (fun c found => by cases found; rfl) ?_
  simp [Re.opt, Re.walk_alt, Re.char, Re.walk_cls_cons, Re.walk_many, manyFrom, Cursor.pos, isSpace]
  omega

/-- A file that opens with whitespace-only lines and then a header `trait <name> {`: the
record names the trait but reports line 1, while the header is on the line after the last
of those lines. -/
theorem extractTraits_line_after_blank_lines (filePath : String) (blank name rest : List Char)
    (spaces : ∀ c ∈ blank, isSpace c = true) (named : name ≠ []) (word : ∀ c ∈ name, isWord c = true) :
    (extractTraits filePath (blank ++ "trait ".toList ++ name ++ " \x7b".toList ++ rest)).head?.map
        (fun trait => (trait.name, trait.line)) = some (String.mk name, 1) ∧
      lineOf (blank ++ "trait ".toList ++ name ++ " \x7b".toList ++ rest) blank.length = blank.count '\n' + 1 := by
  have matched := traitPattern_matchAt_leading blank name rest spaces named word
  obtain ⟨c, after, split⟩ := List.exists_cons_of_ne_nil
    (show blank ++ "trait ".toList ++ name ++ " \x7b".toList ++ rest ≠ [] by simp)
  constructor
  · rw [extractTraits, Re.finditer, split, Re.scan_found _ _ _ _ _ (split ▸ matched)]
    simp only [List.map_cons, List.head?_cons, Option.map_some', traitRecord, lineOf]
    rw [← split]
    simp [Found.group, slice]
  · simp [lineOf, List.take_left']

/-- Two blank lines above the header. -/
theorem extractTraits_line_after_two_blank_lines :
    (extractTraits "lib.rs" ("\n\n".toList ++ "trait ".toList ++ "A".toList ++ " \x7b".toList ++ "\x7d".toList)).head?.map
        (fun trait => (trait.name, trait.line)) = some (String.mk "A".toList, 1) ∧
      lineOf ("\n\n".toList ++ "trait ".toList ++ "A".toList ++ " \x7b".toList ++ "\x7d".toList) "\n\n".toList.length =
        "\n\n".toList.count '\n' + 1 :=
  extractTraits_line_after_blank_lines "lib.rs" "\n\n".toList "A".toList "\x7d".toList (by decide) (by decide)
    (by decide)

end SourceAudit.Traits
