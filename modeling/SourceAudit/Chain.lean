import SourceAudit.Regex

/-! Patterns made of literals joined by `.*`, such as `impl.*{name}` or
`Result<.*Box<dyn.*Error`.

`.*` stops at a newline and is greedy, so a match runs to the last place on its line where
the rest of the pattern still fits: no second match starts on that line, and `re.findall`
counts the lines on which the literals occur in order, not the occurrences.
-/

set_option autoImplicit false

namespace SourceAudit

namespace Re

/-- `.*w₁.*w₂...`: what follows the first literal of a chain. -/
def chainTail : List (List Char) → Re
  | [] => .empty
  | word :: words => .seq dotStar (.seq (lit word) (chainTail words))

/-- `w₀.*w₁.*w₂...`: literals joined by `.*`. -/
def chain (first : List Char) (words : List (List Char)) : Re := .seq (lit first) (chainTail words)

end Re

/-- Whether the words occur in `line` in order, each after the end of the one before. -/
def inOrder : List (List Char) → List Char → Bool
  | [], _ => true
  | word :: words, line => (List.range (line.length + 1)).any fun i =>
    word.isPrefixOf (line.drop i) && inOrder words (line.drop (i + word.length))

/-! ## Words in order -/

theorem inOrder_cons_nil (word : List Char) (words : List (List Char)) (nonempty : word ≠ []) :
    inOrder (word :: words) [] = false := by
  cases word with
  | nil => exact absurd rfl nonempty
  | cons c word => rfl

theorem inOrder_cons_cons (word : List Char) (words : List (List Char)) (c : Char) (line : List Char) :
    inOrder (word :: words) (c :: line) =
      ((word.isPrefixOf (c :: line) && inOrder words ((c :: line).drop word.length)) ||
        inOrder (word :: words) line) := by
  simp only [inOrder, List.length_cons]
  rw [List.range_succ_eq_map, List.any_cons, List.any_map]
  simp only [Function.comp_def, List.drop_zero, Nat.zero_add, Nat.succ_add, List.drop_succ_cons]

theorem inOrder_of_suffix (words : List (List Char)) {shorter longer : List Char} (suffix : shorter <:+ longer)
    (found : inOrder words shorter = true) : inOrder words longer = true := by
  cases words with
  | nil => rfl
  | cons word words =>
    obtain ⟨skipped, rfl⟩ := suffix
    simp only [inOrder, List.any_eq_true, List.mem_range, Bool.and_eq_true] at found ⊢
    obtain ⟨i, below, starts, rest⟩ := found
    refine ⟨i + skipped.length, by simp; omega, ?_⟩
    rw [show i + skipped.length + word.length = (i + word.length) + skipped.length by omega, Nat.add_comm _ skipped.length,
      Nat.add_comm _ skipped.length, ← List.drop_drop, ← List.drop_drop, List.drop_left]
    exact ⟨starts, rest⟩

theorem starts_line_append_iff {word line rest : List Char} (clean : '\n' ∉ word) (stop : ∀ c ∈ rest.head?, c = '\n') :
    word <+: line ++ rest ↔ word <+: line := by
  refine ⟨fun ⟨tail, joined⟩ => ?_, fun starts => starts.trans (List.prefix_append _ _)⟩
  rcases List.append_eq_append_iff.mp joined with ⟨more, rfl, -⟩ | ⟨more, rfl, split⟩
  · exact List.prefix_append _ _
  · cases more with
    | nil => exact ⟨[], by simp⟩
    | cons c more =>
      obtain rfl := stop c (by rw [split]; rfl)
      exact absurd (List.mem_append_right _ (List.mem_cons_self _ more)) clean

/-! ## Walking a chain along one line -/

/-- How a pattern walks from inside a line that ends with nothing or a newline: it completes
exactly when `accepts` holds of the rest of the line, consuming a part `used` of it and leaving
`left`, of which `after` holds. -/
def WalksLine (pattern : Re) (accepts : List Char → Bool) (after : List Char → List Char → Prop) : Prop :=
  ∀ before line rest groups, '\n' ∉ line → (∀ c ∈ rest.head?, c = '\n') →
    (pattern.walk ⟨⟨before, line ++ rest⟩, groups⟩ some).isSome = accepts line ∧
      ∀ thread ∈ pattern.walk ⟨⟨before, line ++ rest⟩, groups⟩ some, ∃ used left, line = used ++ left ∧
        thread = ⟨⟨used.reverse ++ before, left ++ rest⟩, groups⟩ ∧ after used left

theorem walksLine_litChain (word : List Char) (words : List (List Char)) (nonempty : word ≠ [])
    (clean : '\n' ∉ word)
    (tail : WalksLine (Re.chainTail words) (inOrder words) fun _ left => words ≠ [] → inOrder words left = false) :
    WalksLine (.seq (Re.lit word) (Re.chainTail words))
      (fun line => word.isPrefixOf line && inOrder words (line.drop word.length))
      fun used left => used ≠ [] ∧ (words ≠ [] → inOrder words left = false) := by
  intro before line rest groups lineClean stop
  by_cases starts : word <+: line
  · obtain ⟨more, rfl⟩ := starts
    rw [Re.walk_seq, List.append_assoc, Re.walk_lit_append]
    obtain ⟨completes, shape⟩ := tail (word.reverse ++ before) more rest groups
      (fun inMore => lineClean (List.mem_append_right _ inMore)) stop
    have starts : word.isPrefixOf (word ++ more) = true := List.isPrefixOf_iff_prefix.mpr (List.prefix_append _ _)
    refine ⟨by simpa [starts] using completes, fun thread found => ?_⟩
    obtain ⟨used, left, rfl, rfl, last⟩ := shape thread found
    exact ⟨word ++ used, left, by simp, by simp, fun empty => nonempty (List.append_eq_nil.mp empty).1, last⟩
  · have mismatch : ¬ word <+: line ++ rest := fun starts' => starts ((starts_line_append_iff clean stop).mp starts')
    rw [Re.walk_seq, Re.walk_lit_mismatch _ _ _ _ _ mismatch]
    simp only [Option.isSome_none, Option.not_mem_none, false_implies, implies_true, and_true]
    simp [starts]

theorem walk_dotStar (next : Re) (before after : List Char) (groups : List (Nat × Nat × Nat)) :
    (Re.seq Re.dotStar next).walk ⟨⟨before, after⟩, groups⟩ some =
      manyFrom Re.dot groups (fun thread => next.walk thread some) before after := rfl

/-- `.*` and then a literal: the greedy run tries the longest part of the line first, so the
match ends where the rest of the chain no longer occurs in what is left. -/
theorem walksLine_chainTail (words : List (List Char)) (plain : ∀ word ∈ words, word ≠ [] ∧ '\n' ∉ word) :
    WalksLine (Re.chainTail words) (inOrder words) fun _ left => words ≠ [] → inOrder words left = false := by
  induction words with
  | nil =>
    intro before line rest groups _ _
    exact ⟨rfl, fun thread found => ⟨[], line, rfl, (Option.some.inj found).symm, fun nonempty => absurd rfl nonempty⟩⟩
  | cons word words ih =>
    obtain ⟨nonempty, clean⟩ := plain word (List.mem_cons_self _ _)
    have literal := walksLine_litChain word words nonempty clean
      (ih fun other member => plain other (List.mem_cons_of_mem _ member))
    intro before line rest groups lineClean stop
    simp only [Re.chainTail, walk_dotStar]
    induction line generalizing before with
    | nil =>
      have atEnd : manyFrom Re.dot groups (fun thread => (Re.seq (Re.lit word) (Re.chainTail words)).walk thread some)
          before rest = (Re.seq (Re.lit word) (Re.chainTail words)).walk ⟨⟨before, [] ++ rest⟩, groups⟩ some := by
        cases rest with
        | nil => rfl
        | cons c rest => simp [manyFrom, Re.dot, stop c rfl]
      have fails : (Re.seq (Re.lit word) (Re.chainTail words)).walk ⟨⟨before, [] ++ rest⟩, groups⟩ some = none := by
        have completes := (literal before [] rest groups lineClean stop).1
        cases word with
        | nil => exact absurd rfl nonempty
        | cons c word => simpa [List.isPrefixOf] using completes
      rw [List.nil_append, atEnd, fails, inOrder_cons_nil word words nonempty]
      exact ⟨rfl, fun _ found => absurd found (Option.not_mem_none _)⟩
    | cons c line ih' =>
      have dotted : Re.dot c = true := by
        simp only [Re.dot, bne_iff_ne, ne_eq]
        rintro rfl
        exact lineClean (List.mem_cons_self _ _)
      have restClean : '\n' ∉ line := fun inLine => lineClean (List.mem_cons_of_mem _ inLine)
      obtain ⟨later, laterShape⟩ := ih' (c :: before) restClean
      obtain ⟨here, hereShape⟩ := literal before (c :: line) rest groups lineClean stop
      rw [List.cons_append] at here hereShape
      rw [List.cons_append, manyFrom, if_pos dotted, inOrder_cons_cons]
      cases found : manyFrom Re.dot groups (fun thread => (Re.seq (Re.lit word) (Re.chainTail words)).walk thread some)
          (c :: before) (line ++ rest) with
      | some thread =>
        rw [found] at later laterShape
        obtain ⟨used, left, rfl, rfl, last⟩ := laterShape thread rfl
        refine ⟨by simp [← later], fun _ same => ?_⟩
        obtain rfl := Option.some.inj same
        exact ⟨c :: used, left, rfl, by simp, last⟩
      | none =>
        rw [found] at later
        refine ⟨by simpa [← later] using here, fun thread same => ?_⟩
        obtain ⟨used, left, split, rfl, usedNonempty, -⟩ := hereShape thread same
        refine ⟨used, left, split, rfl, fun _ => ?_⟩
        obtain ⟨d, used, rfl⟩ := List.exists_cons_of_ne_nil usedNonempty
        have suffix : left <:+ line := ⟨used, (List.cons.inj split).2.symm⟩
        cases again : inOrder (word :: words) left
        · rfl
        · simp [inOrder_of_suffix _ suffix again] at later

/-! ## Lines -/

theorem exists_first_newline (text : List Char) (has : '\n' ∈ text) :
    ∃ line rest, text = line ++ '\n' :: rest ∧ '\n' ∉ line := by
  induction text with
  | nil => cases has
  | cons c text ih =>
    by_cases newline : c = '\n'
    · exact ⟨[], c :: text |>.tail, by rw [newline]; rfl, List.not_mem_nil _⟩
    · obtain ⟨line, rest, rfl, clean⟩ := ih ((List.mem_cons.mp has).resolve_left fun same => newline same.symm)
      exact ⟨c :: line, rest, rfl, by simp [clean, Ne.symm newline]⟩

theorem splitLines_line_newline (line rest : List Char) (clean : '\n' ∉ line) :
    splitLines (line ++ '\n' :: rest) = line :: splitLines rest :=
  List.splitOnP_first (· == '\n') line (fun c member newline => clean (by rwa [← beq_iff_eq.mp newline])) '\n'
    (beq_self_eq_true _) rest

theorem splitLines_of_clean (text : List Char) (clean : '\n' ∉ text) : splitLines text = [text] :=
  List.splitOnP_eq_single (· == '\n') text (fun c member newline => clean (by rwa [← beq_iff_eq.mp newline]))

section
variable (first : List Char) (words : List (List Char)) (plain : ∀ word ∈ first :: words, word ≠ [] ∧ '\n' ∉ word)
include plain

/-- A chain matches at a position of a line exactly when its first literal starts there and the
others follow in order on the line. -/
theorem walksLine_chain :
    WalksLine (Re.chain first words) (fun line => first.isPrefixOf line && inOrder words (line.drop first.length))
      fun used left => used ≠ [] ∧ (words ≠ [] → inOrder words left = false) :=
  walksLine_litChain first words (plain first (List.mem_cons_self _ _)).1 (plain first (List.mem_cons_self _ _)).2
    (walksLine_chainTail words fun word member => plain word (List.mem_cons_of_mem _ member))

theorem chain_matchAt_left (before left rest : List Char) (clean : '\n' ∉ left) (stop : ∀ c ∈ rest.head?, c = '\n')
    (done : inOrder words left = false) (k : Nat) :
    (Re.chain first words).matchAt ⟨before, left.drop k ++ rest⟩ = none := by
  have completes := (walksLine_chain first words plain before (left.drop k) rest []
    (fun inDrop => clean (List.mem_of_mem_drop inDrop)) stop).1
  dsimp only at completes
  cases again : first.isPrefixOf (left.drop k) && inOrder words ((left.drop k).drop first.length)
  · rw [again] at completes
    exact Option.not_isSome_iff_eq_none.mp fun matched => by rw [Re.matchAt, completes] at matched; cases matched
  · have found := inOrder_of_suffix words ((List.drop_suffix _ _).trans (List.drop_suffix _ _))
      (Bool.and_eq_true_iff.mp again).2
    rw [done] at found
    cases found

/-- One line of the text: a chain whose first literal is followed by others matches at most
once on it, and exactly when its literals occur on it in order. -/
theorem chain_scan_line (tail : words ≠ []) (before line rest : List Char) (clean : '\n' ∉ line)
    (stop : ∀ c ∈ rest.head?, c = '\n') :
    ((Re.chain first words).scan 0 before (line ++ rest)).length =
      (if inOrder (first :: words) line then 1 else 0) +
        ((Re.chain first words).scan 0 (line.reverse ++ before) rest).length := by
  induction line generalizing before with
  | nil => simp [inOrder_cons_nil first words (plain first (List.mem_cons_self _ _)).1]
  | cons c line ih =>
    have walks := walksLine_chain first words plain before (c :: line) rest [] clean stop
    rw [List.cons_append] at walks
    dsimp only at walks
    rw [inOrder_cons_cons, List.cons_append]
    cases found : (Re.chain first words).matchAt ⟨before, c :: (line ++ rest)⟩ with
    | none =>
      have fails : (first.isPrefixOf (c :: line) && inOrder words ((c :: line).drop first.length)) = false := by
        rw [← walks.1]
        exact congrArg Option.isSome found
      rw [Re.scan, if_pos rfl, found]
      simp only [fails, Bool.false_or]
      rw [ih (c :: before) fun inLine => clean (List.mem_cons_of_mem _ inLine), List.reverse_cons, List.append_assoc]
      rfl
    | some thread =>
      obtain ⟨used, left, split, rfl, usedNonempty, last⟩ := walks.2 _ found
      obtain ⟨d, used, rfl⟩ := List.exists_cons_of_ne_nil usedNonempty
      obtain ⟨rfl, rfl⟩ : c = d ∧ line = used ++ left := by simpa using split
      have matched : (first.isPrefixOf (c :: (used ++ left)) &&
          inOrder words ((c :: (used ++ left)).drop first.length)) = true := by
        rw [← walks.1]
        exact congrArg Option.isSome found
      have leftClean : '\n' ∉ left := fun inLeft => clean (List.mem_cons_of_mem _ (List.mem_append_right _ inLeft))
      rw [Re.scan_found _ _ _ _ _ found, List.length_cons, matched, Bool.true_or, if_pos rfl]
      simp only [Cursor.pos, List.length_append, List.length_reverse, List.length_cons]
      rw [show used.length + 1 + before.length - before.length - 1 = used.length by omega, List.append_assoc,
        Re.scan_skip, Re.scan_no_match _ _ _ _ fun k _ => chain_matchAt_left first words plain _ left rest leftClean
          stop (last tail) k]
      simp [Nat.add_comm]

theorem chain_matchAt_newline (tail : words ≠ []) (before rest : List Char) :
    (Re.chain first words).matchAt ⟨before, '\n' :: rest⟩ = none := by
  obtain ⟨word, others, rfl⟩ := List.exists_cons_of_ne_nil tail
  exact chain_matchAt_left first _ plain before [] ('\n' :: rest) (List.not_mem_nil _) (by simp)
    (inOrder_cons_nil word others (plain word (by simp)).1) 0

theorem chain_scan_lines (tail : words ≠ []) (before text : List Char) :
    ((Re.chain first words).scan 0 before text).length =
      ((splitLines text).filter (inOrder (first :: words))).length := by
  by_cases has : '\n' ∈ text
  · obtain ⟨line, rest, split, clean⟩ := exists_first_newline text has
    rw [split, chain_scan_line first words plain tail before line _ clean (by simp), splitLines_line_newline line rest clean,
      List.filter_cons, Re.scan, if_pos rfl, chain_matchAt_newline first words plain tail]
    dsimp only
    rw [chain_scan_lines tail _ rest]
    split_ifs <;> simp [Nat.add_comm]
  · rw [← List.append_nil text, chain_scan_line first words plain tail before text [] has (by simp), List.append_nil,
      splitLines_of_clean text has]
    have atEnd : (Re.chain first words).matchAt ⟨text.reverse ++ before, []⟩ = none :=
      chain_matchAt_left first words plain _ [] [] (List.not_mem_nil _) (by simp) (by
        obtain ⟨word, others, rfl⟩ := List.exists_cons_of_ne_nil tail
        exact inOrder_cons_nil word others (plain word (by simp)).1) 0
    simp only [Re.scan, if_pos rfl, atEnd, List.length_nil, Nat.add_zero, List.filter_cons, List.filter_nil]
    split_ifs <;> rfl
termination_by text.length
decreasing_by rw [split]; simp; omega

/-- `len(re.findall(w₀.*w₁..., text))` is the number of lines of `text` on which the literals
occur in order. -/
theorem chain_count (tail : words ≠ []) (text : List Char) :
    (Re.chain first words).count text = ((splitLines text).filter (inOrder (first :: words))).length :=
  chain_scan_lines first words plain tail [] text

end

end SourceAudit
