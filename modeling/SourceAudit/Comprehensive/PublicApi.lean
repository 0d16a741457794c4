import SourceAudit.Comprehensive

/-! The function counts of `analyze_public_vs_private`.

`(?<!pub\s)(?<!pub\(crate\)\s)fn\s+` is `fn\s+` behind two fixed-width lookbehinds, each
of which sees a single whitespace character before `fn`. When `pub` and `fn` are two or
more whitespace characters apart, `pub\s+fn\s+` counts the function and the lookbehinds
let it through as private as well.
-/

set_option autoImplicit false

namespace SourceAudit.Comprehensive

/-- The private pattern is the `fn\s+` pattern behind its two lookbehind guards. -/
theorem privateFnPattern_matchAt (cursor : Cursor) :
    privateFnPattern.matchAt cursor =
      if endsWith cursor.before [isSpace, (· == 'b'), (· == 'u'), (· == 'p')] ||
          endsWith cursor.before ([isSpace] ++ ("pub(crate)".toList.reverse.map fun c => (· == c))) then none
      else fnKeywordPattern.matchAt cursor := by
  simp only [Re.matchAt, privateFnPattern, fnKeywordPattern, Re.seqs, Re.walk_seq, Re.walk_notAfter]
  cases endsWith cursor.before [isSpace, (· == 'b'), (· == 'u'), (· == 'p')] <;>
    cases endsWith cursor.before ([isSpace] ++ ("pub(crate)".toList.reverse.map fun c => (· == c))) <;> rfl

theorem fnKeywordPattern_matchAt_fn (before trailing name : List Char) (nonempty : trailing ≠ [])
    (spaces : ∀ c ∈ trailing, isSpace c = true) (stop : ∀ c ∈ name.head?, isSpace c = false) :
    fnKeywordPattern.matchAt ⟨before, "fn".toList ++ trailing ++ name⟩ =
      some ⟨⟨("fn".toList ++ trailing).reverse ++ before, name⟩, []⟩ := by
  obtain ⟨first, trailing, rfl⟩ := List.exists_cons_of_ne_nil nonempty
  simp only [Re.matchAt, fnKeywordPattern, Re.seqs, Re.walk_seq, List.append_assoc, Re.walk_lit_append,
    Re.many1, List.cons_append, Re.walk_cls_cons, spaces first (List.mem_cons_self _ _), if_true, Re.walk_many]
  refine Re.manyFrom_run _ _ _ _ trailing name _ (fun c member => spaces c (List.mem_cons_of_mem _ member)) stop ?_
  simp

theorem pubFnPattern_matchAt_pub (gap trailing name : List Char) (wide : gap ≠ []) (nonempty : trailing ≠ [])
    (spaces : ∀ c ∈ gap ++ trailing, isSpace c = true) (stop : ∀ c ∈ name.head?, isSpace c = false) :
    pubFnPattern.matchAt ⟨[], "pub".toList ++ gap ++ "fn".toList ++ trailing ++ name⟩ =
      some ⟨⟨("pub".toList ++ gap ++ "fn".toList ++ trailing).reverse, name⟩, []⟩ := by
  obtain ⟨first, gap, rfl⟩ := List.exists_cons_of_ne_nil wide
  have gapSpaces : ∀ c ∈ first :: gap, isSpace c = true := fun c member => spaces c (List.mem_append_left _ member)
  simp only [Re.matchAt, pubFnPattern, Re.seqs, Re.walk_seq, List.append_assoc, Re.walk_lit_append,
    Re.many1, List.cons_append, Re.walk_cls_cons, gapSpaces first (List.mem_cons_self _ _), if_true, Re.walk_many]
  refine Re.manyFrom_run _ _ _ _ gap _ _ (fun c member => gapSpaces c (List.mem_cons_of_mem _ member))
    (fun c found => by cases found; rfl) ?_
  have rest := fnKeywordPattern_matchAt_fn (gap.reverse ++ first :: "pub".toList.reverse ++ []) trailing name
    nonempty (fun c member => spaces c (List.mem_append_right _ member)) stop
  simp only [Re.matchAt, fnKeywordPattern, Re.seqs, Re.walk_seq, List.append_assoc] at rest
  simpa using rest

theorem fnKeywordPattern_matchAt_gap (gap : List Char) (gapSpaces : ∀ c ∈ gap, isSpace c = true) (k : Nat)
    (inside : k < ("pub".toList ++ gap).length) (before rest : List Char) :
    fnKeywordPattern.matchAt ⟨before, ("pub".toList ++ gap).drop k ++ rest⟩ = none := by
  simp only [Re.matchAt, fnKeywordPattern, Re.seqs, Re.walk_seq]
  refine Re.walk_lit_mismatch _ _ _ _ _ fun starts => ?_
  obtain ⟨x, tail, split⟩ := List.exists_cons_of_ne_nil
    (show ("pub".toList ++ gap).drop k ≠ [] by simpa using inside)
  rw [split, List.cons_append] at starts
  obtain ⟨rfl, -⟩ := List.cons_prefix_cons.mp starts
  rcases List.mem_append.mp (List.mem_of_mem_drop (split ▸ List.mem_cons_self _ tail)) with inPub | inGap
  · exact absurd inPub (by decide)
  · exact absurd (gapSpaces _ inGap) (by decide)

/-! ## `pub`, a wide gap, `fn` -/

section WideGap

variable (gap trailing name : List Char) (wide : 2 ≤ gap.length) (nonempty : trailing ≠ [])
  (spaces : ∀ c ∈ gap ++ trailing, isSpace c = true) (word : ∀ c ∈ name, isWord c = true)

include spaces in
theorem gap_spaces : ∀ c ∈ gap, isSpace c = true := fun c member => spaces c (List.mem_append_left _ member)

include word in
theorem name_not_space : ∀ c ∈ name, isSpace c = false := fun c member => isWord_not_space c (word c member)

include nonempty spaces word

theorem fnKeywordPattern_matchAt_wide :
    fnKeywordPattern.matchAt ⟨("pub".toList ++ gap).reverse ++ [], "fn".toList ++ trailing ++ name⟩ =
      some ⟨⟨("fn".toList ++ trailing).reverse ++ (("pub".toList ++ gap).reverse ++ []), name⟩, []⟩ :=
  fnKeywordPattern_matchAt_fn _ trailing name nonempty (fun c member => spaces c (List.mem_append_right _ member))
    fun c found => name_not_space name word c (List.mem_of_mem_head? found)

theorem fnKeywordPattern_scan_wide :
    fnKeywordPattern.scan 0 [] ("pub".toList ++ gap ++ "fn".toList ++ trailing ++ name) =
      [⟨gap.length + 3, trailing.length + 2 + (gap.length + 3), []⟩] := by
  have single := Re.scan_single fnKeywordPattern [] ("pub".toList ++ gap) ("fn".toList ++ trailing) name []
    (by simp) (fun k inside => fnKeywordPattern_matchAt_gap gap (gap_spaces gap trailing spaces) k inside _ _)
    (by simpa using fnKeywordPattern_matchAt_wide gap trailing name nonempty spaces word)
    fun _ _ => Re.walk_lit_space_none _ _ _ _ _ _ fun c member =>
      name_not_space name word c (List.mem_of_mem_drop member)
  simp only [List.append_assoc] at single ⊢
  rw [single]
  simp

omit nonempty in
/-- `pub(crate)` is nowhere in the text: it has no `(`. -/
theorem pubCrateFnPattern_scan_wide :
    pubCrateFnPattern.scan 0 [] ("pub".toList ++ gap ++ "fn".toList ++ trailing ++ name) = [] := by
  have noParen : '(' ∉ "pub".toList ++ gap ++ "fn".toList ++ trailing ++ name := by
    simp only [List.mem_append, not_or]
    refine ⟨⟨⟨⟨by decide, fun inGap => ?_⟩, by decide⟩, fun inTrailing => ?_⟩, fun inName => ?_⟩
    · exact absurd (gap_spaces gap trailing spaces _ inGap) (by decide)
    · exact absurd (spaces _ (List.mem_append_right _ inTrailing)) (by decide)
    · exact absurd (word _ inName) (by decide)
  refine Re.scan_none _ _ _ fun k _ => ?_
  simp only [Re.matchAt, pubCrateFnPattern, Re.seqs, Re.walk_seq]
  exact Re.walk_lit_mismatch _ _ _ _ _ fun starts =>
    noParen (List.mem_of_mem_drop (starts.subset (by decide : '(' ∈ "pub(crate)".toList)))

include wide

theorem pubFnPattern_scan_wide :
    pubFnPattern.scan 0 [] ("pub".toList ++ gap ++ "fn".toList ++ trailing ++ name) =
      [⟨0, trailing.length + 2 + (gap.length + 3), []⟩] := by
  have found := pubFnPattern_matchAt_pub gap trailing name (List.ne_nil_of_length_pos (by omega)) nonempty spaces
    fun c found => name_not_space name word c (List.mem_of_mem_head? found)
  have single := Re.scan_single pubFnPattern [] [] ("pub".toList ++ gap ++ "fn".toList ++ trailing) name []
    (by simp) (fun k inside => absurd inside (Nat.not_lt_zero k)) (by simpa using found)
    fun _ _ => Re.walk_lit_space_none _ _ _ _ _ _ fun c member =>
      name_not_space name word c (List.mem_of_mem_drop member)
  simp only [List.nil_append] at single
  rw [single]
  simp
  omega

/-- The lookbehinds see the last whitespace character of the gap and the one before it,
which is not `b` nor `)`. -/
theorem privateFnPattern_scan_wide :
    privateFnPattern.scan 0 [] ("pub".toList ++ gap ++ "fn".toList ++ trailing ++ name) =
      [⟨gap.length + 3, trailing.length + 2 + (gap.length + 3), []⟩] := by
  obtain ⟨last, other, more, split⟩ : ∃ last other more, gap.reverse = last :: other :: more := by
    match reversed : gap.reverse, wide with
    | last :: other :: more, _ => exact ⟨last, other, more, rfl⟩
    | [], wide | [_], wide => simp [← List.length_reverse gap, reversed] at wide
  have otherSpace := gap_spaces gap trailing spaces other (List.mem_reverse.mp (by simp [split]))
  have guards : ¬ (endsWith (("pub".toList ++ gap).reverse ++ []) [isSpace, (· == 'b'), (· == 'u'), (· == 'p')] ||
      endsWith (("pub".toList ++ gap).reverse ++ [])
        ([isSpace] ++ ("pub(crate)".toList.reverse.map fun c => (· == c)))) = true := by
    have distinct : other ≠ 'b' ∧ other ≠ ')' := by
      constructor <;> rintro rfl <;> exact absurd otherSpace (by decide)
    simp [split, endsWith, distinct]
  have single := Re.scan_single privateFnPattern [] ("pub".toList ++ gap) ("fn".toList ++ trailing) name []
    (by simp) (fun k inside => ?_) ?_ fun k _ => ?_
  · simp only [List.append_assoc] at single ⊢
    rw [single]
    simp
  · rw [privateFnPattern_matchAt]
    split_ifs
    · rfl
    · exact fnKeywordPattern_matchAt_gap gap (gap_spaces gap trailing spaces) k inside _ _
  · rw [privateFnPattern_matchAt, if_neg guards]
    simpa using fnKeywordPattern_matchAt_wide gap trailing name nonempty spaces word
  · rw [privateFnPattern_matchAt]
    split_ifs
    · rfl
    · exact Re.walk_lit_space_none _ _ _ _ _ _ fun c member =>
        name_not_space name word c (List.mem_of_mem_drop member)

/-- Two or more whitespace characters between `pub` and `fn`: `pub\s+fn\s+` counts the
function and the private pattern counts it too, so the three function counts sum to two
for the one `fn\s+` of the text. -/
theorem analyzePublicVsPrivate_wide_gap (path : String) :
    (analyzePublicVsPrivate [⟨path, some ("pub".toList ++ gap ++ "fn".toList ++ trailing ++ name)⟩]).map
        (fun stats => (stats.pubFn, stats.pubCrateFn, stats.privateFn)) = .ok (1, 0, 1) ∧
      fnKeywordPattern.count ("pub".toList ++ gap ++ "fn".toList ++ trailing ++ name) = 1 := by
  simp only [analyzePublicVsPrivate, forEachRead, readText, apiOfFile, Re.count, Re.finditer,
    pubFnPattern_scan_wide gap trailing name wide nonempty spaces word,
    pubCrateFnPattern_scan_wide gap trailing name spaces word,
    privateFnPattern_scan_wide gap trailing name wide nonempty spaces word,
    fnKeywordPattern_scan_wide gap trailing name nonempty spaces word]
  exact ⟨rfl, rfl⟩

end WideGap

/-- A newline and an indent between `pub` and `fn`. -/
theorem analyzePublicVsPrivate_wide_gap_newline :
    (analyzePublicVsPrivate [⟨"lib.rs", some ("pub".toList ++ "\n    ".toList ++ "fn".toList ++ " ".toList ++
        "run".toList)⟩]).map (fun stats => (stats.pubFn, stats.pubCrateFn, stats.privateFn)) = .ok (1, 0, 1) ∧
      fnKeywordPattern.count ("pub".toList ++ "\n    ".toList ++ "fn".toList ++ " ".toList ++ "run".toList) = 1 :=
  analyzePublicVsPrivate_wide_gap "\n    ".toList " ".toList "run".toList (by decide) (by decide) (by decide)
    (by decide) "lib.rs"

end SourceAudit.Comprehensive
