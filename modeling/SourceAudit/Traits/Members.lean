import SourceAudit.Traits.Extract

/-! Line comments inside trait bodies.

`extract_traits` erases `//.*$` from each line before looking for `fn`, so comments
never change the member list; `assoc_types` is a `findall` over the raw body, so a
comment that says `type x` adds an associated type.
-/

set_option autoImplicit false

namespace SourceAudit.Traits

/-- The text of a line before its first `//`. -/
def dropComment : List Char → List Char
  | [] => []
  | '/' :: '/' :: _ => []
  | c :: rest => c :: dropComment rest

/-- A body with every line cut before its first `//`. -/
def stripComments (body : List Char) : List Char := joinLines ((splitLines body).map dropComment)

theorem dropComment_prefix_self (line : List Char) : dropComment line <+: line := by
  induction line using dropComment.induct with
  | case1 => exact List.prefix_refl _
  | case2 => exact List.nil_prefix
  | case3 c rest plain ih => rw [dropComment.eq_3 c rest plain]; exact (List.prefix_cons_inj c).mpr ih

theorem dropComment_dropComment (line : List Char) : dropComment (dropComment line) = dropComment line := by
  induction line using dropComment.induct with
  | case1 => rfl
  | case2 => rfl
  | case3 c rest plain ih =>
    have stillPlain : ∀ tail, c = '/' → dropComment rest = '/' :: tail → False := by
      intro tail slash cut
      obtain ⟨more, split⟩ := dropComment_prefix_self rest
      exact plain (tail ++ more) slash (by rw [← split, cut]; rfl)
    rw [dropComment.eq_3 c rest plain, dropComment.eq_3 c _ stillPlain, ih]

/-! ## `re.sub(r'//.*$', '', line)` cuts at the first `//` -/

/-- On a line, `//.*$` matches exactly where `//` starts, and runs to the end. -/
theorem commentPattern_matchAt (before after : List Char) (clean : '\n' ∉ after) :
    commentPattern.matchAt ⟨before, after⟩ =
      if "//".toList <+: after then some ⟨⟨after.reverse ++ before, []⟩, []⟩ else none := by
  split_ifs with comment
  · obtain ⟨rest, rfl⟩ := comment
    simp only [Re.matchAt, commentPattern, Re.seqs, Re.walk_seq, Re.walk_empty, Re.walk_lit_append,
      List.reverse_append, List.append_assoc]
    have dotted : ∀ c ∈ rest, Re.dot c = true := fun c member => by
      simp only [Re.dot, bne_iff_ne, ne_eq]
      rintro rfl
      exact clean (List.mem_append_right _ member)
    have run := Re.manyFrom_run Re.dot [] (fun next => Re.stringEnd.walk next fun next => some next)
      ("//".toList.reverse ++ before) rest [] ⟨⟨rest.reverse ++ ("//".toList.reverse ++ before), []⟩, []⟩
      dotted (by simp) rfl
    rw [List.append_nil] at run
    exact run
  · exact Re.walk_lit_mismatch _ _ _ _ _ comment

theorem commentPattern_scan (before after : List Char) (clean : '\n' ∉ after) :
    commentPattern.scan 0 before after =
      if dropComment after = after then []
      else [⟨before.length + (dropComment after).length, before.length + after.length, []⟩] := by
  induction after using dropComment.induct generalizing before with
  | case1 => simp [Re.scan, commentPattern_matchAt, dropComment]
  | case2 tail =>
    rw [Re.scan, if_pos rfl, commentPattern_matchAt _ _ clean, if_pos (by simp)]
    simp only [Cursor.pos, List.length_append, List.length_reverse, List.length_cons]
    rw [show tail.length + 1 + 1 + before.length - before.length - 1 = ('/' :: tail).length by simp,
      Re.scan_skip_length]
    simp [Re.scan, commentPattern_matchAt, dropComment]
    omega
  | case3 c rest plain ih =>
    have notComment : ¬ "//".toList <+: c :: rest := by
      rintro ⟨more, split⟩
      exact plain more (by simp at split; exact split.1.symm) (by simp at split; exact split.2.symm)
    rw [Re.scan, if_pos rfl, commentPattern_matchAt _ _ clean, if_neg notComment,
      ih _ fun member => clean (List.mem_cons_of_mem _ member), dropComment.eq_3 c rest plain]
    simp only [List.cons.injEq, true_and, List.length_cons]
    split_ifs <;> simp only [List.cons.injEq, and_true, Found.mk.injEq]
    omega

theorem commentPattern_erase (line : List Char) (clean : '\n' ∉ line) :
    commentPattern.erase line = dropComment line := by
  rw [Re.erase, Re.finditer, commentPattern_scan _ _ clean]
  split_ifs with unchanged
  · simp [keepOutside, unchanged]
  · simp only [keepOutside, slice, List.length_nil, Nat.zero_add, List.drop_zero, Nat.sub_zero,
      List.drop_length, List.append_nil]
    exact (List.prefix_iff_eq_take.mp (dropComment_prefix_self line)).symm

theorem not_mem_splitLines (text : List Char) : ∀ line ∈ splitLines text, '\n' ∉ line := by
  simp only [splitLines, List.splitOn]
  induction text with
  | nil => simp
  | cons c rest ih =>
    rw [List.splitOnP_cons]
    split_ifs with newline
    · simpa using ih
    · obtain ⟨first, others, split⟩ := List.exists_cons_of_ne_nil (List.splitOnP_ne_nil (· == '\n') rest)
      rw [split] at ih ⊢
      simp only [List.modifyHead_cons, List.mem_cons, forall_eq_or_imp] at ih ⊢
      refine ⟨?_, ih.2⟩
      simp only [List.mem_cons, not_or]
      exact ⟨fun same => newline (by rw [← same]; rfl), ih.1⟩

/-- Comments never change the member list: the members of a body are those of the body
with every line cut before its first `//`. -/
theorem bodyMethods_stripComments (body : List Char) :
    bodyMethods (stripComments body) = bodyMethods body := by
  have clean := not_mem_splitLines body
  have cut : splitLines (stripComments body) = (splitLines body).map dropComment := by
    refine splitLines_joinLines _ (fun line member => ?_) (by simpa using List.splitOnP_ne_nil _ body)
    obtain ⟨original, origin, rfl⟩ := List.mem_map.mp member
    exact fun inCut => clean original origin ((dropComment_prefix_self original).subset inCut)
  simp only [bodyMethods, cut, List.flatMap_map]
  refine List.flatMap_congr fun line member => ?_
  have cutClean : '\n' ∉ dropComment line :=
    fun inCut => clean line member ((dropComment_prefix_self line).subset inCut)
  rw [commentPattern_erase _ cutClean, dropComment_dropComment, commentPattern_erase _ (clean line member)]

/-- A doc comment mentioning a type. -/
def docCommentTrait : List Char := "trait A \x7b\n  /// the type of x\n  fn f();\n\x7d".toList

/-- `type\s+(\w+)` runs over the raw body, so `/// the type of x` declares `of`. -/
theorem assocTypes_read_comments :
    (extractTraits "lib.rs" docCommentTrait).map TraitInfo.assocTypes = [["of"]] ∧
      bodyAssocTypes (stripComments (traitBody docCommentTrait 9)) = [] := by
  decide

end SourceAudit.Traits
