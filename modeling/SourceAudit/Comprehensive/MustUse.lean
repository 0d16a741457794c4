import SourceAudit.Regex.Semantics
import SourceAudit.Comprehensive

/-! What `result_fns` of `analyze_must_use` counts.

`[^{]*` is greedy and crosses lines, so a match of `fn\s+\w+[^{]*->\s*Result` runs to the last
`-> Result` before the next `{`, and no other match starts before that brace. A file is credited
with at most one more Result function than it has opening braces, so the bodiless declarations
of a trait count once together.
-/

set_option autoImplicit false

namespace SourceAudit.Comprehensive

open Re

/-- `->\s*Result`: what `resultFnPattern` matches after `[^{]*`. -/
def resultArrow : Re := .seqs [.lit "->".toList, .many isSpace, .lit "Result".toList]

theorem resultArrow_walk (before spaces rest : List Char) (groups : List (Nat × Nat × Nat))
    (blank : ∀ c ∈ spaces, isSpace c = true) :
    (resultArrow.walk ⟨⟨before, "->".toList ++ spaces ++ "Result".toList ++ rest⟩, groups⟩ some).isSome := by
  have ends : (Re.seq (lit "Result".toList) .empty).walk
      ⟨⟨spaces.reverse ++ ("->".toList.reverse ++ before), "Result".toList ++ rest⟩, groups⟩ some =
        some ⟨⟨"Result".toList.reverse ++ (spaces.reverse ++ ("->".toList.reverse ++ before)), rest⟩, groups⟩ := by
    rw [walk_seq, walk_lit_append]
    rfl
  rw [resultArrow, seqs, walk_seq, List.append_assoc, List.append_assoc, walk_lit_append, seqs, walk_seq, walk_many,
    manyFrom_run _ _ _ _ _ _ _ blank (fun c member => by
      obtain rfl : 'R' = c := Option.some.inj (Option.mem_def.mp member)
      rfl) ends]
  rfl

theorem brace_not_mem_fnName {gap name : List Char} (gapBlank : ∀ c ∈ gap, isSpace c = true)
    (nameWord : ∀ c ∈ name, isWord c = true) : '{' ∉ "fn".toList ++ gap ++ name := by
  simp only [List.mem_append, not_or]
  exact ⟨⟨by decide, fun inGap => absurd (gapBlank _ inGap) (by decide)⟩,
    fun inName => absurd (nameWord _ inName) (by decide)⟩

/-- A match of `resultFnPattern` reads a head that holds no `{`, then `->`, blanks and `Result`. -/
theorem resultFnPattern_inv {start stop : Thread} (matched : Matches resultFnPattern start stop) :
    ∃ head spaces rest, start.cursor.after = head ++ "->".toList ++ spaces ++ "Result".toList ++ rest ∧
      head ≠ [] ∧ '{' ∉ head ∧ ∀ c ∈ spaces, isSpace c = true := by
  obtain ⟨_, fn, matched⟩ := matched.seq_inv
  obtain ⟨_, gap, matched⟩ := matched.seq_inv
  obtain ⟨_, name, matched⟩ := matched.seq_inv
  obtain ⟨_, args, matched⟩ := matched.seq_inv
  obtain ⟨_, arrow, matched⟩ := matched.seq_inv
  obtain ⟨_, spaces, matched⟩ := matched.seq_inv
  obtain ⟨_, result, ends⟩ := matched.seq_inv
  cases ends
  obtain ⟨gap, -, gapBlank, advancedGap⟩ := gap.many1_inv
  obtain ⟨name, -, nameWord, advancedName⟩ := name.many1_inv
  obtain ⟨args, argsOpen, advancedArgs⟩ := args.many_inv
  obtain ⟨spaces, blank, advancedSpaces⟩ := spaces.many_inv
  have whole := (((((fn.lit_inv.trans advancedGap).trans advancedName).trans advancedArgs).trans
    arrow.lit_inv).trans advancedSpaces).trans result.lit_inv
  refine ⟨"fn".toList ++ gap ++ name ++ args, spaces, _, by simpa only [List.append_assoc] using whole.after,
    by simp, ?_, blank⟩
  rw [List.mem_append, not_or]
  exact ⟨brace_not_mem_fnName gapBlank nameWord, fun inArgs => by simpa using argsOpen _ inArgs⟩

theorem resultFnPattern_matchAt_nil (before : List Char) : resultFnPattern.matchAt ⟨before, []⟩ = none := by
  rcases found : resultFnPattern.matchAt ⟨before, []⟩ with _ | thread
  · rfl
  · obtain ⟨head, _, _, split, nonempty, -⟩ := resultFnPattern_inv (matchAt_sound _ _ _ found)
    simp [List.append_assoc] at split

theorem resultFnPattern_walk_inv {before text : List Char} {thread : Thread}
    (found : resultFnPattern.matchAt ⟨before, text⟩ = some thread) :
    ∃ head rest groups, text = head ++ rest ∧ '{' ∉ head ∧
      manyFrom (· != '{') groups (fun next => resultArrow.walk next some) (head.reverse ++ before) rest =
        some thread := by
  obtain ⟨_, fn, found⟩ := walk_sound (lit "fn".toList) _ _ thread found
  obtain ⟨_, gapMatch, found⟩ := walk_sound (many1 isSpace) _ _ thread found
  obtain ⟨⟨⟨passed, rest⟩, groups⟩, nameMatch, found⟩ := walk_sound (many1 isWord) _ _ thread found
  obtain ⟨gap, -, gapBlank, advancedGap⟩ := gapMatch.many1_inv
  obtain ⟨name, -, nameWord, advancedName⟩ := nameMatch.many1_inv
  obtain ⟨split, rfl⟩ := (fn.lit_inv.trans advancedGap).trans advancedName
  exact ⟨"fn".toList ++ gap ++ name, rest, groups, split, brace_not_mem_fnName gapBlank nameWord, found⟩

/-- Once a match is found, no match starts between its end and the next `{`: the greedy
`[^{]*` would have run on to that match's `-> Result`. -/
theorem resultFnPattern_no_later {before text : List Char} {thread : Thread}
    (found : resultFnPattern.matchAt ⟨before, text⟩ = some thread) (i : Nat)
    (past : thread.cursor.pos ≤ before.length + i) (unbraced : '{' ∉ text.take i) (other : List Char) :
    resultFnPattern.matchAt ⟨other, text.drop i⟩ = none := by
  rcases later : resultFnPattern.matchAt ⟨other, text.drop i⟩ with _ | second
  · rfl
  exfalso
  obtain ⟨head', spaces, rest', split', nonempty', noBrace', blank⟩ := resultFnPattern_inv (matchAt_sound _ _ _ later)
  obtain ⟨head, rest, groups, split, noBrace, walked⟩ := resultFnPattern_walk_inv found
  have started := walk_pos_le (.seq (.many (· != '{')) resultArrow) ⟨⟨head.reverse ++ before, rest⟩, groups⟩ _ walked
  simp only [Cursor.pos, List.length_append, List.length_reverse] at started past
  have inside : i < text.length := by
    by_contra outside
    rw [List.drop_eq_nil_of_le (by omega)] at split'
    simp [List.append_assoc] at split'
  have cut : rest = ((text.take i).drop head.length ++ head') ++
      ("->".toList ++ spaces ++ "Result".toList ++ rest') := by
    have restEq : rest = text.drop head.length := by rw [split, List.drop_left]
    have second : text.drop i = head' ++ ("->".toList ++ (spaces ++ ("Result".toList ++ rest'))) := by
      simpa only [List.append_assoc] using split'
    simp only [List.append_assoc]
    rw [restEq, ← second, ← List.drop_append_of_le_length (by simp; omega), List.take_append_drop]
  have runOpen : ∀ c ∈ (text.take i).drop head.length ++ head', (c != '{') = true := by
    intro c member
    rcases List.mem_append.mp member with inTake | inHead
    · exact bne_iff_ne.mpr fun brace => unbraced (brace ▸ List.mem_of_mem_drop inTake)
    · exact bne_iff_ne.mpr fun brace => noBrace' (brace ▸ inHead)
  rw [cut] at walked
  obtain ⟨more, left, -, ends⟩ := manyFrom_longest _ _ _ _ _ _ thread runOpen walked (resultArrow_walk _ _ _ _ blank)
  have ended := walk_pos_le resultArrow _ _ ends
  have longer : 0 < head'.length := List.length_pos.mpr nonempty'
  simp only [Cursor.pos, List.length_append, List.length_reverse, List.length_drop, List.length_take] at ended
  omega

theorem resultFnPattern_matchAt_brace (before after : List Char) :
    resultFnPattern.matchAt ⟨before, '{' :: after⟩ = none := by
  rcases found : resultFnPattern.matchAt ⟨before, '{' :: after⟩ with _ | thread
  · rfl
  · obtain ⟨_ | ⟨c, head⟩, _, _, split, nonempty, noBrace, -⟩ := resultFnPattern_inv (matchAt_sound _ _ _ found)
    · exact absurd rfl nonempty
    · obtain rfl : '{' = c := (List.cons.inj split).1
      exact (noBrace (List.mem_cons_self _ _)).elim

/-! ## At most one match before each `{` -/

/-- No match of `resultFnPattern` starts at or after `skip` and before the first `{`. -/
def QuietFrom (skip : Nat) (before text : List Char) : Prop :=
  ∀ i, skip ≤ i → '{' ∉ text.take i →
    resultFnPattern.matchAt ⟨(text.take i).reverse ++ before, text.drop i⟩ = none

theorem quietFrom_cons {skip : Nat} {before after : List Char} {c : Char} (notBrace : c ≠ '{')
    (quiet : QuietFrom (skip + 1) before (c :: after)) : QuietFrom skip (c :: before) after :=
  fun i le unbraced => by simpa using quiet (i + 1) (by omega) (by simp [Ne.symm notBrace, unbraced])

/-- The scan finds at most one match more than the text has `{`, and none more when no match
starts in the stretch before its first `{`. -/
theorem resultFnPattern_scan_le (text : List Char) : ∀ (skip : Nat) (before : List Char),
    (resultFnPattern.scan skip before text).length ≤ text.count '{' + 1 ∧
      (QuietFrom skip before text → (resultFnPattern.scan skip before text).length ≤ text.count '{') := by
  induction text with
  | nil =>
    intro skip before
    have empty : resultFnPattern.scan skip before [] = [] := by
      simp only [scan, resultFnPattern_matchAt_nil, ite_self]
    simp [empty]
  | cons c after ih =>
    intro skip before
    by_cases brace : c = '{'
    · subst brace
      have next : (resultFnPattern.scan skip before ('{' :: after)).length ≤ after.count '{' + 1 := by
        cases skip with
        | zero => simpa [scan, resultFnPattern_matchAt_brace] using (ih 0 _).1
        | succ skip => simpa [scan] using (ih skip _).1
      simp only [List.count_cons_self]
      exact ⟨by omega, fun _ => next⟩
    · rw [List.count_cons_of_ne (Ne.symm brace)]
      cases skip with
      | succ skip =>
        simp only [scan, Nat.add_one_ne_zero, if_false, Nat.add_sub_cancel]
        exact ⟨(ih skip _).1, fun quiet => (ih skip _).2 (quietFrom_cons brace quiet)⟩
      | zero =>
        cases found : resultFnPattern.matchAt ⟨before, c :: after⟩ with
        | none =>
          simp only [scan, found, if_true]
          exact ⟨(ih 0 _).1, fun quiet => (ih 0 _).2 (quietFrom_cons brace fun i le => quiet i (by omega))⟩
        | some thread =>
          rw [scan_found _ _ _ _ _ found, List.length_cons]
          refine ⟨Nat.succ_le_succ ((ih _ _).2 fun i le unbraced => ?_), fun quiet => ?_⟩
          · simpa using resultFnPattern_no_later found (i + 1) (by omega) (by simp [Ne.symm brace, unbraced])
              ((after.take i).reverse ++ c :: before)
          · have none := quiet 0 le_rfl (by simp)
            simp only [List.take_zero, List.drop_zero, List.reverse_nil, List.nil_append] at none
            simp [none] at found

theorem resultFnPattern_count_le (content : List Char) : resultFnPattern.count content ≤ content.count '{' + 1 :=
  (resultFnPattern_scan_le content 0 []).1

/-- Every entry of `missing_must_use` names a file of the corpus and credits it with at most
one more Result function than the file has opening braces. -/
theorem analyzeMustUse_missing_braces (files : List SourceFile) (stats : MustUseStats)
    (run : analyzeMustUse files = .ok stats) :
    ∀ entry ∈ stats.missingMustUse, ∃ file ∈ files, ∃ content, file.text = some content ∧
      entry.1 = file.path ∧ entry.2 ≤ content.count '{' + 1 := by
  apply forEachRead_invariant mustUsesOfFile _ files _ ⟨0, 0, []⟩ stats
    (fun _ member => absurd member (List.not_mem_nil _)) run
  intro state file member content read listed entry added
  simp only [mustUsesOfFile] at added
  split_ifs at added
  · rcases List.mem_append.mp added with old | new
    · exact listed entry old
    · rw [List.mem_singleton.mp new]
      exact ⟨file, member, content, read, rfl, resultFnPattern_count_le content⟩
  · exact listed entry added

/-- A trait with two Result declarations and no body. -/
def storeCorpus : List SourceFile :=
  [⟨"lib.rs", some "trait S \x7b fn a() -> Result; fn b() -> Result; \x7d".toList⟩]

theorem analyzeMustUse_missing_braces_store :
    analyzeMustUse storeCorpus = .ok ⟨1, 0, [("lib.rs", 1)]⟩ ∧
      ∀ entry ∈ [("lib.rs", 1)], ∃ file ∈ storeCorpus, ∃ content, file.text = some content ∧
        entry.1 = file.path ∧ entry.2 ≤ content.count '{' + 1 :=
  have run : analyzeMustUse storeCorpus = .ok ⟨1, 0, [("lib.rs", 1)]⟩ := rfl
  ⟨run, analyzeMustUse_missing_braces storeCorpus _ run⟩

end SourceAudit.Comprehensive
