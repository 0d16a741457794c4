import SourceAudit.Traits.Usage
import SourceAudit.ArcMutex.Severity
import SourceAudit.Comprehensive

/-! Unreadable files across all passes of the three scripts.

Only `check_trait_usage` guards its reads. Every other pass, the extraction loops of
`audit_traits.main` and `audit_arc_mutex.main` and the seven `analyze_*` passes,
raises out of its loop at the first file that cannot be read.
-/

set_option autoImplicit false

namespace SourceAudit

open Traits ArcMutex Comprehensive

/-- `error` is the exception of the first unreadable file of the corpus. -/
def FirstUnreadable (files : List SourceFile) (error : ReadError) : Prop :=
  ∃ before file after, files = before ++ file :: after ∧
    (∀ other ∈ before, other.readable = true) ∧ file.text = none ∧ error = ⟨file.path⟩

theorem bind_pure_error {α β : Type} (run : Except ReadError α) (finish : α → β) (error : ReadError) :
    (do let result ← run; pure (finish result) : Except ReadError β) = .error error ↔
      run = .error error := by
  cases run <;> simp [bind, Except.bind, pure, Except.pure]

/-- Every unguarded pass raises exactly at the first unreadable file, whatever the rest
of the corpus holds. -/
theorem unguarded_passes_raise (files : List SourceFile) (error : ReadError) :
    (collectTraits files = .error error ↔ FirstUnreadable files error) ∧
      (collectUsages files = .error error ↔ FirstUnreadable files error) ∧
      (analyzeTodos files = .error error ↔ FirstUnreadable files error) ∧
      (analyzeCloneUsage files = .error error ↔ FirstUnreadable files error) ∧
      (analyzeBoxUsage files = .error error ↔ FirstUnreadable files error) ∧
      (analyzeStringAllocations files = .error error ↔ FirstUnreadable files error) ∧
      (analyzeMustUse files = .error error ↔ FirstUnreadable files error) ∧
      (analyzeAsyncUsage files = .error error ↔ FirstUnreadable files error) ∧
      (analyzePublicVsPrivate files = .error error ↔ FirstUnreadable files error) := by
  refine ⟨forEachRead_error .., forEachRead_error .., forEachRead_error .., ?_, forEachRead_error ..,
    forEachRead_error .., forEachRead_error .., forEachRead_error .., forEachRead_error ..⟩
  exact (bind_pure_error _ _ _).trans (forEachRead_error ..)

/-- The guarded pass is the pass over the readable files. -/
theorem checkTraitUsage_filter (traitName : List Char) (files : List SourceFile) :
    checkTraitUsage traitName files = checkTraitUsage traitName (files.filter SourceFile.readable) :=
  forEachReadable_filter ..

/-- One undecodable file: every pass but `check_trait_usage` raises, while the same passes
over the corpus without it complete. -/
theorem unreadable_file_aborts_passes :
    collectTraits [⟨"bad.rs", none⟩] = .error ⟨"bad.rs"⟩ ∧ collectTraits [] = .ok [] ∧
      collectUsages [⟨"bad.rs", none⟩] = .error ⟨"bad.rs"⟩ ∧ collectUsages [] = .ok ⟨[], [], []⟩ ∧
      analyzePublicVsPrivate [⟨"bad.rs", none⟩] = .error ⟨"bad.rs"⟩ ∧
      analyzePublicVsPrivate [] = .ok ⟨0, 0, 0, 0, 0, 0⟩ ∧
      analyzeBoxUsage [⟨"bad.rs", none⟩] = .error ⟨"bad.rs"⟩ ∧ analyzeBoxUsage [] = .ok ⟨0, 0, []⟩ :=
  ⟨rfl, rfl, rfl, rfl, rfl, rfl, rfl, rfl⟩

end SourceAudit
