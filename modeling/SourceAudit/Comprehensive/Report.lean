import SourceAudit.Grouping
import SourceAudit.Comprehensive.Ledgers
import SourceAudit.Robustness

/-! `main` of `comprehensive_audit.py`: the file overview, the seven passes in order, and
the report built from their results.

The passes run one after the other with no handler around them, and the report is built
only after the last one: a single unreadable file ends `main` before any section is
written, the overview included, although the overview reads no file.
-/

set_option autoImplicit false

namespace SourceAudit.Comprehensive

/-- `report['overview']`. -/
structure Overview where
  totalFiles : Nat
  productionFiles : Nat
  testFiles : Nat
  deriving DecidableEq, Repr

/-- `report['todos']`. -/
structure TodoReport where
  total : Nat
  byType : List (String × Nat)
  details : List (String × List TodoEntry)
  deriving DecidableEq, Repr

structure Report where
  overview : Overview
  todos : TodoReport
  cloneUsage : CloneStats
  boxUsage : BoxStats
  stringAllocations : StringStats
  mustUse : MustUseStats
  asyncUsage : AsyncStats
  apiSurface : ApiStats
  deriving DecidableEq, Repr

/-- `main` up to `json.dump(report, ...)`; the printed text is not modelled. -/
def main (files : List SourceFile) : Except ReadError Report := do
  let todos ← analyzeTodos files
  let cloneStats ← analyzeCloneUsage files
  let boxStats ← analyzeBoxUsage files
  let stringStats ← analyzeStringAllocations files
  let mustUseStats ← analyzeMustUse files
  let asyncStats ← analyzeAsyncUsage files
  let apiStats ← analyzePublicVsPrivate files
  pure ⟨⟨files.length, (files.filter fun file => !isTestFileWithBenches file.path).length,
      (files.filter fun file => isTestFileWithBenches file.path).length⟩,
    ⟨sumOf (·.2.length) todos, sizes todos, todos⟩, cloneStats, boxStats, stringStats, mustUseStats,
    asyncStats, apiStats⟩

theorem main_of_readable (files : List SourceFile) (readable : ∀ file ∈ files, file.readable = true) :
    ∃ report, main files = .ok report := by
  simp only [main, analyzeTodos, analyzeCloneUsage, analyzeBoxUsage, analyzeStringAllocations, analyzeMustUse,
    analyzeAsyncUsage, analyzePublicVsPrivate, forEachRead_of_readable _ files _ readable]
  exact ⟨_, rfl⟩

theorem main_error_iff (files : List SourceFile) (error : ReadError) :
    main files = .error error ↔ analyzeTodos files = .error error := by
  cases todos : analyzeTodos files with
  | error first => simp [main, todos, bind, Except.bind]
  | ok found =>
    obtain ⟨report, done⟩ := main_of_readable files (forEachRead_ok_readable _ _ _ _ todos)
    simp [done]

/-- `main` writes its report exactly when every file of the corpus can be read; otherwise it
raises with the first file that cannot, and no section of the report is written. -/
theorem main_report_iff_readable (files : List SourceFile) :
    ((∃ report, main files = .ok report) ↔ ∀ file ∈ files, file.readable = true) ∧
      ∀ error, main files = .error error ↔ FirstUnreadable files error := by
  refine ⟨⟨fun ⟨report, done⟩ => ?_, main_of_readable files⟩,
    fun error => (main_error_iff files error).trans (forEachRead_error ..)⟩
  cases todos : analyzeTodos files with
  | error first => rw [← main_error_iff, done] at todos; cases todos
  | ok found => exact forEachRead_ok_readable _ _ _ _ todos

end SourceAudit.Comprehensive
