import SourceAudit.Grouping
import SourceAudit.ArcMutex.Severity

/-! The report `main` of `audit_arc_mutex.py` builds after its loop: the summary counts,
the production occurrences, and the files ranked by their number of occurrences.

The printing loop reads `by_severity[severity]` for `HIGH`, `MEDIUM` and `LOW` before the
summary is built, and `by_severity` is a `defaultdict(list)`: all three severities are keys
of the summary, those with no occurrence with a count of zero.
-/

set_option autoImplicit false

namespace SourceAudit.ArcMutex

/-- `report['summary']`. -/
structure ReportSummary where
  total : Nat
  test : Nat
  production : Nat
  bySeverity : List (Severity × Nat)
  uniqueTypes : Nat
  deriving DecidableEq, Repr

/-- One entry of `report['production_usages']`. -/
structure ProductionUsage where
  file : String
  line : Nat
  type : String
  severity : Severity
  issues : List String
  recommendations : List String
  deriving DecidableEq, Repr

/-- One entry of `report['top_files']`. -/
structure TopFile where
  file : String
  count : Nat
  isTest : Bool
  deriving DecidableEq, Repr

structure Report where
  summary : ReportSummary
  productionUsages : List ProductionUsage
  topFiles : List TopFile
  deriving DecidableEq, Repr

/-- `by_severity` once the printing loop has read each of the three severities. -/
def bySeverity (prodUsages : List AnalyzedUsage) : List (Severity × List AnalyzedUsage) :=
  [Severity.high, .medium, .low].foldl (fun groups severity => touch severity groups)
    (groupBy (·.analysis.severity) prodUsages)

def productionUsage (analyzed : AnalyzedUsage) : ProductionUsage :=
  ⟨analyzed.usage.file, analyzed.usage.line, analyzed.usage.innerType, analyzed.analysis.severity,
    analyzed.analysis.issues, analyzed.analysis.recommendations⟩

def topFile (entry : String × List AnalyzedUsage) : TopFile := ⟨entry.1, entry.2.length, isTestFile entry.1⟩

/-- `report`, from `all_usages`, `test_usages` and `prod_usages`; `sorted_files` is the
ranking of `by_file`. -/
def report (collected : Collected) : Report :=
  let sortedFiles := bySizeDescending (groupBy (·.usage.file) collected.all)
  ⟨⟨collected.all.length, collected.test.length, collected.prod.length, sizes (bySeverity collected.prod),
      (groupBy (·.usage.innerType) collected.prod).length⟩,
    collected.prod.map productionUsage, (sortedFiles.take 20).map topFile⟩

theorem bySeverity_eq (prodUsages : List AnalyzedUsage) :
    bySeverity prodUsages = touch .low (touch .medium (touch .high (groupBy (·.analysis.severity) prodUsages))) :=
  rfl

theorem groupOf_bySeverity (prodUsages : List AnalyzedUsage) (severity : Severity) :
    groupOf severity (bySeverity prodUsages) = prodUsages.filter (·.analysis.severity = severity) := by
  simp only [bySeverity_eq, groupOf_touch, groupOf_groupBy]

theorem keys_bySeverity (prodUsages : List AnalyzedUsage) :
    ((bySeverity prodUsages).map Prod.fst).Perm [.high, .medium, .low] := by
  rw [bySeverity_eq, touch, touch, touch, keys_updateAt, keys_updateAt, keys_updateAt, keys_groupBy]
  have distinct := nodup_addKey .low (nodup_addKey .medium (nodup_addKey .high (nodup_insertionOrder
    ((prodUsages.map (·.analysis.severity))))))
  refine (List.perm_ext_iff_of_nodup distinct (by decide)).mpr fun severity => ?_
  cases severity <;> simp [mem_addKey]

/-- The summary counts: `all_usages` splits into test and production occurrences, every
severity is a key of `by_severity` and counts the production occurrences it labels, and
`unique_types` is the number of distinct production inner types. -/
theorem report_summary (files : List SourceFile) (collected : Collected)
    (run : collectUsages files = .ok collected) :
    let summary := (report collected).summary
    summary.total = summary.test + summary.production ∧
      (summary.bySeverity.map Prod.fst).Perm [.high, .medium, .low] ∧
      (∀ entry ∈ summary.bySeverity,
        entry.2 = (collected.prod.filter (·.analysis.severity = entry.1)).length) ∧
      summary.uniqueTypes = (collected.prod.map (·.usage.innerType)).dedup.length := by
  have split := collectUsages_partitioned files collected run
  have keys := keys_bySeverity collected.prod
  refine ⟨?_, by simpa [report, sizes, List.map_map] using keys, ?_, ?_⟩
  · simp only [report, split.test_eq, split.prod_eq]
    exact List.length_eq_length_filter_add _
  · simp only [report, sizes, List.mem_map]
    rintro _ ⟨⟨severity, usages⟩, member, rfl⟩
    rw [← groupOf_bySeverity, groupOf_of_mem (keys.nodup_iff.mpr (by decide)) member]
  · simp only [report]
    rw [← List.length_map _ Prod.fst, keys_groupBy]
    exact (insertionOrder_perm_dedup _).length_eq

/-- `top_files` is the head of a ranking of every file with an occurrence: by number of
occurrences, descending, and among files with as many by their first occurrence in
`all_usages`; each entry counts its file's occurrences and carries its test tag. -/
theorem report_topFiles (collected : Collected) :
    ∃ ranking : List TopFile, (report collected).topFiles = ranking.take 20 ∧
      (ranking.map (·.file)).Perm (collected.all.map (·.usage.file)).dedup ∧
      (∀ entry ∈ ranking, entry.count = (collected.all.filter (·.usage.file = entry.file)).length ∧
        entry.isTest = isTestFile entry.file) ∧
      ranking.Pairwise fun first second => second.count < first.count ∨
        (first.count = second.count ∧
          (collected.all.map (·.usage.file)).indexOf first.file <
            (collected.all.map (·.usage.file)).indexOf second.file) := by
  refine ⟨(bySizeDescending (groupBy (fun analyzed : AnalyzedUsage => analyzed.usage.file) collected.all)).map
    topFile, List.map_take _ _ _, ?_, ?_, List.pairwise_map.mpr (bySizeDescending_groupBy _ collected.all)⟩
  · simpa [List.map_map, Function.comp_def, topFile] using keys_bySizeDescending_groupBy (·.usage.file) collected.all
  · simp only [List.mem_map]
    rintro _ ⟨⟨file, usages⟩, ranked, rfl⟩
    exact ⟨congrArg List.length (eq_filter_of_mem_bySizeDescending _ _ ranked), rfl⟩

/-- One production occurrence of medium severity. -/
theorem report_summary_lockSample :
    collectUsages lockSample = .ok ⟨[lockAnalyzed], [], [lockAnalyzed]⟩ ∧
      let summary := (report ⟨[lockAnalyzed], [], [lockAnalyzed]⟩).summary
      summary.total = summary.test + summary.production ∧
        (summary.bySeverity.map Prod.fst).Perm [.high, .medium, .low] ∧
        (∀ entry ∈ summary.bySeverity,
          entry.2 = ([lockAnalyzed].filter (·.analysis.severity = entry.1)).length) ∧
        summary.uniqueTypes = ([lockAnalyzed].map (·.usage.innerType)).dedup.length :=
  ⟨collectUsages_lockSample, report_summary lockSample _ collectUsages_lockSample⟩

end SourceAudit.ArcMutex
