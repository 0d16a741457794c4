import SourceAudit.Grouping
import SourceAudit.Traits.Usage

/-! The report `main` of `audit_traits.py` writes: the summary counts and the classified
single-method traits by category.

`single_method_traits = by_method_count[1]` reads a `defaultdict(list)`, so `1` is a key of
`by_method_count` in the summary even when no trait has one method. `categorized` starts
with its three keys, which fixes their order in the report.
-/

set_option autoImplicit false

namespace SourceAudit.Traits

/-- `report['summary']`. -/
structure ReportSummary where
  totalTraits : Nat
  singleMethodTraits : Nat
  byMethodCount : List (Nat × Nat)
  categorization : List (Category × Nat)
  deriving DecidableEq, Repr

structure Report where
  summary : ReportSummary
  details : List (Category × List Assessment)
  deriving DecidableEq, Repr

/-- `by_method_count` once `main` has read `by_method_count[1]`. -/
def byMethodCount (allTraits : List TraitInfo) : List (Nat × List TraitInfo) :=
  touch 1 (groupBy (·.methodCount) allTraits)

/-- `categorized`, filled in the order of the single-method traits. -/
def categorize (assessments : List Assessment) : List (Category × List Assessment) :=
  groupInto (·.necessity.category) [(.definitelyRemove, []), (.maybeRemove, []), (.keepAsIs, [])] assessments

/-- `report`, from `all_traits` and the classified single-method traits. -/
def report (allTraits : List TraitInfo) (assessments : List Assessment) : Report :=
  let categorized := categorize assessments
  ⟨⟨allTraits.length, (groupOf 1 (byMethodCount allTraits)).length, sizes (byMethodCount allTraits),
      sizes categorized⟩, categorized⟩

/-- `by_method_count[1]` holds the traits the classification loop of `auditTraits` runs over. -/
theorem groupOf_one_byMethodCount (allTraits : List TraitInfo) :
    groupOf 1 (byMethodCount allTraits) = allTraits.filter (·.methodCount == 1) := by
  rw [byMethodCount, groupOf_touch, groupOf_groupBy]
  rfl

theorem groupOf_byMethodCount (allTraits : List TraitInfo) (count : Nat) :
    groupOf count (byMethodCount allTraits) = allTraits.filter (·.methodCount = count) := by
  rw [byMethodCount, groupOf_touch, groupOf_groupBy]

theorem mem_keys_byMethodCount (allTraits : List TraitInfo) (count : Nat) :
    count ∈ (byMethodCount allTraits).map Prod.fst ↔
      count = 1 ∨ ∃ trait ∈ allTraits, trait.methodCount = count := by
  rw [byMethodCount, touch, keys_updateAt, keys_groupBy, mem_addKey, mem_insertionOrder, List.mem_map]

theorem nodup_keys_byMethodCount (allTraits : List TraitInfo) : ((byMethodCount allTraits).map Prod.fst).Nodup := by
  rw [byMethodCount, touch, keys_updateAt, keys_groupBy]
  exact nodup_addKey 1 (nodup_insertionOrder _)

theorem categorize_eq (assessments : List Assessment) :
    categorize assessments = [Category.definitelyRemove, .maybeRemove, .keepAsIs].map fun category =>
      (category, assessments.filter (·.necessity.category = category)) := by
  have keys : (categorize assessments).map Prod.fst = [.definitelyRemove, .maybeRemove, .keepAsIs] := by
    refine (keys_groupInto _ _ _).trans (foldl_addKey_of_mem _ fun category _ => ?_)
    cases category <;> decide
  have distinct : ((categorize assessments).map Prod.fst).Nodup := keys ▸ by decide
  rw [eq_map_groupOf distinct, keys]
  refine List.map_congr_left fun category _ => ?_
  rw [categorize, groupOf_groupInto]
  cases category <;> rfl

/-- The summary counts and the details: `by_method_count` counts every trait under its number
of methods and always has the key `1`; `single_method_traits` counts the classified traits;
`categorized` lists them under their category, in the report's fixed order of categories. -/
theorem report_summary_categorized (files : List SourceFile) (allTraits : List TraitInfo)
    (assessments : List Assessment) (run : auditTraits files = .ok (allTraits, assessments)) :
    let result := report allTraits assessments
    result.summary.totalTraits = allTraits.length ∧
      result.summary.singleMethodTraits = assessments.length ∧
      (result.summary.byMethodCount.map Prod.fst).Nodup ∧
      (∀ count, count ∈ result.summary.byMethodCount.map Prod.fst ↔
        count = 1 ∨ ∃ trait ∈ allTraits, trait.methodCount = count) ∧
      (∀ entry ∈ result.summary.byMethodCount,
        entry.2 = (allTraits.filter (·.methodCount = entry.1)).length) ∧
      result.details = [Category.definitelyRemove, .maybeRemove, .keepAsIs].map (fun category =>
        (category, assessments.filter (·.necessity.category = category))) ∧
      result.summary.categorization = [Category.definitelyRemove, .maybeRemove, .keepAsIs].map fun category =>
        (category, (assessments.filter (·.necessity.category = category)).length) := by
  have keys : (sizes (byMethodCount allTraits)).map Prod.fst = (byMethodCount allTraits).map Prod.fst := by
    simp [sizes, List.map_map, Function.comp_def]
  refine ⟨rfl, ?_, keys ▸ nodup_keys_byMethodCount allTraits, fun count => keys ▸ mem_keys_byMethodCount _ count,
    ?_, categorize_eq assessments, ?_⟩
  · simp [report, groupOf_one_byMethodCount, (auditTraits_ok run).2]
  · simp only [report, sizes, List.mem_map]
    rintro _ ⟨⟨count, traits⟩, member, rfl⟩
    rw [← groupOf_byMethodCount, groupOf_of_mem (nodup_keys_byMethodCount allTraits) member]
  · simp [report, sizes, categorize_eq, List.map_map, Function.comp_def]

/-- A two-file corpus: a single-method trait that nothing references, and a three-method
trait implemented twice and used once through `dyn`. -/
def scenarioCorpus : List SourceFile :=
  [⟨"a.rs", some "trait Single \x7b\n    fn one(&self);\n\x7d\n".toList⟩,
    ⟨"b.rs", some ("trait Triple \x7b\n    fn a(&self);\n    fn b(&self);\n    fn c(&self);\n\x7d\n" ++
      "impl Triple for X \x7b\x7d\nimpl Triple for Y \x7b\x7d\nfn f(t: &dyn Triple) \x7b\x7d\n").toList⟩]

def singleTrait : TraitInfo :=
  ⟨"Single", "a.rs", 1, 1, ["one"], [], false, "trait Single \x7b", "fn one(&self);"⟩

def tripleTrait : TraitInfo :=
  ⟨"Triple", "b.rs", 1, 3, ["a", "b", "c"], [], false, "trait Triple \x7b",
    "fn a(&self);\n    fn b(&self);\n    fn c(&self);"⟩

def singleAssessment : Assessment :=
  ⟨singleTrait, ⟨0, 0, 0, [], [], []⟩,
    ⟨.definitelyRemove, [], ["Single method trait", "No implementations found"]⟩⟩

theorem auditTraits_scenarioCorpus :
    auditTraits scenarioCorpus = .ok ([singleTrait, tripleTrait], [singleAssessment]) := rfl

/-- On that corpus the summary shows one trait to remove, none in the other categories, and the
three-method trait in no category. -/
theorem report_summary_categorized_scenario :
    auditTraits scenarioCorpus = .ok ([singleTrait, tripleTrait], [singleAssessment]) ∧
      (let result := report [singleTrait, tripleTrait] [singleAssessment]
      result.summary.totalTraits = [singleTrait, tripleTrait].length ∧
        result.summary.singleMethodTraits = [singleAssessment].length ∧
        (result.summary.byMethodCount.map Prod.fst).Nodup ∧
        (∀ count, count ∈ result.summary.byMethodCount.map Prod.fst ↔
          count = 1 ∨ ∃ trait ∈ [singleTrait, tripleTrait], trait.methodCount = count) ∧
        (∀ entry ∈ result.summary.byMethodCount,
          entry.2 = ([singleTrait, tripleTrait].filter (·.methodCount = entry.1)).length) ∧
        result.details = [Category.definitelyRemove, .maybeRemove, .keepAsIs].map (fun category =>
          (category, [singleAssessment].filter (·.necessity.category = category))) ∧
        result.summary.categorization = [Category.definitelyRemove, .maybeRemove, .keepAsIs].map fun category =>
          (category, ([singleAssessment].filter (·.necessity.category = category)).length)) ∧
      (report [singleTrait, tripleTrait] [singleAssessment]).summary.categorization =
        [(.definitelyRemove, 1), (.maybeRemove, 0), (.keepAsIs, 0)] ∧
      ∀ entry ∈ (report [singleTrait, tripleTrait] [singleAssessment]).details, ∀ assessment ∈ entry.2,
        assessment.trait ≠ tripleTrait :=
  ⟨auditTraits_scenarioCorpus,
    report_summary_categorized scenarioCorpus _ _ auditTraits_scenarioCorpus, by decide, by decide⟩

end SourceAudit.Traits
