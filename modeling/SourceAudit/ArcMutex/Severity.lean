import SourceAudit.Corpus
import SourceAudit.ArcMutex.Extract

/-! `analyze_usage_pattern` and the driver loop of `audit_arc_mutex.py`.

Five independent checks each add one issue; the severity is a threshold on the
number of issues. The read-heavy check compares an `int` with the `float`
`locks_in_context * 0.7`, so it is modelled with IEEE-754 double rounding.
-/

set_option autoImplicit false

namespace SourceAudit.ArcMutex

/-! ## `locks_in_context * 0.7` -/

/-- The number of binary digits of `value`, halving at most `fuel` times; a fuel of
`value` always suffices. -/
def bitLength : Nat → Nat → Nat
  | 0, _ => 0
  | fuel + 1, value => if value = 0 then 0 else bitLength fuel (value / 2) + 1

/-- A natural rounded to a double's 53-bit significand, ties to even, as
`(significand, exponent)` with value `significand * 2 ^ exponent`. -/
def roundToDouble (value : Nat) : Nat × Nat :=
  let exponent := bitLength value value - 53
  let significand := value / 2 ^ exponent
  let remainder := value % 2 ^ exponent
  if 2 ^ exponent < 2 * remainder ∨ (2 * remainder = 2 ^ exponent ∧ significand % 2 = 1) then
    (significand + 1, exponent)
  else (significand, exponent)

/-- The double nearest `0.7` is `3152519739159347 * 2 ^ -52`. -/
def sevenTenthsSignificand : Nat := 3152519739159347

/-- `reads > locks * 0.7`: `locks` becomes a double, the product is rounded to a double,
and an `int`-`float` comparison is exact. -/
def exceedsSevenTenths (reads locks : Nat) : Bool :=
  let lock := roundToDouble locks
  let product := roundToDouble (lock.1 * sevenTenthsSignificand)
  product.1 * 2 ^ (lock.2 + product.2) < reads * 2 ^ 52

/-! ## The checks -/

def simpleTypes : List String := ["bool", "i32", "i64", "u32", "u64", "f32", "f64", "usize", "isize"]

/-- `r'\.lock\(\)\.(?:unwrap\(\)|expect)'`. -/
def lockPattern : Re :=
  .seqs [.lit ".lock().".toList, .alt (.lit "unwrap()".toList) (.lit "expect".toList)]

def readOnlyPatterns : List Re :=
  [.seqs [.lit ".lock()".toList, Re.dotStar, .lit ".get(".toList],
    .seqs [.lit ".lock()".toList, Re.dotStar, .lit ".contains".toList],
    .seqs [.lit ".lock()".toList, Re.dotStar, .lit ".iter(".toList],
    .seqs [.lit "let ".toList, Re.dotStar, .lit " = ".toList, Re.dotStar, .lit ".lock()".toList]]

def threadKeywords : List String := ["spawn", "thread::", "tokio::spawn", "async", "send", "sync"]

inductive Severity where
  | high
  | medium
  | low
  deriving DecidableEq, Repr

structure UsageAnalysis where
  issues : List String
  recommendations : List String
  severity : Severity
  deriving DecidableEq, Repr

def severityOf (issueCount : Nat) : Severity :=
  if issueCount ≥ 3 then .high else if issueCount ≥ 1 then .medium else .low

def isSimpleType (innerType : List Char) : Bool :=
  simpleTypes.any fun simple => simple.toList.isPrefixOf innerType

def hasManyClones (fileContent : List Char) : Bool := 5 < occurrences ".clone()".toList fileContent

/-- `reads_in_context > locks_in_context * 0.7`. -/
def isReadHeavy (context : List Char) : Bool :=
  exceedsSevenTenths ((readOnlyPatterns.map fun pattern => pattern.count context).foldl (· + ·) 0)
    (lockPattern.count context)

def lacksThreading (fileContent : List Char) : Bool :=
  !threadKeywords.any fun keyword => occurs keyword.toList (lower fileContent)

def isCreatedAndCloned (lineContent : List Char) : Bool :=
  occurs ".clone()".toList lineContent && occurs "Arc::new(Mutex::new".toList lineContent

/-- The checks that add an issue, in source order. -/
def usageChecks (usage : ArcMutexUsage) (fileContent : List Char) : List Bool :=
  [isSimpleType usage.innerType.toList, hasManyClones fileContent, isReadHeavy usage.context.toList,
    lacksThreading fileContent, isCreatedAndCloned usage.lineContent.toList]

def analyzeUsagePattern (usage : ArcMutexUsage) (fileContent : List Char) : UsageAnalysis :=
  let innerType := usage.innerType.toList
  let simple := if isSimpleType innerType then
    (["Simple atomic type - consider using atomic primitives"],
      ["Use Atomic" ++ String.mk (capitalize innerType) ++ " instead"]) else ([], [])
  let clones := if hasManyClones fileContent then
    (["File has " ++ toString (occurrences ".clone()".toList fileContent) ++
      " .clone() calls - possible excessive sharing"], []) else ([], [])
  let readHeavy := if isReadHeavy usage.context.toList then
    (["Appears to be read-heavy"], ["Consider Arc<RwLock<T>> for better read concurrency"]) else ([], [])
  let unthreaded := if lacksThreading fileContent then
    (["No obvious threading/async usage in file"],
      ["Might not need Arc - consider Rc<RefCell<T>> or plain ownership"]) else ([], [])
  let channels := if occurs "sender".toList (lower innerType) || occurs "receiver".toList (lower innerType) ||
      occurs "channel".toList (lower fileContent) then
    ([], ["Consider using channels for producer/consumer pattern"]) else ([], [])
  let defensive := if isCreatedAndCloned usage.lineContent.toList then
    (["Created and immediately cloned - might be defensive programming"], []) else ([], [])
  let issues := simple.1 ++ clones.1 ++ readHeavy.1 ++ unthreaded.1 ++ channels.1 ++ defensive.1
  ⟨issues, simple.2 ++ clones.2 ++ readHeavy.2 ++ unthreaded.2 ++ channels.2 ++ defensive.2,
    severityOf issues.length⟩

/-! ## Severity grows with the checks -/

/-- `LOW < MEDIUM < HIGH`. -/
def Severity.rank : Severity → Nat
  | .low => 0
  | .medium => 1
  | .high => 2

/-- Every check that holds in the first list holds at the same place in the second. -/
def checksImply : List Bool → List Bool → Bool
  | [], [] => true
  | weaker :: rest, stronger :: others => (!weaker || stronger) && checksImply rest others
  | _, _ => false

theorem length_ite_issue (condition : Bool) (issue : String) (recommendations : List String) :
    (if condition then ([issue], recommendations) else ([], [])).1.length = if condition then 1 else 0 := by
  cases condition <;> rfl

theorem length_ite_recommendation (condition : Bool) (recommendation : String) :
    (if condition then (([] : List String), [recommendation]) else ([], [])).1.length = 0 := by
  cases condition <;> rfl

theorem issues_length (usage : ArcMutexUsage) (fileContent : List Char) :
    (analyzeUsagePattern usage fileContent).issues.length = (usageChecks usage fileContent).count true := by
  simp only [analyzeUsagePattern, usageChecks, List.length_append, length_ite_issue,
    length_ite_recommendation, List.count_cons, List.count_nil, beq_true]
  omega

theorem severity_eq (usage : ArcMutexUsage) (fileContent : List Char) :
    (analyzeUsagePattern usage fileContent).severity =
      severityOf (analyzeUsagePattern usage fileContent).issues.length := by
  simp only [analyzeUsagePattern]

theorem severityOf_rank_mono {fewer more : Nat} (below : fewer ≤ more) :
    (severityOf fewer).rank ≤ (severityOf more).rank := by
  unfold severityOf; split_ifs <;> simp only [Severity.rank] <;> omega

theorem count_true_mono : ∀ {weaker stronger : List Bool}, checksImply weaker stronger = true →
    weaker.count true ≤ stronger.count true
  | [], [], _ => le_rfl
  | weaker :: rest, stronger :: others, implied => by
    simp only [checksImply, Bool.and_eq_true, Bool.or_eq_true, Bool.not_eq_true'] at implied
    have := count_true_mono implied.2
    cases weaker <;> cases stronger <;> simp_all [List.count_cons]; omega

/-- Turning any check from false to true never lowers the severity of an occurrence. -/
theorem analyzeUsagePattern_severity_mono (usage usage' : ArcMutexUsage) (fileContent fileContent' : List Char)
    (implied : checksImply (usageChecks usage fileContent) (usageChecks usage' fileContent') = true) :
    (analyzeUsagePattern usage fileContent).severity.rank ≤
      (analyzeUsagePattern usage' fileContent').severity.rank := by
  rw [severity_eq, severity_eq, issues_length, issues_length]
  exact severityOf_rank_mono (count_true_mono implied)

/-- An occurrence with no simple type, no clone and no lock in its line. -/
def plainUsage : ArcMutexUsage := ⟨"lib.rs", 1, "Config", "Arc<Mutex<Config>>", "let c = x;", "let c = x;"⟩

theorem analyzeUsagePattern_severity_without_threading :
    checksImply (usageChecks plainUsage "spawn(task)".toList) (usageChecks plainUsage []) = true ∧
      (analyzeUsagePattern plainUsage "spawn(task)".toList).severity.rank ≤
        (analyzeUsagePattern plainUsage []).severity.rank :=
  ⟨by decide, analyzeUsagePattern_severity_mono _ _ _ _ (by decide)⟩

/-! ## The driver loop -/

structure AnalyzedUsage where
  usage : ArcMutexUsage
  analysis : UsageAnalysis
  deriving DecidableEq, Repr

/-- `all_usages`, `test_usages` and `prod_usages`. -/
structure Collected where
  all : List AnalyzedUsage
  test : List AnalyzedUsage
  prod : List AnalyzedUsage
  deriving DecidableEq, Repr

/-- One file of the loop; the second `open` of the same file reads the same text. -/
def collectFile (collected : Collected) (file : SourceFile) (content : List Char) : Collected :=
  (extractArcMutexUsage file.path content).foldl (fun collected usage =>
    let analyzed : AnalyzedUsage := ⟨usage, analyzeUsagePattern usage content⟩
    if isTestFile file.path then ⟨collected.all ++ [analyzed], collected.test ++ [analyzed], collected.prod⟩
    else ⟨collected.all ++ [analyzed], collected.test, collected.prod ++ [analyzed]⟩) collected

def collectUsages (files : List SourceFile) : Except ReadError Collected :=
  forEachRead collectFile files ⟨[], [], []⟩

theorem extractArcMutexUsage_file (filePath : String) (content : List Char) :
    ∀ usage ∈ extractArcMutexUsage filePath content, usage.file = filePath := by
  simp only [extractArcMutexUsage, lineUsages, List.mem_flatMap, List.mem_map]
  rintro _ ⟨_, -, _, -, rfl⟩
  rfl

/-- One file appends its analysed occurrences to `all_usages` and to the one of
`test_usages` and `prod_usages` its path selects. -/
theorem collectFile_eq (collected : Collected) (file : SourceFile) (content : List Char) :
    collectFile collected file content =
      let analyzed := (extractArcMutexUsage file.path content).map fun usage =>
        (⟨usage, analyzeUsagePattern usage content⟩ : AnalyzedUsage)
      if isTestFile file.path then ⟨collected.all ++ analyzed, collected.test ++ analyzed, collected.prod⟩
      else ⟨collected.all ++ analyzed, collected.test, collected.prod ++ analyzed⟩ := by
  unfold collectFile
  generalize extractArcMutexUsage file.path content = usages
  induction usages generalizing collected with
  | nil => split_ifs <;> simp
  | cons usage rest ih =>
    rw [List.foldl_cons, ih]
    split_ifs <;> simp

/-- What the loop of `main` keeps: the test and production lists split `all_usages` by the
test naming of each occurrence's file, and each entry is an occurrence of a file of the
corpus with the analysis of that file's text. -/
structure Partitioned (files : List SourceFile) (collected : Collected) : Prop where
  test_eq : collected.test = collected.all.filter fun analyzed => isTestFile analyzed.usage.file
  prod_eq : collected.prod = collected.all.filter fun analyzed => !isTestFile analyzed.usage.file
  sound : ∀ analyzed ∈ collected.all, ∃ file ∈ files, ∃ text, file.text = some text ∧
    analyzed.usage ∈ extractArcMutexUsage file.path text ∧ analyzed.analysis = analyzeUsagePattern analyzed.usage text

theorem collectFile_partitioned (files : List SourceFile) (collected : Collected) (file : SourceFile)
    (member : file ∈ files) (text : List Char) (read : file.text = some text) (kept : Partitioned files collected) :
    Partitioned files (collectFile collected file text) := by
  have ofFile := extractArcMutexUsage_file file.path text
  have sound : ∀ analyzed ∈ collected.all ++ (extractArcMutexUsage file.path text).map fun usage =>
      (⟨usage, analyzeUsagePattern usage text⟩ : AnalyzedUsage),
        ∃ file ∈ files, ∃ text, file.text = some text ∧
        analyzed.usage ∈ extractArcMutexUsage file.path text ∧
        analyzed.analysis = analyzeUsagePattern analyzed.usage text := by
    simp only [List.mem_append, List.mem_map]
    rintro analyzed (old | ⟨usage, found, rfl⟩)
    · exact kept.sound analyzed old
    · exact ⟨file, member, text, read, found, rfl⟩
  have sameFile : ∀ keep : Bool → Bool,
      (extractArcMutexUsage file.path text).filter (fun usage => keep (isTestFile usage.file)) =
        (extractArcMutexUsage file.path text).filter fun _ => keep (isTestFile file.path) :=
    fun keep => List.filter_congr fun usage found => by rw [ofFile usage found]
  rw [collectFile_eq]
  split_ifs with test <;> refine ⟨?_, ?_, sound⟩ <;>
    simp [List.filter_append, ← kept.test_eq, ← kept.prod_eq, List.filter_map, Function.comp_def,
      sameFile (fun test => test), sameFile (fun test => !test), test]

/-- Over any corpus it completes on, the loop of `main` splits `all_usages` into `test_usages`
and `prod_usages` by the test naming of each usage's file, in order, and every recorded usage
is an occurrence in a file of the corpus, analysed against that file's own text. -/
theorem collectUsages_partitioned (files : List SourceFile) (collected : Collected)
    (run : collectUsages files = .ok collected) : Partitioned files collected :=
  forEachRead_invariant collectFile (Partitioned files) files (collectFile_partitioned files) _ _
    ⟨rfl, rfl, by simp⟩ run

/-- One production file with one occurrence and no threading. -/
def lockSample : List SourceFile := [⟨"lib.rs", some "let m: Arc<Mutex<u8>> = x;".toList⟩]

def lockAnalyzed : AnalyzedUsage :=
  ⟨⟨"lib.rs", 1, "u8", "Arc<Mutex<u8>>", "let m: Arc<Mutex<u8>> = x;", "let m: Arc<Mutex<u8>> = x;"⟩,
    ⟨["No obvious threading/async usage in file"],
      ["Might not need Arc - consider Rc<RefCell<T>> or plain ownership"], .medium⟩⟩

theorem collectUsages_lockSample : collectUsages lockSample = .ok ⟨[lockAnalyzed], [], [lockAnalyzed]⟩ := rfl

theorem collectUsages_partitioned_production :
    collectUsages lockSample = .ok ⟨[lockAnalyzed], [], [lockAnalyzed]⟩ ∧
      Partitioned lockSample ⟨[lockAnalyzed], [], [lockAnalyzed]⟩ :=
  ⟨collectUsages_lockSample, collectUsages_partitioned lockSample _ collectUsages_lockSample⟩

end SourceAudit.ArcMutex
