import SourceAudit.Chain
import SourceAudit.Comprehensive

/-! What the loops of the `analyze_*` passes keep.

Each pass adds every file's counts to its totals and lists some files with their counts.
The totals are then the sums over the listed files; for `analyze_must_use`, whose list
only holds files with no `#[must_use]`, that holds while no file has one. The clone
hot spots are the top of a descending ranking, cut at twenty and at more than ten.
-/

set_option autoImplicit false

namespace SourceAudit.Comprehensive

def sumOf {α : Type} (measure : α → Nat) : List α → Nat
  | [] => 0
  | entry :: rest => measure entry + sumOf measure rest

@[simp] theorem sumOf_nil {α : Type} (measure : α → Nat) : sumOf measure [] = 0 := rfl

@[simp] theorem sumOf_append {α : Type} (measure : α → Nat) (first second : List α) :
    sumOf measure (first ++ second) = sumOf measure first + sumOf measure second := by
  induction first with
  | nil => simp
  | cons entry rest ih => rw [List.cons_append, sumOf, sumOf, ih, Nat.add_assoc]

@[simp] theorem sumOf_singleton {α : Type} (measure : α → Nat) (entry : α) :
    sumOf measure [entry] = measure entry := rfl

/-! ## The ledger of each pass -/

structure CloneLedger (stats : CloneStats) : Prop where
  total_eq : stats.total = sumOf Prod.snd stats.byFile
  positive : ∀ entry ∈ stats.byFile, 0 < entry.2

structure BoxLedger (stats : BoxStats) : Prop where
  boxDyn_eq : stats.boxDyn = sumOf BoxFile.boxDyn stats.filesWithBox
  boxDynError_eq : stats.boxDynError = sumOf BoxFile.boxDynError stats.filesWithBox
  positive : ∀ entry ∈ stats.filesWithBox, 0 < entry.boxDyn ∨ 0 < entry.boxDynError

structure AllocationLedger (stats : StringStats) : Prop where
  total_eq : stats.total = sumOf Prod.snd stats.byPattern
  hot : ∀ spot ∈ stats.hotSpots, 20 < spot.count

structure MustUseLedger (stats : MustUseStats) : Prop where
  covered : stats.mustUseCount = 0 → stats.resultFunctions = sumOf Prod.snd stats.missingMustUse
  positive : ∀ entry ∈ stats.missingMustUse, 0 < entry.2

structure AsyncLedger (stats : AsyncStats) : Prop where
  asyncFunctions_eq : stats.asyncFunctions = sumOf (·.2.1) stats.files
  awaitCalls_eq : stats.awaitCalls = sumOf (·.2.2) stats.files
  positive : ∀ entry ∈ stats.files, 0 < entry.2.1 ∨ 0 < entry.2.2

/-! ## One file keeps each ledger -/

theorem clonesOfFile_ledger (stats : CloneStats) (file : SourceFile) (content : List Char)
    (ledger : CloneLedger stats) : CloneLedger (clonesOfFile stats file content) := by
  unfold clonesOfFile
  dsimp only
  split_ifs with found
  · refine ⟨by simp [ledger.total_eq], fun entry member => ?_⟩
    rcases List.mem_append.mp member with old | single
    · exact ledger.positive entry old
    · rw [List.mem_singleton.mp single]; exact found
  · exact ledger

theorem boxesOfFile_ledger (stats : BoxStats) (file : SourceFile) (content : List Char)
    (ledger : BoxLedger stats) : BoxLedger (boxesOfFile stats file content) := by
  unfold boxesOfFile
  dsimp only
  split_ifs with found
  · refine ⟨by simp [ledger.boxDyn_eq], by simp [ledger.boxDynError_eq], fun entry member => ?_⟩
    rcases List.mem_append.mp member with old | single
    · exact ledger.positive entry old
    · rw [List.mem_singleton.mp single]; simpa using found
  · exact ledger

theorem sumOf_bump (key : String) (amount : Nat) (counts : List (String × Nat)) :
    sumOf Prod.snd (bump key amount counts) = sumOf Prod.snd counts + amount := by
  induction counts with
  | nil => simp [bump, sumOf]
  | cons entry rest ih =>
    obtain ⟨other, count⟩ := entry
    unfold bump
    split_ifs <;> simp only [sumOf, ih] <;> omega

/-- The loop over the four patterns adds to `total` what it adds to `by_pattern`, and leaves
the hot spots alone. -/
theorem countAllocation_foldl (content : List Char) (patterns : List (String × Re)) (stats : StringStats)
    (fileTotal : Nat) (ledger : AllocationLedger stats) :
    AllocationLedger (patterns.foldl (countAllocation content) (stats, fileTotal)).1 := by
  induction patterns generalizing stats fileTotal with
  | nil => exact ledger
  | cons entry rest ih => exact ih _ _ ⟨by simp [countAllocation, sumOf_bump, ledger.total_eq], ledger.hot⟩

theorem allocationsOfFile_ledger (stats : StringStats) (file : SourceFile) (content : List Char)
    (ledger : AllocationLedger stats) : AllocationLedger (allocationsOfFile stats file content) := by
  have counted := countAllocation_foldl content allocationPatterns stats 0 ledger
  unfold allocationsOfFile
  dsimp only
  split_ifs with hot
  · refine ⟨counted.total_eq, fun spot member => ?_⟩
    rcases List.mem_append.mp member with old | single
    · exact counted.hot spot old
    · rw [List.mem_singleton.mp single]; exact hot
  · exact counted

theorem mustUsesOfFile_ledger (stats : MustUseStats) (file : SourceFile) (content : List Char)
    (ledger : MustUseLedger stats) : MustUseLedger (mustUsesOfFile stats file content) := by
  refine ⟨fun none => ?_, fun entry member => ?_⟩
  · simp only [mustUsesOfFile] at none ⊢
    have noUse : mustUsePattern.count content = 0 := by omega
    rw [ledger.covered (by omega)]
    by_cases found : 0 < resultFnPattern.count content <;> simp [found, noUse]
    omega
  · simp only [mustUsesOfFile] at member
    split_ifs at member with missing
    · rcases List.mem_append.mp member with old | single
      · exact ledger.positive entry old
      · rw [List.mem_singleton.mp single]; exact (by simpa using missing : _ ∧ _).1
    · exact ledger.positive entry member

theorem asyncOfFile_ledger (stats : AsyncStats) (file : SourceFile) (content : List Char)
    (ledger : AsyncLedger stats) : AsyncLedger (asyncOfFile stats file content) := by
  unfold asyncOfFile
  dsimp only
  split_ifs with found
  · refine ⟨by simp [ledger.asyncFunctions_eq], by simp [ledger.awaitCalls_eq], fun entry member => ?_⟩
    rcases List.mem_append.mp member with old | single
    · exact ledger.positive entry old
    · rw [List.mem_singleton.mp single]; simpa using found
  · simp only [Bool.or_eq_true, decide_eq_true_eq, not_or, Nat.not_lt, Nat.le_zero] at found
    exact ⟨by simp [found.1, ledger.asyncFunctions_eq], by simp [found.2, ledger.awaitCalls_eq], ledger.positive⟩

/-- Over a corpus of readable files every pass completes, and its totals are the sums of
the counts of the files it lists, each listed with a match. -/
theorem analyze_passes_ledgers (files : List SourceFile) (readable : ∀ file ∈ files, file.readable = true) :
    (∃ stats, analyzeCloneUsage files = .ok stats ∧ CloneLedger stats) ∧
      (∃ stats, analyzeBoxUsage files = .ok stats ∧ BoxLedger stats) ∧
      (∃ stats, analyzeStringAllocations files = .ok stats ∧ AllocationLedger stats) ∧
      (∃ stats, analyzeMustUse files = .ok stats ∧ MustUseLedger stats) ∧
      (∃ stats, analyzeAsyncUsage files = .ok stats ∧ AsyncLedger stats) := by
  refine ⟨?_, forEachRead_readable_invariant _ BoxLedger boxesOfFile_ledger files _ readable ⟨rfl, rfl, by simp⟩,
    forEachRead_readable_invariant _ AllocationLedger allocationsOfFile_ledger files _ readable ⟨rfl, by simp⟩,
    forEachRead_readable_invariant _ MustUseLedger mustUsesOfFile_ledger files _ readable ⟨fun _ => rfl, by simp⟩,
    forEachRead_readable_invariant _ AsyncLedger asyncOfFile_ledger files _ readable ⟨rfl, rfl, by simp⟩⟩
  obtain ⟨counted, run, ledger⟩ :=
    forEachRead_readable_invariant _ CloneLedger clonesOfFile_ledger files ⟨0, [], []⟩ readable ⟨rfl, by simp⟩
  rw [analyzeCloneUsage, run]
  exact ⟨_, rfl, ledger.total_eq, ledger.positive⟩

/-- One file with a `.clone()`. -/
theorem analyze_passes_ledgers_one_file :
    (∃ stats, analyzeCloneUsage [⟨"lib.rs", some "let y = x.clone();".toList⟩] = .ok stats ∧ CloneLedger stats) ∧
      (∃ stats, analyzeBoxUsage [⟨"lib.rs", some "let y = x.clone();".toList⟩] = .ok stats ∧ BoxLedger stats) ∧
      (∃ stats, analyzeStringAllocations [⟨"lib.rs", some "let y = x.clone();".toList⟩] = .ok stats ∧
        AllocationLedger stats) ∧
      (∃ stats, analyzeMustUse [⟨"lib.rs", some "let y = x.clone();".toList⟩] = .ok stats ∧ MustUseLedger stats) ∧
      (∃ stats, analyzeAsyncUsage [⟨"lib.rs", some "let y = x.clone();".toList⟩] = .ok stats ∧
        AsyncLedger stats) :=
  analyze_passes_ledgers [⟨"lib.rs", some "let y = x.clone();".toList⟩] (by decide)

/-! ## `Result<...Box<dyn...Error` counts lines -/

/-- The lines of a text on which `Result<`, `Box<dyn` and `Error` occur in that order. -/
def boxErrorLines (text : List Char) : List (List Char) :=
  (splitLines text).filter (inOrder ["Result<".toList, "Box<dyn".toList, "Error".toList])

theorem boxDynErrorPattern_count (text : List Char) : boxDynErrorPattern.count text = (boxErrorLines text).length :=
  chain_count "Result<".toList ["Box<dyn".toList, "Error".toList] (by decide) (List.cons_ne_nil _ _) text

/-- Every file `analyze_box_usage` lists is a file of the corpus, and its `box_dyn_error` is the
number of its lines on which `Result<`, `Box<dyn` and `Error` occur in that order: a line with
several such results counts once. -/
theorem analyzeBoxUsage_error_lines (files : List SourceFile) (stats : BoxStats)
    (run : analyzeBoxUsage files = .ok stats) :
    ∀ entry ∈ stats.filesWithBox, ∃ file ∈ files, ∃ content, file.text = some content ∧
      entry.file = file.path ∧ entry.boxDynError = (boxErrorLines content).length := by
  apply forEachRead_invariant boxesOfFile _ files _ ⟨0, 0, []⟩ stats (fun _ member => absurd member (List.not_mem_nil _))
    run
  intro state file member content read listed
  unfold boxesOfFile
  dsimp only
  split_ifs
  · intro entry added
    rcases List.mem_append.mp added with old | new
    · exact listed entry old
    · rw [List.mem_singleton.mp new]
      exact ⟨file, member, content, read, rfl, boxDynErrorPattern_count content⟩
  · exact listed

/-- Two results with a boxed error, on one line. -/
def boxedErrors : List SourceFile :=
  [⟨"lib.rs", some "Result<A, Box<dyn Error>>; Result<B, Box<dyn Error>>".toList⟩]

theorem analyzeBoxUsage_error_lines_boxedErrors :
    analyzeBoxUsage boxedErrors = .ok ⟨2, 1, [⟨"lib.rs", 2, 1, false⟩]⟩ ∧
      ∀ entry ∈ [(⟨"lib.rs", 2, 1, false⟩ : BoxFile)], ∃ file ∈ boxedErrors, ∃ content, file.text = some content ∧
        entry.file = file.path ∧ entry.boxDynError = (boxErrorLines content).length :=
  have run : analyzeBoxUsage boxedErrors = .ok ⟨2, 1, [⟨"lib.rs", 2, 1, false⟩]⟩ := rfl
  ⟨run, analyzeBoxUsage_error_lines boxedErrors _ run⟩

/-! ## Clone hot spots -/

theorem byCountDescending_sorted (counts : List (String × Nat)) :
    (byCountDescending counts).Pairwise fun first second => second.2 ≤ first.2 := by
  have sorted : (byCountDescending counts).Pairwise fun first second => decide (second.2 ≤ first.2) :=
    List.sorted_mergeSort (fun _ _ _ => by simp only [decide_eq_true_eq]; omega)
      (fun _ _ => by simp only [Bool.or_eq_true, decide_eq_true_eq]; omega) counts
  simpa only [decide_eq_true_eq] using sorted

/-- Cutting a descending ranking at twenty and then at more than ten loses no file above ten
unless twenty are kept. -/
theorem take_filter_complete (ranked : List (String × Nat))
    (sorted : ranked.Pairwise fun first second => second.2 ≤ first.2)
    (short : ((ranked.take 20).filter (·.2 > 10)).length < 20) (entry : String × Nat) (member : entry ∈ ranked)
    (many : 10 < entry.2) : entry ∈ (ranked.take 20).filter (·.2 > 10) := by
  rw [← List.take_append_drop 20 ranked] at member sorted
  rcases List.mem_append.mp member with early | late
  · exact List.mem_filter.mpr ⟨early, by simpa using many⟩
  · have above : ∀ other ∈ ranked.take 20, 10 < other.2 := fun other first =>
      Nat.lt_of_lt_of_le many ((List.pairwise_append.mp sorted).2.2 other first entry late)
    have full : (ranked.take 20).length = 20 := by
      have longer := List.length_pos_of_mem late
      simp only [List.length_drop, List.length_take] at longer ⊢
      omega
    rw [List.filter_eq_self.mpr fun other first => by simpa using above other first, full] at short
    exact absurd short (Nat.lt_irrefl 20)

theorem analyzeCloneUsage_ok (files : List SourceFile) (stats : CloneStats)
    (run : analyzeCloneUsage files = .ok stats) :
    ∃ counted, forEachRead clonesOfFile files ⟨0, [], []⟩ = .ok counted ∧
      stats = ⟨counted.total, counted.byFile, (((byCountDescending counted.byFile).take 20).filter (·.2 > 10)).map
        fun entry => ⟨entry.1, entry.2, isTestFileWithBenches entry.1⟩⟩ := by
  unfold analyzeCloneUsage at run
  cases loop : forEachRead clonesOfFile files ⟨0, [], []⟩ with
  | error error => simp [loop, bind, Except.bind] at run
  | ok counted =>
    simp only [loop, bind, Except.bind, pure, Except.pure, Except.ok.injEq] at run
    exact ⟨counted, rfl, run.symm⟩

/-- The hot spots of `analyze_clone_usage`: at most twenty files, each with more than ten
calls and listed in `by_file` with its count, ranked by count, largest first; and when fewer
than twenty are listed, every file with more than ten calls is. -/
theorem analyzeCloneUsage_hotSpots (files : List SourceFile) (stats : CloneStats)
    (run : analyzeCloneUsage files = .ok stats) :
    stats.hotSpots.length ≤ 20 ∧
      (stats.hotSpots.map HotSpot.count).Pairwise (· ≥ ·) ∧
      (∀ spot ∈ stats.hotSpots, 10 < spot.count ∧ (spot.file, spot.count) ∈ stats.byFile ∧
        spot.isTest = isTestFileWithBenches spot.file) ∧
      (stats.hotSpots.length < 20 → ∀ entry ∈ stats.byFile, 10 < entry.2 →
        entry ∈ stats.hotSpots.map fun spot => (spot.file, spot.count)) := by
  obtain ⟨counted, -, rfl⟩ := analyzeCloneUsage_ok files stats run
  have sorted := byCountDescending_sorted counted.byFile
  simp only [List.map_map, Function.comp_def, List.length_map]
  refine ⟨(List.length_filter_le _ _).trans (List.length_take_le _ _), ?_, ?_, ?_⟩
  · exact List.pairwise_map.mpr (sorted.take.filter _)
  · simp only [List.mem_map, List.mem_filter, forall_exists_index, and_imp]
    rintro _ entry early many rfl
    exact ⟨by simpa using many, List.mem_mergeSort.mp (List.mem_of_mem_take early), rfl⟩
  · intro short entry member many
    simp only [Prod.mk.eta, List.map_id']
    exact take_filter_complete _ sorted short entry (List.mem_mergeSort.mpr member) many

/-- A file with eleven calls. -/
def cloneHeavy : List Char := (List.replicate 11 "x.clone();".toList).flatten

theorem analyzeCloneUsage_hotSpots_eleven :
    analyzeCloneUsage [⟨"lib.rs", some cloneHeavy⟩] = .ok ⟨11, [("lib.rs", 11)], [⟨"lib.rs", 11, false⟩]⟩ ∧
      [(⟨"lib.rs", 11, false⟩ : HotSpot)].length ≤ 20 ∧
      ([(⟨"lib.rs", 11, false⟩ : HotSpot)].map HotSpot.count).Pairwise (· ≥ ·) ∧
      (∀ spot ∈ [(⟨"lib.rs", 11, false⟩ : HotSpot)], 10 < spot.count ∧
        (spot.file, spot.count) ∈ [("lib.rs", 11)] ∧ spot.isTest = isTestFileWithBenches spot.file) ∧
      ([(⟨"lib.rs", 11, false⟩ : HotSpot)].length < 20 → ∀ entry ∈ [("lib.rs", 11)], 10 < entry.2 →
        entry ∈ [(⟨"lib.rs", 11, false⟩ : HotSpot)].map fun spot => (spot.file, spot.count)) := by
  have run : analyzeCloneUsage [⟨"lib.rs", some cloneHeavy⟩] =
      .ok ⟨11, [("lib.rs", 11)], [⟨"lib.rs", 11, false⟩]⟩ := by
    have calls : occurrences ".clone()".toList cloneHeavy = 11 := by decide
    have production : isTestFileWithBenches "lib.rs" = false := by decide
    simp only [analyzeCloneUsage, forEachRead, readText, clonesOfFile, calls]
    simp [byCountDescending, production, bind, Except.bind, pure, Except.pure]
  exact ⟨run, analyzeCloneUsage_hotSpots [⟨"lib.rs", some cloneHeavy⟩]
    ⟨11, [("lib.rs", 11)], [⟨"lib.rs", 11, false⟩]⟩ run⟩

/-! ## The TODO index -/

/-- The entries `analyze_todos` records under `keyword` for one file: its lines, numbered
from one, whose upper-cased text contains the keyword. -/
def keywordEntries (keyword : String) (file : SourceFile) (content : List Char) : List TodoEntry :=
  ((readLines content).enumFrom 1).filterMap fun numbered =>
    if occurs keyword.toList (upper numbered.2) then some (todoEntry file numbered) else none

theorem recordTodo_foldl (file : SourceFile) (lines : List (Nat × List Char))
    (todos : List (String × List TodoEntry)) :
    lines.foldl (recordTodo file) todos = todos.map fun (keyword, entries) =>
      (keyword, entries ++ lines.filterMap fun numbered =>
        if occurs keyword.toList (upper numbered.2) then some (todoEntry file numbered) else none) := by
  induction lines generalizing todos with
  | nil => simp
  | cons numbered rest ih =>
    rw [List.foldl_cons, ih, recordTodo, List.map_map]
    refine List.map_congr_left fun entry _ => ?_
    obtain ⟨keyword, entries⟩ := entry
    simp only [Function.comp_apply, List.filterMap_cons]
    split_ifs with found <;> simp [found]

theorem forEachRead_todosOfFile (files : List SourceFile) (todos result : List (String × List TodoEntry))
    (run : forEachRead todosOfFile files todos = .ok result) :
    result = todos.map fun (keyword, entries) =>
      (keyword, entries ++ files.flatMap fun file => keywordEntries keyword file (file.text.getD [])) := by
  induction files generalizing todos with
  | nil => cases run; simp
  | cons file rest ih =>
    cases read : file.text with
    | none => simp [forEachRead, readText, read] at run
    | some text =>
      rw [forEachRead, readText_of_text read] at run
      rw [ih _ run, todosOfFile, recordTodo_foldl, List.map_map]
      refine List.map_congr_left fun entry _ => ?_
      obtain ⟨keyword, entries⟩ := entry
      simp [keywordEntries, read]

/-- The TODO index: under each of the four keywords, in order, every line of every file whose
upper-cased text contains the keyword, by file in corpus order and by line within a file, so
a line with two keywords is listed under both. -/
theorem analyzeTodos_index (files : List SourceFile) (todos : List (String × List TodoEntry))
    (run : analyzeTodos files = .ok todos) :
    todos = todoKeywords.map fun keyword =>
      (keyword, files.flatMap fun file => keywordEntries keyword file (file.text.getD [])) := by
  rw [forEachRead_todosOfFile files _ todos run, List.map_map]
  rfl

/-- A lower-case `todo` after a line comment. -/
def todoSample : List SourceFile := [⟨"lib.rs", some "let x = 1; // todo: later\n".toList⟩]

theorem analyzeTodos_index_lower_case :
    analyzeTodos todoSample = .ok [("TODO", [⟨"lib.rs", 1, "todo: later", false⟩]), ("FIXME", []), ("XXX", []),
      ("HACK", [])] ∧
      [("TODO", [⟨"lib.rs", 1, "todo: later", false⟩]), ("FIXME", []), ("XXX", []), ("HACK", [])] =
        todoKeywords.map fun keyword =>
          (keyword, todoSample.flatMap fun file => keywordEntries keyword file (file.text.getD [])) :=
  have run : analyzeTodos todoSample = .ok [("TODO", [⟨"lib.rs", 1, "todo: later", false⟩]), ("FIXME", []),
      ("XXX", []), ("HACK", [])] := rfl
  ⟨run, analyzeTodos_index todoSample _ run⟩

end SourceAudit.Comprehensive
