import SourceAudit.Corpus

/-! The `analyze_*` passes of `comprehensive_audit.py`: each reads every file of the
corpus, unguarded, and accumulates counts of textual patterns.

`sorted(..., reverse=True)` is stable, which `List.mergeSort` on a descending
comparison also is. A `defaultdict` is an association list in insertion order.
-/

set_option autoImplicit false

namespace SourceAudit.Comprehensive

/-- `d[key] += amount` on a `defaultdict(int)`. -/
def bump (key : String) (amount : Nat) : List (String × Nat) → List (String × Nat)
  | [] => [(key, amount)]
  | (other, count) :: rest =>
    if other = key then (other, count + amount) :: rest else (other, count) :: bump key amount rest

/-- `sorted(counts.items(), key=lambda x: x[1], reverse=True)`. -/
def byCountDescending (counts : List (String × Nat)) : List (String × Nat) :=
  counts.mergeSort fun first second => second.2 ≤ first.2

/-- `f.readlines()`: the lines with their newline, the last one only when non-empty. -/
def readLines (text : List Char) : List (List Char) :=
  let pieces := splitLines text
  pieces.dropLast.map (· ++ ['\n']) ++ (pieces.getLast?.filter (· ≠ [])).toList

/-! ## TODO comments -/

def todoKeywords : List String := ["TODO", "FIXME", "XXX", "HACK"]

structure TodoEntry where
  file : String
  line : Nat
  comment : String
  isTest : Bool
  deriving DecidableEq, Repr

/-- `comment.split('//', 1)[1].strip()` when `'//' in comment`. -/
def todoComment (line : List Char) : List Char :=
  let comment := strip line
  match (Re.lit "//".toList).search comment with
  | some found => strip (comment.drop found.stop)
  | none => comment

/-- The entry for the `numbered.1`-th line of `file`, text `numbered.2`. -/
def todoEntry (file : SourceFile) (numbered : Nat × List Char) : TodoEntry :=
  ⟨file.path, numbered.1, String.mk (todoComment numbered.2), isTestFileWithBenches file.path⟩

/-- The body of `for keyword in todos.keys():` for one numbered line. -/
def recordTodo (file : SourceFile) (todos : List (String × List TodoEntry)) (numbered : Nat × List Char) :
    List (String × List TodoEntry) :=
  todos.map fun (keyword, entries) =>
    if occurs keyword.toList (upper numbered.2) then (keyword, entries ++ [todoEntry file numbered])
    else (keyword, entries)

def todosOfFile (todos : List (String × List TodoEntry)) (file : SourceFile) (content : List Char) :
    List (String × List TodoEntry) :=
  ((readLines content).enumFrom 1).foldl (recordTodo file) todos

def analyzeTodos (files : List SourceFile) : Except ReadError (List (String × List TodoEntry)) :=
  forEachRead todosOfFile files (todoKeywords.map fun keyword => (keyword, []))

/-! ## `.clone()` calls -/

structure HotSpot where
  file : String
  count : Nat
  isTest : Bool
  deriving DecidableEq, Repr

structure CloneStats where
  total : Nat
  byFile : List (String × Nat)
  hotSpots : List HotSpot
  deriving DecidableEq, Repr

/-- One file of the clone loop. The source assigns `by_file[str(rs_file)] = count`; the model
appends, which is the same dict because `find_rust_files` yields each path once, so no key is
assigned twice. -/
def clonesOfFile (stats : CloneStats) (file : SourceFile) (content : List Char) : CloneStats :=
  let count := occurrences ".clone()".toList content
  if count > 0 then { stats with total := stats.total + count, byFile := stats.byFile ++ [(file.path, count)] }
  else stats

def analyzeCloneUsage (files : List SourceFile) : Except ReadError CloneStats := do
  let stats ← forEachRead clonesOfFile files ⟨0, [], []⟩
  let hot := ((byCountDescending stats.byFile).take 20).filter (·.2 > 10)
  pure { stats with hotSpots := hot.map fun (file, count) => ⟨file, count, isTestFileWithBenches file⟩ }

/-! ## `Box<dyn ...>` -/

def boxDynPattern : Re := .lit "Box<dyn".toList

/-- `r'Result<.*Box<dyn.*Error'`. -/
def boxDynErrorPattern : Re :=
  .seqs [.lit "Result<".toList, Re.dotStar, .lit "Box<dyn".toList, Re.dotStar, .lit "Error".toList]

structure BoxFile where
  file : String
  boxDyn : Nat
  boxDynError : Nat
  isTest : Bool
  deriving DecidableEq, Repr

structure BoxStats where
  boxDyn : Nat
  boxDynError : Nat
  filesWithBox : List BoxFile
  deriving DecidableEq, Repr

def boxesOfFile (stats : BoxStats) (file : SourceFile) (content : List Char) : BoxStats :=
  let boxDynCount := boxDynPattern.count content
  let boxDynErrorCount := boxDynErrorPattern.count content
  if boxDynCount > 0 || boxDynErrorCount > 0 then
    ⟨stats.boxDyn + boxDynCount, stats.boxDynError + boxDynErrorCount,
      stats.filesWithBox ++ [⟨file.path, boxDynCount, boxDynErrorCount, isTestFileWithBenches file.path⟩]⟩
  else stats

def analyzeBoxUsage (files : List SourceFile) : Except ReadError BoxStats :=
  forEachRead boxesOfFile files ⟨0, 0, []⟩

/-! ## String allocations -/

/-- The four patterns, each under its source text as the `by_pattern` key. -/
def allocationPatterns : List (String × Re) :=
  [("\\.to_string\\(\\)", .lit ".to_string()".toList), ("\\.to_owned\\(\\)", .lit ".to_owned()".toList),
    ("String::from\\(", .lit "String::from(".toList), ("format!\\(", .lit "format!(".toList)]

structure StringStats where
  total : Nat
  byPattern : List (String × Nat)
  hotSpots : List HotSpot
  deriving DecidableEq, Repr

/-- The body of `for pattern in patterns:` for one file, with the file's running total. -/
def countAllocation (content : List Char) (counted : StringStats × Nat) (entry : String × Re) :
    StringStats × Nat :=
  let count := entry.2.count content
  ({ counted.1 with total := counted.1.total + count, byPattern := bump entry.1 count counted.1.byPattern },
    counted.2 + count)

def allocationsOfFile (stats : StringStats) (file : SourceFile) (content : List Char) : StringStats :=
  let counted := allocationPatterns.foldl (countAllocation content) (stats, 0)
  if counted.2 > 20 then
    { counted.1 with hotSpots := counted.1.hotSpots ++ [⟨file.path, counted.2, isTestFileWithBenches file.path⟩] }
  else counted.1

def analyzeStringAllocations (files : List SourceFile) : Except ReadError StringStats :=
  forEachRead allocationsOfFile files ⟨0, [], []⟩

/-! ## `#[must_use]` coverage -/

/-- `r'fn\s+\w+[^{]*->\s*Result'`. -/
def resultFnPattern : Re :=
  .seqs [.lit "fn".toList, .many1 isSpace, .many1 isWord, .many (· != '{'), .lit "->".toList,
    .many isSpace, .lit "Result".toList]

def mustUsePattern : Re := .lit "#[must_use]".toList

structure MustUseStats where
  resultFunctions : Nat
  mustUseCount : Nat
  missingMustUse : List (String × Nat)
  deriving DecidableEq, Repr

def mustUsesOfFile (stats : MustUseStats) (file : SourceFile) (content : List Char) : MustUseStats :=
  let resultFns := resultFnPattern.count content
  let mustUses := mustUsePattern.count content
  { resultFunctions := stats.resultFunctions + resultFns
    mustUseCount := stats.mustUseCount + mustUses
    missingMustUse := if resultFns > 0 && mustUses == 0 then stats.missingMustUse ++ [(file.path, resultFns)]
      else stats.missingMustUse }

def analyzeMustUse (files : List SourceFile) : Except ReadError MustUseStats :=
  forEachRead mustUsesOfFile files ⟨0, 0, []⟩

/-! ## async / await -/

/-- `r'async\s+fn'`. -/
def asyncFnPattern : Re := .seqs [.lit "async".toList, .many1 isSpace, .lit "fn".toList]

def awaitPattern : Re := .lit ".await".toList

structure AsyncStats where
  asyncFunctions : Nat
  awaitCalls : Nat
  files : List (String × Nat × Nat)
  deriving DecidableEq, Repr

def asyncOfFile (stats : AsyncStats) (file : SourceFile) (content : List Char) : AsyncStats :=
  let asyncCount := asyncFnPattern.count content
  let awaitCount := awaitPattern.count content
  { asyncFunctions := stats.asyncFunctions + asyncCount
    awaitCalls := stats.awaitCalls + awaitCount
    files := if asyncCount > 0 || awaitCount > 0 then stats.files ++ [(file.path, asyncCount, awaitCount)]
      else stats.files }

def analyzeAsyncUsage (files : List SourceFile) : Except ReadError AsyncStats :=
  forEachRead asyncOfFile files ⟨0, 0, []⟩

/-! ## Public and private API -/

/-- `r'pub\s+fn\s+'`. -/
def pubFnPattern : Re := .seqs [.lit "pub".toList, .many1 isSpace, .lit "fn".toList, .many1 isSpace]

/-- `r'pub\(crate\)\s+fn\s+'`. -/
def pubCrateFnPattern : Re :=
  .seqs [.lit "pub(crate)".toList, .many1 isSpace, .lit "fn".toList, .many1 isSpace]

/-- `r'(?<!pub\s)(?<!pub\(crate\)\s)fn\s+'`: the lookbehinds see one whitespace character. -/
def privateFnPattern : Re :=
  .seqs [.notAfter [isSpace, (· == 'b'), (· == 'u'), (· == 'p')],
    .notAfter ([isSpace] ++ ("pub(crate)".toList.reverse.map fun c => (· == c))),
    .lit "fn".toList, .many1 isSpace]

/-- `r'pub\s+<keyword>\s+'`. -/
def pubItemPattern (keyword : String) : Re :=
  .seqs [.lit "pub".toList, .many1 isSpace, .lit keyword.toList, .many1 isSpace]

structure ApiStats where
  pubFn : Nat
  pubCrateFn : Nat
  privateFn : Nat
  pubStruct : Nat
  pubEnum : Nat
  pubTrait : Nat
  deriving DecidableEq, Repr

def apiOfFile (stats : ApiStats) (_ : SourceFile) (content : List Char) : ApiStats :=
  ⟨stats.pubFn + pubFnPattern.count content, stats.pubCrateFn + pubCrateFnPattern.count content,
    stats.privateFn + privateFnPattern.count content,
    stats.pubStruct + (pubItemPattern "struct").count content,
    stats.pubEnum + (pubItemPattern "enum").count content,
    stats.pubTrait + (pubItemPattern "trait").count content⟩

def analyzePublicVsPrivate (files : List SourceFile) : Except ReadError ApiStats :=
  forEachRead apiOfFile files ⟨0, 0, 0, 0, 0, 0⟩

/-- `r'fn\s+'`, the occurrences the three function counts share out. -/
def fnKeywordPattern : Re := .seqs [.lit "fn".toList, .many1 isSpace]

/-- Two spaces after `pub`: `pub\s+fn` counts the function, and so does the private
pattern, whose lookbehind sees a space before `fn` but not `pub`. -/
theorem analyzePublicVsPrivate_double_count :
    analyzePublicVsPrivate [⟨"lib.rs", some "pub  fn run() -> u8".toList⟩] = .ok ⟨1, 0, 1, 0, 0, 0⟩ ∧
      fnKeywordPattern.count "pub  fn run() -> u8".toList = 1 :=
  ⟨rfl, by decide⟩

end SourceAudit.Comprehensive
