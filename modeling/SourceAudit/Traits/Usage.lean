import SourceAudit.Corpus
import SourceAudit.Traits.Classify

/-! `check_trait_usage` and the driver loop of `audit_traits.py`.

`check_trait_usage` splices the trait name into three regex f-strings. A name made of `\w`
characters holds no regex metacharacter, and there the f-string is the literal the patterns
below splice in; `TraitName` carries that condition, and every name `main` passes meets it
(`TraitName.ofReported`). For any other name the three patterns are not the code's.
-/

set_option autoImplicit false

namespace SourceAudit.Traits

/-- A name `check_trait_usage` is called with by `main`: the non-empty `\w+` group of
`trait_pattern`. -/
structure TraitName where
  chars : List Char
  nonempty : chars ≠ []
  word : ∀ c ∈ chars, isWord c = true

theorem TraitName.newline_not_mem (traitName : TraitName) : '\n' ∉ traitName.chars :=
  fun newline => absurd (traitName.word _ newline) (by decide)

/-- `f"impl.*{trait_name}"`, for a name without regex metacharacters such as a `TraitName`. -/
def implPattern (traitName : List Char) : Re := .seqs [.lit "impl".toList, Re.dotStar, .lit traitName]

/-- `f"dyn {trait_name}"`, for a name without regex metacharacters. -/
def dynPattern (traitName : List Char) : Re := .lit ("dyn ".toList ++ traitName)

/-- `f": {trait_name}"`, for a name without regex metacharacters. -/
def boundPattern (traitName : List Char) : Re := .lit (": ".toList ++ traitName)

def UsagePatterns.empty : UsagePatterns := ⟨0, 0, 0, [], [], []⟩

/-- One `if re.search(p, content): count += len(re.findall(p, content)); files.append(path)`. -/
def tally (pattern : Re) (content : List Char) (path : String) (count : Nat) (files : List String) :
    Nat × List String :=
  if (pattern.search content).isSome then (count + pattern.count content, files ++ [path])
  else (count, files)

/-- The body of the `try` block for one readable file. -/
def countTraitUsage (traitName : List Char) (usage : UsagePatterns) (file : SourceFile)
    (content : List Char) : UsagePatterns :=
  let impl := tally (implPattern traitName) content file.path usage.implCount usage.implFiles
  let dyn := tally (dynPattern traitName) content file.path usage.dynUsage usage.dynFiles
  let bound := tally (boundPattern traitName) content file.path usage.boundUsage usage.boundFiles
  ⟨impl.1, dyn.1, bound.1, impl.2, dyn.2, bound.2⟩

def checkTraitUsage (traitName : List Char) (files : List SourceFile) : UsagePatterns :=
  forEachReadable (countTraitUsage traitName) files UsagePatterns.empty

/-- The first loop of `main`: every trait of every file, in corpus order. -/
def collectTraits (files : List SourceFile) : Except ReadError (List TraitInfo) :=
  forEachRead (fun allTraits file content => allTraits ++ extractTraits file.path content) files []

/-- One entry of `categorized`: the trait, its usage, and the classifier's verdict. -/
structure Assessment where
  trait : TraitInfo
  usage : UsagePatterns
  necessity : Necessity
  deriving DecidableEq, Repr

/-- `main` up to the report: single-method traits are the only ones classified. -/
def auditTraits (files : List SourceFile) : Except ReadError (List TraitInfo × List Assessment) := do
  let allTraits ← collectTraits files
  let singleMethodTraits := allTraits.filter (·.methodCount == 1)
  pure (allTraits, singleMethodTraits.map fun trait =>
    let usage := checkTraitUsage trait.name.toList files
    ⟨trait, usage, analyzeTraitNecessity trait usage⟩)

/-! ## Usage counts are sums of per-file counts -/

/-- What one readable file adds for one pattern: its match count, and its path when it
has a match. -/
theorem tally_eq (pattern : Re) (content : List Char) (path : String) (count : Nat)
    (files : List String) :
    tally pattern content path count files =
      (count + pattern.count content,
        files ++ if 0 < pattern.count content then [path] else []) := by
  unfold tally Re.search Re.count
  cases pattern.finditer content <;> simp

def readableTexts (files : List SourceFile) : List (String × List Char) :=
  files.filterMap fun file => file.text.map (file.path, ·)

def matchTotal (pattern : Re) : List (String × List Char) → Nat
  | [] => 0
  | (_, text) :: rest => pattern.count text + matchTotal pattern rest

def matchPaths (pattern : Re) (entries : List (String × List Char)) : List String :=
  (entries.filter fun entry => 0 < pattern.count entry.2).map (·.1)

theorem matchPaths_cons (pattern : Re) (path : String) (text : List Char)
    (rest : List (String × List Char)) :
    matchPaths pattern ((path, text) :: rest) =
      (if 0 < pattern.count text then [path] else []) ++ matchPaths pattern rest := by
  by_cases found : 0 < pattern.count text <;> simp [matchPaths, found]

theorem forEachReadable_countTraitUsage (traitName : List Char) (files : List SourceFile)
    (usage : UsagePatterns) :
    forEachReadable (countTraitUsage traitName) files usage =
      ⟨usage.implCount + matchTotal (implPattern traitName) (readableTexts files),
        usage.dynUsage + matchTotal (dynPattern traitName) (readableTexts files),
        usage.boundUsage + matchTotal (boundPattern traitName) (readableTexts files),
        usage.implFiles ++ matchPaths (implPattern traitName) (readableTexts files),
        usage.dynFiles ++ matchPaths (dynPattern traitName) (readableTexts files),
        usage.boundFiles ++ matchPaths (boundPattern traitName) (readableTexts files)⟩ := by
  induction files generalizing usage with
  | nil => simp [forEachReadable, readableTexts, matchTotal, matchPaths]
  | cons file rest ih =>
    cases read : file.text with
    | none => simp [forEachReadable, readText, readableTexts, read, ih]
    | some text =>
      simp only [forEachReadable, readText_of_text read, ih, countTraitUsage, tally_eq]
      simp only [readableTexts, List.filterMap_cons, read, Option.map_some'] at *
      simp only [matchTotal, matchPaths_cons, Nat.add_assoc, List.append_assoc]

theorem auditTraits_ok {files : List SourceFile} {allTraits : List TraitInfo} {assessments : List Assessment}
    (run : auditTraits files = .ok (allTraits, assessments)) :
    collectTraits files = .ok allTraits ∧
      assessments = (allTraits.filter (·.methodCount == 1)).map fun trait =>
        ⟨trait, checkTraitUsage trait.name.toList files,
          analyzeTraitNecessity trait (checkTraitUsage trait.name.toList files)⟩ := by
  unfold auditTraits at run
  cases collected : collectTraits files with
  | error error => simp [collected, bind, Except.bind] at run
  | ok found =>
    simp only [collected, bind, Except.bind, pure, Except.pure, Except.ok.injEq, Prod.mk.injEq] at run
    obtain ⟨rfl, rfl⟩ := run
    exact ⟨rfl, rfl⟩

/-- `main` classifies exactly the single-method traits of the extraction loop, in corpus
order, each against its usage over the whole corpus, so a trait with any other number of
methods is in no category; each category is the closed form of `singleMethod_category`. -/
theorem auditTraits_assessments (files : List SourceFile) (allTraits : List TraitInfo)
    (assessments : List Assessment) (run : auditTraits files = .ok (allTraits, assessments)) :
    collectTraits files = .ok allTraits ∧
      assessments.map Assessment.trait = allTraits.filter (·.methodCount == 1) ∧
      ∀ assessment ∈ assessments,
        assessment.usage = checkTraitUsage assessment.trait.name.toList files ∧
        assessment.necessity = analyzeTraitNecessity assessment.trait assessment.usage ∧
        assessment.necessity.category =
          let keep := flag (assessment.trait.assocTypes ≠ []) + flag (assessment.trait.hasGenerics = true) +
            flag (0 < assessment.usage.dynUsage) + flag (1 < assessment.usage.implCount) +
            flag (2 < assessment.usage.boundUsage)
          if keep = 0 then .definitelyRemove
          else if keep = 1 ∧ assessment.usage.implCount ≤ 1 then .maybeRemove
          else .keepAsIs := by
  obtain ⟨collected, rfl⟩ := auditTraits_ok run
  refine ⟨collected, by simp [List.map_map, Function.comp_def], ?_⟩
  simp only [List.mem_map, List.mem_filter, beq_iff_eq]
  rintro _ ⟨trait, ⟨-, single⟩, rfl⟩
  exact ⟨rfl, rfl, singleMethod_category _ _ single⟩

/-- One single-method trait with one implementation. -/
def taskCorpus : List SourceFile :=
  [⟨"lib.rs", some "trait Task \x7b\n  fn run(&self);\n\x7d\nimpl Task for Job \x7b\x7d\n".toList⟩]

def taskTrait : TraitInfo :=
  ⟨"Task", "lib.rs", 1, 1, ["run"], [], false, "trait Task \x7b", "fn run(&self);"⟩

def taskAssessment : Assessment :=
  ⟨taskTrait, ⟨1, 0, 0, ["lib.rs"], [], []⟩,
    ⟨.definitelyRemove, [], ["Single method trait", "Only one implementation"]⟩⟩

theorem auditTraits_assessments_task :
    auditTraits taskCorpus = .ok ([taskTrait], [taskAssessment]) ∧
      collectTraits taskCorpus = .ok [taskTrait] ∧
      [taskAssessment].map Assessment.trait = [taskTrait].filter (·.methodCount == 1) ∧
      ∀ assessment ∈ [taskAssessment],
        assessment.usage = checkTraitUsage assessment.trait.name.toList taskCorpus ∧
        assessment.necessity = analyzeTraitNecessity assessment.trait assessment.usage ∧
        assessment.necessity.category =
          let keep := flag (assessment.trait.assocTypes ≠ []) + flag (assessment.trait.hasGenerics = true) +
            flag (0 < assessment.usage.dynUsage) + flag (1 < assessment.usage.implCount) +
            flag (2 < assessment.usage.boundUsage)
          if keep = 0 then .definitelyRemove
          else if keep = 1 ∧ assessment.usage.implCount ≤ 1 then .maybeRemove
          else .keepAsIs :=
  have run : auditTraits taskCorpus = .ok ([taskTrait], [taskAssessment]) := rfl
  ⟨run, auditTraits_assessments taskCorpus _ _ run⟩

end SourceAudit.Traits
