import SourceAudit.Regex

/-! The corpus the scripts walk, and the two shapes of their per-file loops.

`find_rust_files` is the corpus provider: the passes take its list of files as given.
A file either decodes as UTF-8 or does not; `open(...).read()` raises in the second
case. `check_trait_usage` catches that and goes on; every other pass lets it
escape the loop.
-/

set_option autoImplicit false

namespace SourceAudit

/-- One file of the corpus: its path and, when it can be read and decoded, its text. A corpus
is the list `find_rust_files` returns, where each path occurs once; the type does not carry
that, and only the `by_file` dict of the clone pass relies on it. -/
structure SourceFile where
  path : String
  text : Option (List Char)
  deriving DecidableEq, Repr

/-- The exception `open(path, 'r', encoding='utf-8').read()` raises. -/
structure ReadError where
  path : String
  deriving DecidableEq, Repr

def SourceFile.readable (file : SourceFile) : Bool := file.text.isSome

def readText (file : SourceFile) : Except ReadError (List Char) :=
  match file.text with
  | some text => .ok text
  | none => .error ⟨file.path⟩

/-- `for rs_file in files: ... read ...` with the read unguarded: the first file that
cannot be read ends the pass with its exception. -/
def forEachRead {State : Type} (step : State → SourceFile → List Char → State) :
    List SourceFile → State → Except ReadError State
  | [], state => .ok state
  | file :: rest, state =>
    match readText file with
    | .ok text => forEachRead step rest (step state file text)
    | .error error => .error error

/-- The loop of `check_trait_usage`: `try: ... except Exception: continue`. -/
def forEachReadable {State : Type} (step : State → SourceFile → List Char → State) :
    List SourceFile → State → State
  | [], state => state
  | file :: rest, state =>
    match readText file with
    | .ok text => forEachReadable step rest (step state file text)
    | .error _ => forEachReadable step rest state

/-- `is_test_file` of `audit_arc_mutex.py`. -/
def isTestFile (path : String) : Bool :=
  occurs "/tests/".toList path.toList || occurs "/test/".toList path.toList ||
    "_test.rs".toList.isSuffixOf path.toList || "_tests.rs".toList.isSuffixOf path.toList ||
    occurs "test_".toList path.toList || occurs "tests.rs".toList path.toList

/-- `is_test_file` of `comprehensive_audit.py`, which also counts benchmarks as tests. -/
def isTestFileWithBenches (path : String) : Bool :=
  isTestFile path || occurs "benches/".toList path.toList

section Loops

variable {State : Type} (step : State → SourceFile → List Char → State)

@[simp] theorem readText_of_text {file : SourceFile} {text : List Char} (read : file.text = some text) :
    readText file = .ok text := by
  simp [readText, read]

theorem forEachReadable_filter (files : List SourceFile) (state : State) :
    forEachReadable step files state = forEachReadable step (files.filter SourceFile.readable) state := by
  induction files generalizing state with
  | nil => rfl
  | cons file rest ih =>
    cases read : file.text with
    | none => simp [forEachReadable, readText, SourceFile.readable, read, ih]
    | some text => simp [forEachReadable, SourceFile.readable, read, ih]

theorem forEachRead_of_readable (files : List SourceFile) (state : State)
    (readable : ∀ file ∈ files, file.readable = true) :
    forEachRead step files state = .ok (forEachReadable step files state) := by
  induction files generalizing state with
  | nil => rfl
  | cons file rest ih =>
    obtain ⟨text, read⟩ := Option.isSome_iff_exists.mp (readable file (List.mem_cons_self _ _))
    simp only [forEachRead, forEachReadable, readText_of_text read]
    exact ih _ fun other member => readable other (List.mem_cons_of_mem _ member)

theorem forEachRead_ok_readable (files : List SourceFile) (state result : State)
    (run : forEachRead step files state = .ok result) : ∀ file ∈ files, file.readable = true := by
  induction files generalizing state with
  | nil => simp
  | cons file rest ih =>
    cases read : file.text with
    | none => simp [forEachRead, readText, read] at run
    | some text =>
      rw [forEachRead, readText_of_text read] at run
      intro other member
      rcases List.mem_cons.mp member with rfl | later
      · simp [SourceFile.readable, read]
      · exact ih _ run other later

theorem forEachRead_invariant (keeps : State → Prop) (files : List SourceFile)
    (preserved : ∀ state, ∀ file ∈ files, ∀ text, file.text = some text → keeps state →
      keeps (step state file text))
    (state result : State) (initial : keeps state) (run : forEachRead step files state = .ok result) :
    keeps result := by
  induction files generalizing state with
  | nil => cases run; exact initial
  | cons file rest ih =>
    cases read : file.text with
    | none => simp [forEachRead, readText, read] at run
    | some text =>
      rw [forEachRead, readText_of_text read] at run
      exact ih (fun state other member => preserved state other (List.mem_cons_of_mem _ member)) _
        (preserved state file (List.mem_cons_self _ _) text read initial) run

theorem forEachRead_readable_invariant (keeps : State → Prop)
    (preserved : ∀ state file text, keeps state → keeps (step state file text)) (files : List SourceFile)
    (state : State) (readable : ∀ file ∈ files, file.readable = true) (initial : keeps state) :
    ∃ result, forEachRead step files state = .ok result ∧ keeps result :=
  have run := forEachRead_of_readable step files state readable
  ⟨_, run, forEachRead_invariant step keeps files (fun state file _ text _ => preserved state file text) state _
    initial run⟩

theorem forEachRead_error (files : List SourceFile) (state : State) (error : ReadError) :
    forEachRead step files state = .error error ↔
      ∃ before file after, files = before ++ file :: after ∧
        (∀ other ∈ before, other.readable = true) ∧ file.text = none ∧ error = ⟨file.path⟩ := by
  induction files generalizing state with
  | nil => simp [forEachRead]
  | cons file rest ih =>
    cases read : file.text with
    | none =>
      simp only [forEachRead, readText, read, Except.error.injEq]
      constructor
      · rintro rfl; exact ⟨[], file, rest, rfl, by simp, read, rfl⟩
      · rintro ⟨_ | ⟨first, before⟩, bad, after, split, good, unread, rfl⟩ <;> cases split
        · rfl
        · simp [SourceFile.readable, read] at good
    | some text =>
      simp only [forEachRead, readText_of_text read, ih]
      constructor
      · rintro ⟨before, bad, after, rfl, good, unread, rfl⟩
        exact ⟨file :: before, bad, after, rfl, by simpa [SourceFile.readable, read] using good, unread, rfl⟩
      · rintro ⟨_ | ⟨first, before⟩, bad, after, split, good, unread, rfl⟩ <;> cases split
        · simp [read] at unread
        · exact ⟨before, bad, after, rfl, fun other member => good other (List.mem_cons_of_mem _ member),
            unread, rfl⟩

end Loops

end SourceAudit
