import SourceAudit.Regex

/-! `extract_arc_mutex_usage` of `audit_arc_mutex.py`: every `Arc<Mutex<...>>` on every
line, with the inner type captured by the pattern and a window of lines around it.

As with `extract_traits`, the file read belongs to the corpus pass.
-/

set_option autoImplicit false

namespace SourceAudit.ArcMutex

/-- `r'Arc<Mutex<([^>]+(?:<[^>]+>)?)>>'`. -/
def arcMutexPattern : Re :=
  .seqs [.lit "Arc<Mutex<".toList,
    .group 1 (.seq (.many1 (· != '>')) (.opt (.seqs [.char '<', .many1 (· != '>'), .char '>']))),
    .lit ">>".toList]

/-- One entry of `matches`. -/
structure ArcMutexUsage where
  file : String
  line : Nat
  innerType : String
  fullMatch : String
  lineContent : String
  context : String
  deriving DecidableEq, Repr

/-- The entries for the `lineNum`-th (1-based) of `lines`. -/
def lineUsages (filePath : String) (lines : List (List Char)) (lineNum : Nat) (line : List Char) :
    List ArcMutexUsage :=
  (arcMutexPattern.finditer line).map fun found =>
    let contextStart := max 0 (lineNum - 3)
    let contextEnd := min lines.length (lineNum + 3)
    { file := filePath
      line := lineNum
      innerType := String.mk (found.group line 1)
      fullMatch := String.mk (found.group line 0)
      lineContent := String.mk (strip line)
      context := String.mk (joinLines (slice lines contextStart contextEnd)) }

def extractArcMutexUsage (filePath : String) (content : List Char) : List ArcMutexUsage :=
  let lines := splitLines content
  (lines.enumFrom 1).flatMap fun (lineNum, line) => lineUsages filePath lines lineNum line

/-! ## What the capture group takes -/

/-- After `Arc<Mutex<`, a non-empty run free of `>` and followed by `>>` is captured whole:
the greedy `[^>]+` stops at the first `>`, and `(?:<[^>]+>)?` then matches nothing. -/
theorem arcMutexPattern_matchAt (before run rest : List Char) (nonempty : run ≠ []) (noClose : '>' ∉ run) :
    arcMutexPattern.matchAt ⟨before, "Arc<Mutex<".toList ++ run ++ ">>".toList ++ rest⟩ =
      some ⟨⟨("Arc<Mutex<".toList ++ run ++ ">>".toList).reverse ++ before, rest⟩,
        [(1, before.length + 10, before.length + 10 + run.length)]⟩ := by
  obtain ⟨first, run, rfl⟩ := List.exists_cons_of_ne_nil nonempty
  have firstOpen : (first != '>') = true := by
    simp only [bne_iff_ne, ne_eq]; rintro rfl; exact noClose (List.mem_cons_self _ _)
  have allOpen : ∀ c ∈ run, (c != '>') = true := fun c member => by
    simp only [bne_iff_ne, ne_eq]; rintro rfl; exact noClose (List.mem_cons_of_mem _ member)
  simp only [Re.matchAt, arcMutexPattern, Re.seqs, Re.walk_seq, Re.walk_empty, List.append_assoc,
    Re.walk_lit_append, Re.walk_group, Re.many1, List.cons_append, Re.walk_cls_cons, firstOpen, if_true,
    Re.walk_many]
  have closing : ">>".toList = ['>', '>'] := rfl
  have literal : "Arc<Mutex<".toList.length = 10 := rfl
  rw [closing]
  refine Re.manyFrom_run _ _ _ _ run ('>' :: '>' :: rest) _ allOpen (by simp) ?_
  have mismatch : ('>' == '<') = false := rfl
  simp only [Re.opt, Re.walk_alt, Re.walk_seq, Re.char, Re.walk_cls_cons, mismatch, Re.walk_empty, Re.lit]
  simp [Cursor.pos, literal]
  omega

theorem arcMutexLiteral_unbordered : ∀ shift < "Arc<Mutex<".toList.length, 0 < shift →
    "Arc<Mutex<".toList.drop shift ≠ "Arc<Mutex<".toList.take ("Arc<Mutex<".toList.length - shift) := by
  decide

theorem arcMutexPattern_matchAt_none (before after : List Char) (absent : ¬ "Arc<Mutex<".toList <+: after) :
    arcMutexPattern.matchAt ⟨before, after⟩ = none := by
  simp only [Re.matchAt, arcMutexPattern, Re.seqs, Re.walk_seq]
  exact Re.walk_lit_mismatch _ _ _ _ _ absent

/-- The first match of a line is at its first `Arc<Mutex<` when a run free of `>` and then
`>>` follow it. -/
theorem arcMutexPattern_finditer (pre run rest : List Char) (nonempty : run ≠ []) (noClose : '>' ∉ run)
    (noEarlier : ¬ "Arc<Mutex<".toList <:+: pre) :
    ∃ later, arcMutexPattern.finditer (pre ++ "Arc<Mutex<".toList ++ run ++ ">>".toList ++ rest) =
      ⟨pre.length, pre.length + 12 + run.length,
        [(1, pre.length + 10, pre.length + 10 + run.length)]⟩ :: later := by
  have skipped := Re.scan_no_match arcMutexPattern [] pre ("Arc<Mutex<".toList ++ run ++ ">>".toList ++ rest)
    fun k inside => arcMutexPattern_matchAt_none _ _ fun starts =>
      noEarlier (Re.infix_of_unbordered_prefix _ pre _ k inside arcMutexLiteral_unbordered
        (by simpa only [List.append_assoc] using starts))
  obtain ⟨c, after, split⟩ : ∃ c after, "Arc<Mutex<".toList ++ run ++ ">>".toList ++ rest = c :: after :=
    ⟨_, _, rfl⟩
  have matched := arcMutexPattern_matchAt (pre.reverse ++ []) run rest nonempty noClose
  have line : pre ++ "Arc<Mutex<".toList ++ run ++ ">>".toList ++ rest = pre ++ c :: after := by
    rw [← split]; simp only [List.append_assoc]
  rw [split] at skipped matched
  rw [Re.finditer, line, skipped, Re.scan_found _ _ _ _ _ matched]
  refine ⟨_, congrArg₂ List.cons ?_ rfl⟩
  simp [Cursor.pos]
  omega

/-- On every line, the first occurrence reports as inner type the text between `Arc<Mutex<`
and the first `>`: for a generic `A<B>` that is `A<B`, without its closing `>`. -/
theorem extractArcMutexUsage_inner_run (filePath : String) (content pre run rest : List Char) (index : Nat)
    (atLine : (splitLines content)[index]? = some (pre ++ "Arc<Mutex<".toList ++ run ++ ">>".toList ++ rest))
    (nonempty : run ≠ []) (noClose : '>' ∉ run) (noEarlier : ¬ "Arc<Mutex<".toList <:+: pre) :
    ∃ usage ∈ extractArcMutexUsage filePath content, usage.line = index + 1 ∧
      usage.innerType = String.mk run ∧ usage.fullMatch = String.mk ("Arc<Mutex<".toList ++ run ++ ">>".toList) := by
  obtain ⟨later, first⟩ := arcMutexPattern_finditer pre run rest nonempty noClose noEarlier
  have listed : (index + 1, pre ++ "Arc<Mutex<".toList ++ run ++ ">>".toList ++ rest) ∈
      (splitLines content).enumFrom 1 :=
    List.mem_iff_getElem?.mpr ⟨index, by simp [List.getElem?_enumFrom, atLine, Nat.add_comm]⟩
  obtain ⟨usage, member, facts⟩ : ∃ usage ∈ lineUsages filePath (splitLines content) (index + 1)
      (pre ++ "Arc<Mutex<".toList ++ run ++ ">>".toList ++ rest), usage.line = index + 1 ∧
        usage.innerType = String.mk run ∧
        usage.fullMatch = String.mk ("Arc<Mutex<".toList ++ run ++ ">>".toList) := by
    rw [lineUsages, first, List.map_cons]
    have width : pre.length + 12 + run.length - pre.length = ("Arc<Mutex<".toList ++ run ++ ">>".toList).length := by
      simp only [List.length_append, show "Arc<Mutex<".toList.length = 10 from rfl,
        show ">>".toList.length = 2 from rfl]
      omega
    have shape : pre ++ "Arc<Mutex<".toList ++ run ++ ">>".toList ++ rest =
        pre ++ (("Arc<Mutex<".toList ++ run ++ ">>".toList) ++ rest) := by
      simp only [List.append_assoc]
    exact ⟨_, List.mem_cons_self _ _, rfl, by simp [Found.group, slice],
      by simp only [Found.group, slice, shape, List.drop_left, width, List.take_left]⟩
  exact ⟨usage, List.mem_flatMap.mpr ⟨_, listed, member⟩, facts⟩

/-- On a line declaring `Arc<Mutex<Vec<u8>>>`, the inner type runs up to the first `>`. -/
theorem extractArcMutexUsage_inner_run_nested :
    ∃ usage ∈ extractArcMutexUsage "lib.rs" "let m: Arc<Mutex<Vec<u8>>> = x;".toList, usage.line = 0 + 1 ∧
      usage.innerType = String.mk "Vec<u8".toList ∧
      usage.fullMatch = String.mk ("Arc<Mutex<".toList ++ "Vec<u8".toList ++ ">>".toList) :=
  extractArcMutexUsage_inner_run "lib.rs" _ "let m: ".toList "Vec<u8".toList "> = x;".toList 0 (by decide)
    (by decide) (by decide) (by decide)

/-- `[^>]+` takes the inner `<` too, so a one-level generic loses its closing `>`. -/
theorem extractArcMutexUsage_nested_inner_type :
    (extractArcMutexUsage "lib.rs" "let m: Arc<Mutex<Vec<u8>>> = x;".toList).map
        (fun usage => (usage.innerType, usage.fullMatch)) = [("Vec<u8", "Arc<Mutex<Vec<u8>>")] := by
  decide

/-- Seven lines with an occurrence on the fourth. -/
def contextSample : List Char := "a\nb\nc\nlet x: Arc<Mutex<u8>> = y;\ne\nf\ng".toList

/-- The 1-based `line_num` is used as a 0-based start: two lines before, three after. -/
theorem extractArcMutexUsage_context_window :
    (extractArcMutexUsage "lib.rs" contextSample).map (fun usage => (usage.line, usage.context)) =
      [(4, "b\nc\nlet x: Arc<Mutex<u8>> = y;\ne\nf\ng")] := by
  decide

/-- The occurrence on the fourth line of `contextSample`. -/
def contextUsage : ArcMutexUsage :=
  ⟨"lib.rs", 4, "u8", "Arc<Mutex<u8>>", "let x: Arc<Mutex<u8>> = y;", "b\nc\nlet x: Arc<Mutex<u8>> = y;\ne\nf\ng"⟩

/-- On every line of every text, an occurrence's context is the lines numbered from two before
its own to three after it, as far as the text reaches. -/
theorem extractArcMutexUsage_context_lines (filePath : String) (content : List Char) (usage : ArcMutexUsage)
    (found : usage ∈ extractArcMutexUsage filePath content) :
    usage.context = String.mk (joinLines (((splitLines content).enumFrom 1).filterMap fun numbered =>
      if usage.line ≤ numbered.1 + 2 ∧ numbered.1 ≤ usage.line + 3 then some numbered.2 else none)) := by
  obtain ⟨⟨lineNum, line⟩, -, member⟩ := List.mem_flatMap.mp found
  obtain ⟨-, -, rfl⟩ := List.mem_map.mp member
  dsimp only
  rw [slice_eq_numbered]
  refine congrArg (String.mk ∘ joinLines) (List.filterMap_congr fun numbered inside => ?_)
  have first := List.le_fst_of_mem_enumFrom inside
  have last := List.fst_lt_add_of_mem_enumFrom inside
  simp only [show (max 0 (lineNum - 3) < numbered.1 ∧ numbered.1 ≤ min (splitLines content).length (lineNum + 3)) ↔
    (lineNum ≤ numbered.1 + 2 ∧ numbered.1 ≤ lineNum + 3) by omega]

theorem extractArcMutexUsage_context_lines_sample :
    contextUsage ∈ extractArcMutexUsage "lib.rs" contextSample ∧
      contextUsage.context = String.mk (joinLines (((splitLines contextSample).enumFrom 1).filterMap fun numbered =>
        if contextUsage.line ≤ numbered.1 + 2 ∧ numbered.1 ≤ contextUsage.line + 3 then some numbered.2 else none)) :=
  ⟨by decide, extractArcMutexUsage_context_lines "lib.rs" contextSample contextUsage (by decide)⟩

end SourceAudit.ArcMutex
