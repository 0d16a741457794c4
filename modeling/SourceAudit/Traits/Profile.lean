import SourceAudit.Chain
import SourceAudit.Traits.Usage

/-! What the three counts of `check_trait_usage` measure.

`impl.*{trait_name}` is a chain of two literals: it matches once on each line on which the
name follows an `impl`, however many implementations that line holds, and whatever the name
is a part of there: `impl Display for HandlerFactory` counts for `Handler`, and
`impl Handler for Job` counts for `Job`. None of the three patterns ends the name at a word
boundary, so a trait is credited with the uses of every trait whose name extends its own.
-/

set_option autoImplicit false

namespace SourceAudit.Traits

/-- The lines of a text on which `impl` is followed, later on the line, by the name. -/
def implLines (traitName text : List Char) : List (List Char) :=
  (splitLines text).filter (inOrder ["impl".toList, traitName])

section
variable (traitName : List Char) (nonempty : traitName ≠ []) (clean : '\n' ∉ traitName)
include nonempty clean

theorem implPattern_count (text : List Char) :
    (implPattern traitName).count text = (implLines traitName text).length :=
  chain_count "impl".toList [traitName] (by
    simp only [List.mem_cons, List.mem_singleton, List.not_mem_nil, or_false]
    rintro word (rfl | rfl)
    exacts [by decide, ⟨nonempty, clean⟩]) (List.cons_ne_nil _ _) text

theorem matchTotal_implPattern (entries : List (String × List Char)) :
    matchTotal (implPattern traitName) entries = (entries.flatMap fun entry => implLines traitName entry.2).length := by
  induction entries with
  | nil => rfl
  | cons entry rest ih =>
    rw [matchTotal, ih, implPattern_count traitName nonempty clean, List.flatMap_cons, List.length_append]

end

/-- For a trait name, `impl_count` is the number of lines, over the readable files, on which
the name follows an `impl`; `impl_files` lists the readable files with such a line, in corpus
order. -/
theorem checkTraitUsage_impl_lines (traitName : TraitName) (files : List SourceFile) :
    (checkTraitUsage traitName.chars files).implCount =
        ((readableTexts files).flatMap fun entry => implLines traitName.chars entry.2).length ∧
      (checkTraitUsage traitName.chars files).implFiles =
        ((readableTexts files).filter fun entry => 0 < (implLines traitName.chars entry.2).length).map (·.1) := by
  simp only [checkTraitUsage, forEachReadable_countTraitUsage, UsagePatterns.empty, Nat.zero_add, List.nil_append,
    matchTotal_implPattern _ traitName.nonempty traitName.newline_not_mem, matchPaths,
    implPattern_count _ traitName.nonempty traitName.newline_not_mem, and_self]

/-- Two implementations on one line, and a longer name that contains the trait's. -/
def handlerCorpus : List SourceFile :=
  [⟨"lib.rs", some ("impl Handler for A \x7b\x7d impl Handler for B \x7b\x7d\n" ++
    "impl Display for HandlerFactory \x7b\x7d\n").toList⟩]

example : (checkTraitUsage "Handler".toList handlerCorpus).implCount = 2 := by decide

/-! ## A longer name is credited to a shorter one

`dyn {name}` and `: {name}` are literals, and the leftmost search for a literal finds it at
least as often as any longer literal that starts with it. So each count and file list of a
name covers those of every name that extends it.
-/

theorem lit_matchAt (word before after : List Char) :
    (Re.lit word).matchAt ⟨before, after⟩ =
      if word <+: after then some ⟨⟨word.reverse ++ before, after.drop word.length⟩, []⟩ else none := by
  split_ifs with starts
  · obtain ⟨rest, rfl⟩ := starts
    rw [Re.matchAt, Re.walk_lit_append, List.drop_left]
  · exact Re.walk_lit_mismatch _ _ _ _ _ starts

theorem lit_scan_nil (word : List Char) (nonempty : word ≠ []) (skip : Nat) (before : List Char) :
    (Re.lit word).scan skip before [] = [] := by
  have absent : ¬ word <+: [] := fun starts => nonempty (List.prefix_nil.mp starts)
  simp [Re.scan, lit_matchAt, absent]

theorem lit_scan_cons (word : List Char) (before : List Char) (c : Char) (after : List Char) :
    ((Re.lit word).scan 0 before (c :: after)).length =
      if word <+: c :: after then ((Re.lit word).scan (word.length - 1) (c :: before) after).length + 1
      else ((Re.lit word).scan 0 (c :: before) after).length := by
  rw [Re.scan, if_pos rfl, lit_matchAt]
  split_ifs
  · simp [Cursor.pos]
  · rfl

theorem lit_scan_succ (word : List Char) (skip : Nat) (before : List Char) (c : Char) (after : List Char) :
    (Re.lit word).scan (skip + 1) before (c :: after) = (Re.lit word).scan skip (c :: before) after := rfl

/-- The leftmost search for a literal finds it at least as often as a longer literal that starts
with it: each search for the short one stays at or ahead of the search for the long one, up to
one match it may still be inside. -/
theorem lit_scan_append_le (word extra : List Char) (nonempty : word ≠ []) (text : List Char) :
    ∀ (first second : List Char) (skipLong skipShort : Nat), skipShort ≤ word.length →
      ((Re.lit (word ++ extra)).scan skipLong first text).length ≤
        ((Re.lit word).scan skipShort second text).length + if skipLong < skipShort then 1 else 0 := by
  induction text with
  | nil =>
    intro first second skipLong skipShort _
    rw [lit_scan_nil (word ++ extra) (by simp [nonempty])]
    exact Nat.zero_le _
  | cons c after ih =>
    intro first second skipLong skipShort within
    have lengths : word.length ≤ (word ++ extra).length := by simp
    have positive : 0 < word.length := List.length_pos.mpr nonempty
    cases skipLong with
    | zero =>
      cases skipShort with
      | zero =>
        rw [lit_scan_cons, lit_scan_cons]
        by_cases long : word ++ extra <+: c :: after
        · have short : word <+: c :: after := (List.prefix_append word extra).trans long
          have := ih (c :: first) (c :: second) ((word ++ extra).length - 1) (word.length - 1) (by omega)
          rw [if_pos long, if_pos short]
          split_ifs at this <;> omega
        · have := ih (c :: first) (c :: second) 0 (word.length - 1) (by omega)
          have := ih (c :: first) (c :: second) 0 0 (by omega)
          rw [if_neg long]
          split_ifs at * <;> omega
      | succ skipShort =>
        rw [lit_scan_cons, lit_scan_succ]
        have := ih (c :: first) (c :: second) ((word ++ extra).length - 1) skipShort (by omega)
        have := ih (c :: first) (c :: second) 0 skipShort (by omega)
        split_ifs at * <;> omega
    | succ skipLong =>
      cases skipShort with
      | zero =>
        rw [lit_scan_succ, lit_scan_cons]
        have := ih (c :: first) (c :: second) skipLong (word.length - 1) (by omega)
        have := ih (c :: first) (c :: second) skipLong 0 (by omega)
        split_ifs at * <;> omega
      | succ skipShort =>
        rw [lit_scan_succ, lit_scan_succ]
        have := ih (c :: first) (c :: second) skipLong skipShort (by omega)
        split_ifs at * <;> omega

theorem lit_count_append_le (word extra text : List Char) (nonempty : word ≠ []) :
    (Re.lit (word ++ extra)).count text ≤ (Re.lit word).count text := by
  simpa using lit_scan_append_le word extra nonempty text [] [] 0 0 (Nat.zero_le _)

theorem spliced_count_append_le (pre traitName extension text : List Char) (nonempty : pre ≠ []) :
    (Re.lit (pre ++ (traitName ++ extension))).count text ≤ (Re.lit (pre ++ traitName)).count text := by
  rw [← List.append_assoc]
  exact lit_count_append_le _ extension text (by simp [nonempty])

theorem inOrder_cons_mono (word : List Char) {rest other : List (List Char)}
    (weaker : ∀ text, inOrder rest text = true → inOrder other text = true) (line : List Char)
    (found : inOrder (word :: rest) line = true) : inOrder (word :: other) line = true := by
  simp only [inOrder, List.any_eq_true, List.mem_range, Bool.and_eq_true] at found ⊢
  obtain ⟨i, below, starts, later⟩ := found
  exact ⟨i, below, starts, weaker _ later⟩

theorem inOrder_single_append (word extra line : List Char) (found : inOrder [word ++ extra] line = true) :
    inOrder [word] line = true := by
  simp only [inOrder, List.any_eq_true, List.mem_range, Bool.and_eq_true, List.isPrefixOf_iff_prefix,
    and_true] at found ⊢
  obtain ⟨i, below, starts⟩ := found
  exact ⟨i, below, (List.prefix_append word extra).trans starts⟩

theorem implPattern_count_append_le (traitName extension text : List Char) (nonempty : traitName ≠ [])
    (clean : '\n' ∉ traitName ++ extension) :
    (implPattern (traitName ++ extension)).count text ≤ (implPattern traitName).count text := by
  rw [implPattern_count _ (by simp [nonempty]) clean,
    implPattern_count _ nonempty fun inName => clean (List.mem_append_left _ inName)]
  exact (List.monotone_filter_right _ (inOrder_cons_mono _ fun text =>
    inOrder_single_append traitName extension text)).length_le

theorem matchTotal_le {fewer more : Re} (le : ∀ text, fewer.count text ≤ more.count text)
    (entries : List (String × List Char)) : matchTotal fewer entries ≤ matchTotal more entries := by
  induction entries with
  | nil => exact Nat.le_refl 0
  | cons entry rest ih => exact Nat.add_le_add (le entry.2) ih

theorem matchPaths_sublist {fewer more : Re} (le : ∀ text, fewer.count text ≤ more.count text)
    (entries : List (String × List Char)) : (matchPaths fewer entries).Sublist (matchPaths more entries) :=
  (List.monotone_filter_right _ fun entry found => by
    simp only [decide_eq_true_eq] at found ⊢
    exact Nat.lt_of_lt_of_le found (le entry.2)).map _

/-- Whatever the corpus, a trait is credited with every implementation line, `dyn` use and
bound use of each trait whose name extends its own, and with every file that lists one. -/
theorem checkTraitUsage_longer_name (shorter longer : TraitName) (files : List SourceFile)
    (extended : shorter.chars <+: longer.chars) :
    let short := checkTraitUsage shorter.chars files
    let long := checkTraitUsage longer.chars files
    long.implCount ≤ short.implCount ∧ long.dynUsage ≤ short.dynUsage ∧ long.boundUsage ≤ short.boundUsage ∧
      long.implFiles.Sublist short.implFiles ∧ long.dynFiles.Sublist short.dynFiles ∧
      long.boundFiles.Sublist short.boundFiles := by
  obtain ⟨extension, split⟩ := extended
  have clean := longer.newline_not_mem
  rw [← split] at clean ⊢
  have impl := fun text => implPattern_count_append_le shorter.chars extension text shorter.nonempty clean
  have dyn := fun text => spliced_count_append_le "dyn ".toList shorter.chars extension text (by decide)
  have bound := fun text => spliced_count_append_le ": ".toList shorter.chars extension text (by decide)
  simp only [checkTraitUsage, forEachReadable_countTraitUsage, UsagePatterns.empty, Nat.zero_add, List.nil_append]
  exact ⟨matchTotal_le impl _, matchTotal_le dyn _, matchTotal_le bound _, matchPaths_sublist impl _,
    matchPaths_sublist dyn _, matchPaths_sublist bound _⟩

def handlerName : TraitName := ⟨"Handler".toList, by decide, by decide⟩

def factoryName : TraitName := ⟨"HandlerFactory".toList, by decide, by decide⟩

theorem checkTraitUsage_longer_name_handler :
    handlerName.chars <+: factoryName.chars ∧
      (let short := checkTraitUsage handlerName.chars handlerCorpus
      let long := checkTraitUsage factoryName.chars handlerCorpus
      long.implCount ≤ short.implCount ∧ long.dynUsage ≤ short.dynUsage ∧ long.boundUsage ≤ short.boundUsage ∧
        long.implFiles.Sublist short.implFiles ∧ long.dynFiles.Sublist short.dynFiles ∧
        long.boundFiles.Sublist short.boundFiles) :=
  have extended : handlerName.chars <+: factoryName.chars := by decide
  ⟨extended, checkTraitUsage_longer_name handlerName factoryName handlerCorpus extended⟩

end SourceAudit.Traits
