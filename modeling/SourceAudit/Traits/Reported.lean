import SourceAudit.Regex.Semantics
import SourceAudit.Traits.Profile

/-! What `extract_traits` can report, read back from `trait_pattern` through the soundness of
the walk: a header starts a line and reads `indent [pub[(...)] blanks] trait blanks name`, with a
non-empty `\w+` name. So the names `check_trait_usage` splices into its patterns are literals,
a trait declared `unsafe trait` is never reported, and every implementation count `main`
classifies by is a count of lines.
-/

set_option autoImplicit false

namespace SourceAudit.Traits

open Re

/-- What `(?:pub(?:\([^)]*\))?\s+)?` consumes. -/
inductive Visibility : List Char → Prop
  | inherited : Visibility []
  | pub {scope gap : List Char} : (scope = [] ∨ ∃ inner, ')' ∉ inner ∧ scope = '(' :: inner ++ [')']) →
      gap ≠ [] → (∀ c ∈ gap, isSpace c = true) → Visibility ("pub".toList ++ scope ++ gap)

theorem visibility_inv {start stop : Thread}
    (matched : Matches (opt (seqs [lit "pub".toList, opt (seqs [char '(', .many (· != ')'), char ')']),
      many1 isSpace])) start stop) :
    ∃ visibility, Visibility visibility ∧ start.cursor.Advances stop.cursor visibility := by
  rcases matched.opt_inv with matched | rfl
  · obtain ⟨_, pub, matched⟩ := matched.seq_inv
    obtain ⟨_, scope, matched⟩ := matched.seq_inv
    obtain ⟨_, gap, ends⟩ := matched.seq_inv
    cases ends
    obtain ⟨gap, nonempty, blank, advancedGap⟩ := gap.many1_inv
    rcases scope.opt_inv with scope | rfl
    · obtain ⟨_, opening, scope⟩ := scope.seq_inv
      obtain ⟨_, inner, scope⟩ := scope.seq_inv
      obtain ⟨_, closing, ends⟩ := scope.seq_inv
      cases ends
      obtain ⟨inner, unclosed, advancedInner⟩ := inner.many_inv
      have shape : Visibility ("pub".toList ++ ('(' :: inner ++ [')']) ++ gap) :=
        .pub (.inr ⟨inner, fun closes => by simpa using unclosed _ closes, rfl⟩) nonempty blank
      refine ⟨_, shape, ?_⟩
      simpa only [List.append_assoc, List.cons_append, List.singleton_append] using
        pub.lit_inv.trans (((opening.char_inv.trans advancedInner).trans closing.char_inv).trans advancedGap)
    · exact ⟨_, .pub (.inl rfl) nonempty blank, by simpa using pub.lit_inv.trans advancedGap⟩
  · exact ⟨[], .inherited, .nil _⟩

/-- A text split at the pieces of `trait_pattern` up to the name: the indent, the visibility,
`trait`, the blanks before the name, the name, and what follows it. -/
structure HeaderSplit (text : List Char) where
  indent : List Char
  visibility : List Char
  gap : List Char
  name : List Char
  rest : List Char
  indent_blank : ∀ c ∈ indent, isSpace c = true
  visibility_shape : Visibility visibility
  gap_nonempty : gap ≠ []
  gap_blank : ∀ c ∈ gap, isSpace c = true
  name_nonempty : name ≠ []
  name_word : ∀ c ∈ name, isWord c = true
  split : text = indent ++ visibility ++ "trait".toList ++ gap ++ name ++ rest

def HeaderSplit.lead {text : List Char} (header : HeaderSplit text) : List Char :=
  header.indent ++ header.visibility ++ "trait".toList ++ header.gap

theorem HeaderSplit.split_lead {text : List Char} (header : HeaderSplit text) :
    text = header.lead ++ header.name ++ header.rest := header.split

/-- A match of `trait_pattern` starts a line, splits the text as a header, and records the
name as group 2. -/
theorem traitPattern_inv {before after : List Char} {thread : Thread}
    (matched : Matches traitPattern ⟨⟨before, after⟩, []⟩ thread) :
    atLineStart before = true ∧ ∃ header : HeaderSplit after,
      thread.groups.find? (·.1 == 2) =
        some (2, before.length + header.lead.length, before.length + header.lead.length + header.name.length) := by
  obtain ⟨_, lineStart, matched⟩ := matched.seq_inv
  obtain ⟨atStart, rfl⟩ := lineStart.lineStart_inv
  obtain ⟨_, indentGroup, matched⟩ := matched.seq_inv
  obtain ⟨_, visibility, matched⟩ := matched.seq_inv
  obtain ⟨_, keyword, matched⟩ := matched.seq_inv
  obtain ⟨_, gap, matched⟩ := matched.seq_inv
  obtain ⟨_, nameGroup, matched⟩ := matched.seq_inv
  obtain ⟨_, indentRun, rfl⟩ := indentGroup.group_inv
  obtain ⟨indent, indentBlank, advancedIndent⟩ := indentRun.many_inv
  obtain ⟨visibility, shape, advancedVisibility⟩ := visibility_inv visibility
  obtain ⟨gap, gapNonempty, gapBlank, advancedGap⟩ := gap.many1_inv
  obtain ⟨inner, nameRun, rfl⟩ := nameGroup.group_inv
  obtain ⟨name, nameNonempty, nameWord, advancedName⟩ := nameRun.many1_inv
  have lead := ((advancedIndent.trans advancedVisibility).trans keyword.lit_inv).trans advancedGap
  have whole := lead.trans advancedName
  refine ⟨atStart, ⟨indent, visibility, gap, name, inner.cursor.after, indentBlank, shape, gapNonempty, gapBlank,
    nameNonempty, nameWord, by simpa only [List.append_assoc] using whole.after⟩, ?_⟩
  rw [matched.groups_eq rfl, List.find?_cons_of_pos _ (by simp), advancedName.pos, lead.pos]
  rfl

/-- Every record `extract_traits` returns comes from a header that starts a line, and is named
by the name of that header. -/
theorem extractTraits_header {filePath : String} {content : List Char} {trait : TraitInfo}
    (reported : trait ∈ extractTraits filePath content) :
    ∃ passed after, ∃ header : HeaderSplit after,
      content = passed ++ after ∧ atLineStart passed.reverse = true ∧ trait.name.data = header.name := by
  obtain ⟨found, member, rfl⟩ := List.mem_map.mp reported
  obtain ⟨passed, after, thread, rfl, matched, rfl⟩ := finditer_matches _ _ _ member
  obtain ⟨atStart, header, group⟩ := traitPattern_inv matched
  refine ⟨passed, after, header, rfl, atStart, ?_⟩
  rw [List.length_reverse] at group
  have split : passed ++ after = (passed ++ header.lead) ++ header.name ++ header.rest := by
    rw [List.append_assoc, List.append_assoc, ← List.append_assoc header.lead, ← header.split_lead]
  simp only [traitRecord, Found.group, group, split]
  simpa only [List.length_append] using slice_append_middle (passed ++ header.lead) header.name header.rest

/-- The name of a reported trait, as `main` passes it to `check_trait_usage`. -/
def TraitName.ofReported {filePath : String} {content : List Char} {trait : TraitInfo}
    (reported : trait ∈ extractTraits filePath content) : TraitName where
  chars := trait.name.data
  nonempty := by
    obtain ⟨_, _, header, -, -, named⟩ := extractTraits_header reported
    exact named ▸ header.name_nonempty
  word := by
    obtain ⟨_, _, header, -, -, named⟩ := extractTraits_header reported
    exact named ▸ header.name_word

/-- On an ASCII text, every trait `extract_traits` reports is named by a non-empty word that
follows `trait` and blanks in the text. Beyond ASCII, Python's `\w` also takes letters and
digits that `isWord` does not, and the name may hold them. -/
theorem extractTraits_name_word (filePath : String) (content : List Char) (trait : TraitInfo)
    (ascii : ∀ c ∈ content, c.toNat < 128) (reported : trait ∈ extractTraits filePath content) :
    trait.name.data ≠ [] ∧ (∀ c ∈ trait.name.data, isWord c = true) ∧
      ∃ front gap back, gap ≠ [] ∧ (∀ c ∈ gap, isSpace c = true) ∧
        content = front ++ "trait".toList ++ gap ++ trait.name.data ++ back := by
  obtain ⟨passed, after, header, rfl, -, named⟩ := extractTraits_header reported
  rw [named]
  refine ⟨header.name_nonempty, header.name_word, passed ++ header.indent ++ header.visibility, header.gap,
    header.rest, header.gap_nonempty, header.gap_blank, ?_⟩
  exact (congrArg (passed ++ ·) header.split).trans (by simp only [List.append_assoc])

def wordTrait : TraitInfo :=
  ⟨"Marker", "lib.rs", 1, 0, [], [], false, "pub trait Marker \x7b", ""⟩

theorem extractTraits_name_word_marker :
    (∀ c ∈ "pub trait Marker \x7b\x7d".toList, c.toNat < 128) ∧
      wordTrait ∈ extractTraits "lib.rs" "pub trait Marker \x7b\x7d".toList ∧ wordTrait.name.data ≠ [] ∧ (∀ c ∈ wordTrait.name.data, isWord c = true) ∧
      ∃ front gap back, gap ≠ [] ∧ (∀ c ∈ gap, isSpace c = true) ∧
        "pub trait Marker \x7b\x7d".toList = front ++ "trait".toList ++ gap ++ wordTrait.name.data ++ back :=
  ⟨by decide, by decide, extractTraits_name_word "lib.rs" _ wordTrait (by decide) (by decide)⟩

/-! ## No `unsafe trait` is reported

What a header allows before `trait` on its line, read backwards from the keyword, never ends
in `unsafe `: blanks take at most the last blank, and the character before them is a line
start, the `b` of `pub` or the `)` of its scope.
-/

/-- Blanks read backwards from a space followed by an `e` take at most the space. -/
theorem blank_absorbs_space (blanks rest tail : List Char) (blank : ∀ c ∈ blanks, isSpace c = true)
    (split : blanks.reverse ++ rest = ' ' :: 'e' :: tail) : rest = ' ' :: 'e' :: tail ∨ rest = 'e' :: tail := by
  rcases reversed : blanks.reverse with _ | ⟨x, _ | ⟨y, more⟩⟩ <;> rw [reversed] at split
  · exact .inl split
  · simp only [List.singleton_append, List.cons.injEq] at split
    exact .inr split.2
  · simp only [List.cons_append, List.cons.injEq] at split
    have inBlanks : y ∈ blanks := by rw [← List.mem_reverse, reversed]; simp
    exact absurd (split.2.1 ▸ blank y inBlanks) (by decide)

theorem lead_not_qualified {passed indent visibility : List Char} (atStart : atLineStart passed.reverse = true)
    (blank : ∀ c ∈ indent, isSpace c = true) (shape : Visibility visibility) :
    ¬ "unsafe ".toList <:+ passed ++ indent ++ visibility := by
  rw [← List.reverse_prefix]
  rintro ⟨tail, split⟩
  simp only [List.reverse_append, List.append_assoc] at split
  cases shape with
  | inherited =>
    rcases blank_absorbs_space indent passed.reverse ("fasnu".toList ++ tail) blank split.symm with behind | behind <;>
      simp [behind, atLineStart] at atStart
  | @pub scope gap scopeShape _ gapBlank =>
    simp only [List.reverse_append, List.append_assoc] at split
    have beforeGap := blank_absorbs_space gap _ _ gapBlank split.symm
    rcases scopeShape with rfl | ⟨inner, -, rfl⟩ <;> simp at beforeGap

/-- A text in which every `trait` follows `unsafe ` yields no trait: the header must reach the
keyword from a line start through blanks and `pub`, `pub(...)` only. -/
theorem extractTraits_eq_nil_of_qualified (filePath : String) (content : List Char)
    (qualified : ∀ i < content.length, "trait".toList <+: content.drop i → "unsafe ".toList <:+ content.take i) :
    extractTraits filePath content = [] := by
  refine List.eq_nil_iff_forall_not_mem.mpr fun trait reported => ?_
  obtain ⟨passed, after, header, rfl, atStart, -⟩ := extractTraits_header reported
  have split : passed ++ after =
      (passed ++ header.indent ++ header.visibility) ++ ("trait".toList ++ header.gap ++ header.name ++ header.rest) :=
    (congrArg (passed ++ ·) header.split).trans (by simp only [List.append_assoc])
  have follows := qualified (passed ++ header.indent ++ header.visibility).length
    (by rw [split]; simp)
    (by rw [split, List.drop_left]; simp [List.append_assoc])
  rw [split, List.take_left] at follows
  exact lead_not_qualified atStart header.indent_blank header.visibility_shape follows

/-- Two declarations, one of them public. -/
def markedTraits : List Char := "unsafe trait A {}
pub unsafe trait B {}".toList

theorem extractTraits_eq_nil_of_qualified_marked :
    (∀ i < markedTraits.length, "trait".toList <+: markedTraits.drop i → "unsafe ".toList <:+ markedTraits.take i) ∧
      extractTraits "lib.rs" markedTraits = [] :=
  have qualified : ∀ i < markedTraits.length, "trait".toList <+: markedTraits.drop i →
      "unsafe ".toList <:+ markedTraits.take i := by decide
  ⟨qualified, extractTraits_eq_nil_of_qualified "lib.rs" markedTraits qualified⟩

/-! ## What `main` counts for the traits it classifies -/

theorem collectTraits_reported {files : List SourceFile} {allTraits : List TraitInfo}
    (run : collectTraits files = .ok allTraits) :
    ∀ trait ∈ allTraits, ∃ file ∈ files, ∃ content, file.text = some content ∧
      trait ∈ extractTraits file.path content := by
  apply forEachRead_invariant _ _ files _ [] allTraits (fun _ member => absurd member (List.not_mem_nil _)) run
  intro traits file member content read earlier trait found
  rcases List.mem_append.mp found with old | new
  · exact earlier trait old
  · exact ⟨file, member, content, read, new⟩

/-- For every trait `main` classifies, `impl_count` is the number of lines on which its name
follows an `impl`, and `impl_files` lists the readable files with such a line: an extracted name
always meets what makes `impl.*{trait_name}` a count of lines. -/
theorem auditTraits_impl_lines (files : List SourceFile) (allTraits : List TraitInfo)
    (assessments : List Assessment) (run : auditTraits files = .ok (allTraits, assessments)) :
    ∀ assessment ∈ assessments,
      assessment.usage.implCount =
          ((readableTexts files).flatMap fun entry => implLines assessment.trait.name.toList entry.2).length ∧
        assessment.usage.implFiles =
          ((readableTexts files).filter fun entry =>
            0 < (implLines assessment.trait.name.toList entry.2).length).map (·.1) := by
  obtain ⟨collected, rfl⟩ := auditTraits_ok run
  simp only [List.mem_map, List.mem_filter]
  rintro _ ⟨trait, ⟨member, -⟩, rfl⟩
  obtain ⟨file, -, content, -, reported⟩ := collectTraits_reported collected trait member
  have nonempty : trait.name.toList ≠ [] := (TraitName.ofReported reported).nonempty
  have clean : '\n' ∉ trait.name.toList := (TraitName.ofReported reported).newline_not_mem
  simp only [checkTraitUsage, forEachReadable_countTraitUsage, UsagePatterns.empty, Nat.zero_add, List.nil_append,
    matchTotal_implPattern _ nonempty clean, matchPaths, implPattern_count _ nonempty clean, and_self]

theorem auditTraits_impl_lines_task :
    auditTraits taskCorpus = .ok ([taskTrait], [taskAssessment]) ∧
      ∀ assessment ∈ [taskAssessment],
        assessment.usage.implCount =
            ((readableTexts taskCorpus).flatMap fun entry => implLines assessment.trait.name.toList entry.2).length ∧
          assessment.usage.implFiles =
            ((readableTexts taskCorpus).filter fun entry =>
              0 < (implLines assessment.trait.name.toList entry.2).length).map (·.1) :=
  have run : auditTraits taskCorpus = .ok ([taskTrait], [taskAssessment]) := rfl
  ⟨run, auditTraits_impl_lines taskCorpus _ _ run⟩

end SourceAudit.Traits
