import SourceAudit.Traits.Classify

/-! What `trait_pattern` takes as a trait header.

`(?:<[^>]*>)?` stops at the first `>` after `<`. When that `>` closes a nested generic, what
follows it cannot continue the header, and backtracking finds nothing else: the trait is never
reported. `has_generics` tests the whole matched header for `<`, and a header runs through its
supertrait bound up to `{`, so a generic argument in the bound sets it.
-/

set_option autoImplicit false

namespace SourceAudit.Traits

/-- `\s*(?::\s*[^{]*)?{` from a character that is not whitespace, `:` or `{`. -/
theorem walk_headerEnd_none (before : List Char) (d : Char) (rest : List Char) (groups : List (Nat × Nat × Nat))
    (k : Thread → Option Thread) (space : isSpace d = false) (colon : d ≠ ':') (brace : d ≠ '{') :
    (Re.seq (.many isSpace) (.seq (.opt (.seqs [.char ':', .many isSpace, .many (· != '{')]))
      (.seq (.char '{') .empty))).walk ⟨⟨before, d :: rest⟩, groups⟩ k = none := by
  simp [Re.walk_many, manyFrom, space, Re.opt, Re.walk_alt, Re.seqs, Re.char, Re.walk_cls_cons, colon, brace]

/-- `(?:<[^>]*>)?\s*(?::\s*[^{]*)?{` where the first `>` after `<` is followed by a character
that is not whitespace, `:` or `{`, as when a nested generic closes: `[^>]*` stops at that
`>`, and skipping the group leaves `<` in the way. -/
theorem walk_headerTail_nested (before params rest : List Char) (c : Char) (groups : List (Nat × Nat × Nat))
    (k : Thread → Option Thread) (unclosed : '>' ∉ params) (space : isSpace c = false) (colon : c ≠ ':')
    (brace : c ≠ '{') :
    (Re.seq (.opt (.seqs [.char '<', .many (· != '>'), .char '>']))
      (.seq (.many isSpace) (.seq (.opt (.seqs [.char ':', .many isSpace, .many (· != '{')]))
        (.seq (.char '{') .empty)))).walk ⟨⟨before, '<' :: (params ++ '>' :: c :: rest)⟩, groups⟩ k = none := by
  rw [Re.walk_seq, Re.opt, Re.walk_alt, Re.walk_empty,
    walk_headerEnd_none _ _ _ _ _ (by decide) (by decide) (by decide)]
  simp only [Re.seqs, Re.walk_seq, Re.char, Re.walk_cls_cons, beq_self_eq_true, if_true, Re.walk_many]
  rw [Re.manyFrom_none _ _ _ _ params _ (fun x member => by
      simp only [bne_iff_ne, ne_eq]; rintro rfl; exact unclosed member) (by simp) fun i within => ?_]
  · rfl
  rcases Nat.lt_or_ge i params.length with inside | atEnd
  · rw [List.drop_eq_getElem_cons inside, List.cons_append, Re.walk_cls_cons,
      if_neg (by simp only [beq_iff_eq]; rintro same; exact unclosed (same ▸ List.getElem_mem inside))]
  · rw [List.drop_of_length_le atEnd, List.nil_append, Re.walk_cls_cons, if_pos (beq_self_eq_true _), Re.walk_empty]
    exact walk_headerEnd_none _ _ _ _ _ space colon brace

theorem walk_headerTail_word (before after : List Char) (d : Char) (groups : List (Nat × Nat × Nat))
    (k : Thread → Option Thread) (word : isWord d = true) :
    (Re.seq (.opt (.seqs [.char '<', .many (· != '>'), .char '>']))
      (.seq (.many isSpace) (.seq (.opt (.seqs [.char ':', .many isSpace, .many (· != '{')]))
        (.seq (.char '{') .empty)))).walk ⟨⟨before, d :: after⟩, groups⟩ k = none := by
  have differs : ∀ other, isWord other = false → d ≠ other := fun other notWord same => by
    rw [same, notWord] at word; cases word
  rw [Re.walk_seq, Re.opt, Re.walk_alt, Re.walk_empty, walk_headerEnd_none _ _ _ _ _ (isWord_not_space d word)
    (differs ':' (by decide)) (differs '{' (by decide))]
  simp [Re.seqs, Re.char, Re.walk_cls_cons, differs '<' (by decide)]

/-- After `trait`: one space, a name, and a generic list whose first `>` is followed by a
character that is not whitespace, `:` or `{`. Every shorter name leaves a word character in
front of the rest of the header, and the full one reaches the nested list. -/
theorem walk_afterTrait_nested (before name params rest : List Char) (c : Char) (groups : List (Nat × Nat × Nat))
    (k : Thread → Option Thread) (named : name ≠ []) (word : ∀ x ∈ name, isWord x = true)
    (unclosed : '>' ∉ params) (space : isSpace c = false) (colon : c ≠ ':') (brace : c ≠ '{') :
    (Re.seq (Re.many1 isSpace) (.seq (.group 2 (Re.many1 isWord))
      (.seq (.opt (.seqs [.char '<', .many (· != '>'), .char '>']))
        (.seq (.many isSpace) (.seq (.opt (.seqs [.char ':', .many isSpace, .many (· != '{')]))
          (.seq (.char '{') .empty)))))).walk
      ⟨⟨before, ' ' :: (name ++ '<' :: (params ++ '>' :: c :: rest))⟩, groups⟩ k = none := by
  obtain ⟨first, name, rfl⟩ := List.exists_cons_of_ne_nil named
  have firstWord := word first (List.mem_cons_self _ _)
  simp only [Re.many1, Re.walk_seq, Re.walk_cls_cons, show isSpace ' ' = true from rfl, if_true, Re.walk_many,
    List.cons_append]
  rw [manyFrom, if_neg (by simp [isWord_not_space first firstWord]), Re.walk_group, Re.walk_seq,
    Re.walk_cls_cons, if_pos firstWord, Re.walk_many]
  refine Re.manyFrom_none _ _ _ _ name _ (fun x member => word x (List.mem_cons_of_mem _ member))
    (fun x atNext => by cases atNext; decide)
    fun i within => ?_
  rcases Nat.lt_or_ge i name.length with inside | atEnd
  · rw [List.drop_eq_getElem_cons inside, List.cons_append]
    exact walk_headerTail_word _ _ _ _ _ (word _ (List.mem_cons_of_mem _ (List.getElem_mem inside)))
  · rw [List.drop_of_length_le atEnd, List.nil_append]
    exact walk_headerTail_nested _ _ _ _ _ _ unclosed space colon brace

section
variable (text pre name params rest : List Char) (c : Char)
  (shape : text = pre ++ "trait ".toList ++ name ++ '<' :: params ++ '>' :: c :: rest)
  (named : name ≠ []) (word : ∀ x ∈ name, isWord x = true) (unclosed : '>' ∉ params)
  (follows : isSpace c = false ∧ c ≠ ':' ∧ c ≠ '{')
  (once : ∀ i < text.length, "trait".toList <+: text.drop i → i = pre.length)
include shape named word unclosed follows once

/-- No match of `trait_pattern` starts anywhere in a text whose only `trait` opens such a
header: whatever `^\s*` and the optional `pub` take, the literal `trait` is met only there. -/
theorem traitPattern_matchAt_nested (before after : List Char) (later : after <:+ text) :
    traitPattern.matchAt ⟨before, after⟩ = none := by
  rw [Re.matchAt, traitPattern, Re.seqs, Re.walk_seq]
  refine Re.walk_of_suffix _ _ _ fun first atFirst => ?_
  rw [Re.seqs, Re.walk_seq]
  refine Re.walk_of_suffix _ _ _ fun second atSecond => ?_
  rw [Re.seqs, Re.walk_seq]
  refine Re.walk_of_suffix _ _ _ fun ⟨⟨third, rest'⟩, groups⟩ atThird => ?_
  rw [Re.seqs, Re.walk_seq]
  have inText : rest' <:+ text := atThird.trans (atSecond.trans (atFirst.trans later))
  by_cases starts : "trait".toList <+: rest'
  · obtain ⟨tail, rfl⟩ := starts
    have shorter := inText.length_le
    have position := once (text.length - ("trait".toList ++ tail).length) (by simp at shorter ⊢; omega)
      (by rw [← List.suffix_iff_eq_drop.mp inText]; exact List.prefix_append _ _)
    have atHeader : "trait".toList ++ tail = text.drop pre.length := by
      rw [← position]; exact List.suffix_iff_eq_drop.mp inText
    have header : tail = ' ' :: (name ++ '<' :: (params ++ '>' :: c :: rest)) := by
      rw [shape] at atHeader
      simpa using atHeader
    rw [Re.walk_lit_append, header]
    exact walk_afterTrait_nested _ _ _ _ _ _ _ named word unclosed follows.1 follows.2.1 follows.2.2
  · exact Re.walk_lit_mismatch _ _ _ _ _ starts

/-- A trait whose generic parameters close a nested generic, as in
`trait Handler<T: Into<String>> {`, is never reported: `(?:<[^>]*>)?` stops at the first
`>`, and what follows it cannot continue the header. -/
theorem extractTraits_nested_generics (filePath : String) : extractTraits filePath text = [] := by
  rw [extractTraits, Re.finditer, Re.scan_none _ _ _ fun k _ =>
    traitPattern_matchAt_nested text pre name params rest c shape named word unclosed follows once _ _
      (List.drop_suffix _ _)]
  rfl

end

/-- A public trait with a bound on its parameter. -/
def handlerTrait : List Char :=
  "pub trait Handler<T: Into<String>> \x7b\n    fn handle(&self, t: T);\n\x7d\n".toList

theorem extractTraits_nested_generics_handler :
    handlerTrait = "pub ".toList ++ "trait ".toList ++ "Handler".toList ++ '<' :: "T: Into<String".toList ++
      '>' :: '>' :: " \x7b\n    fn handle(&self, t: T);\n\x7d\n".toList ∧
    "Handler".toList ≠ [] ∧ (∀ x ∈ "Handler".toList, isWord x = true) ∧ '>' ∉ "T: Into<String".toList ∧
    (isSpace '>' = false ∧ '>' ≠ ':' ∧ '>' ≠ '\x7b') ∧
    (∀ i < handlerTrait.length, "trait".toList <+: handlerTrait.drop i → i = "pub ".toList.length) ∧
    extractTraits "lib.rs" handlerTrait = [] :=
  have shape : handlerTrait = "pub ".toList ++ "trait ".toList ++ "Handler".toList ++ '<' :: "T: Into<String".toList ++
      '>' :: '>' :: " \x7b\n    fn handle(&self, t: T);\n\x7d\n".toList := rfl
  have once : ∀ i < handlerTrait.length, "trait".toList <+: handlerTrait.drop i → i = "pub ".toList.length := by
    decide
  ⟨shape, by decide, by decide, by decide, by decide, once,
    extractTraits_nested_generics handlerTrait _ _ _ _ _ shape (by decide) (by decide) (by decide) (by decide) once
      "lib.rs"⟩

/-- `(?::\s*[^{]*)?{` over `:`, a bound free of `{`, and `{`: `\s*` takes the bound's leading
whitespace and `[^{]*` the rest of it. -/
theorem walk_boundEnd (before bound rest : List Char) (groups : List (Nat × Nat × Nat)) (noBrace : '{' ∉ bound) :
    (Re.seq (.opt (.seqs [.char ':', .many isSpace, .many (· != '{')])) (.seq (.char '{') .empty)).walk
      ⟨⟨before, ':' :: (bound ++ '{' :: rest)⟩, groups⟩ some =
      some ⟨⟨'{' :: (bound.reverse ++ ':' :: before), rest⟩, groups⟩ := by
  have split := List.takeWhile_append_dropWhile isSpace bound
  simp only [Re.walk_seq, Re.opt, Re.walk_alt, Re.seqs, Re.char, Re.walk_cls_cons, beq_self_eq_true, if_true,
    Re.walk_many]
  have final : some (⟨⟨'{' :: (bound.reverse ++ ':' :: before), rest⟩, groups⟩ : Thread) =
      some ⟨⟨'{' :: ((bound.dropWhile isSpace).reverse ++ ((bound.takeWhile isSpace).reverse ++ ':' :: before)), rest⟩,
        groups⟩ := by
    rw [← List.append_assoc, ← List.reverse_append, split]
  have stop : ∀ x ∈ (bound.dropWhile isSpace ++ '{' :: rest).head?, isSpace x = false := by
    cases dropped : bound.dropWhile isSpace with
    | nil => intro x atHead; cases atHead; rfl
    | cons x more =>
      intro y atHead
      cases atHead
      simpa [dropped] using List.head_dropWhile_not isSpace bound (by simp [dropped])
  conv_lhs => rw [← split, List.append_assoc]
  rw [final, Re.manyFrom_run _ _ _ _ _ _ _ (fun x member => List.mem_takeWhile_imp member) stop]
  · rfl
  rw [Re.walk_many]
  refine Re.manyFrom_run _ _ _ _ _ _ _ (fun x member => ?_) (fun x atHead => by cases atHead; rfl) rfl
  simp only [bne_iff_ne, ne_eq]
  rintro rfl
  exact noBrace ((List.dropWhile_suffix isSpace).subset member)

/-- From the start of a text of whitespace, `trait `, a name, `:`, a bound free of `{`, and
`{`: the header runs to that `{`, bound included. -/
theorem traitPattern_matchAt_bound (blank name bound rest : List Char) (spaces : ∀ c ∈ blank, isSpace c = true)
    (named : name ≠ []) (word : ∀ c ∈ name, isWord c = true) (noBrace : '{' ∉ bound) :
    traitPattern.matchAt ⟨[], blank ++ "trait ".toList ++ name ++ ':' :: bound ++ '{' :: rest⟩ =
      some ⟨⟨(blank ++ "trait ".toList ++ name ++ ':' :: bound ++ ['{']).reverse, rest⟩,
        [(2, blank.length + 6, blank.length + 6 + name.length), (1, 0, blank.length)]⟩ := by
  obtain ⟨first, name, rfl⟩ := List.exists_cons_of_ne_nil named
  have firstWord := word first (List.mem_cons_self _ _)
  simp only [Re.matchAt, traitPattern, Re.seqs, Re.walk_seq, Re.walk_group, Re.walk_empty, Re.walk_lineStart,
    atLineStart, if_true, Re.walk_many, List.append_assoc]
  refine Re.manyFrom_run _ _ _ _ blank _ _ spaces (fun c found => by cases found; rfl) ?_
  have notPub : ¬ "pub".toList <+: "trait ".toList ++ (first :: name ++ (':' :: bound ++ '{' :: rest)) := by
    rintro ⟨_, split⟩; cases split
  rw [Re.walk_opt_of_none _ _ _ (by simp only [Re.walk_seq]; exact Re.walk_lit_mismatch _ _ _ _ _ notPub),
    show "trait ".toList ++ (first :: name ++ (':' :: bound ++ '{' :: rest)) =
      "trait".toList ++ (' ' :: first :: name ++ ':' :: (bound ++ '{' :: rest)) from rfl, Re.walk_lit_append]
  simp only [Re.many1, Re.walk_seq, List.cons_append, Re.walk_cls_cons, Re.walk_many,
    show isSpace ' ' = true from rfl, if_true]
  rw [manyFrom, if_neg (by simp [isWord_not_space first firstWord])]
  simp only [Re.walk_cls_cons, firstWord, if_true, Re.walk_many]
  refine Re.manyFrom_run _ _ _ _ name _ _ (fun c member => word c (List.mem_cons_of_mem _ member))
    (fun c found => by cases found; rfl) ?_
  simp only [Re.opt, Re.walk_alt, Re.char, Re.walk_cls_cons, show (':' == '<') = false from rfl, Re.walk_empty,
    Option.none_orElse, manyFrom, show isSpace ':' = false from rfl, if_false, Bool.false_eq_true]
  refine (walk_boundEnd _ bound rest _ noBrace).trans ?_
  simp [Cursor.pos]
  omega

/-- A generic argument in a supertrait bound, as in `trait Named: AsRef<str> {`, makes
`has_generics` true: it tests the whole matched header, bound included. The classifier then
always has the keep reason "Uses generics/lifetimes", so the trait is never
`DEFINITELY_REMOVE`, whatever its usage. -/
theorem extractTraits_bound_generics (filePath : String) (blank name bound rest : List Char)
    (spaces : ∀ c ∈ blank, isSpace c = true) (named : name ≠ []) (word : ∀ c ∈ name, isWord c = true)
    (noBrace : '{' ∉ bound) :
    (extractTraits filePath (blank ++ "trait ".toList ++ name ++ ':' :: bound ++ '{' :: rest)).head?.map
        (fun trait => (trait.name, trait.hasGenerics)) = some (String.mk name, bound.contains '<') ∧
      ∀ trait ∈ (extractTraits filePath (blank ++ "trait ".toList ++ name ++ ':' :: bound ++ '{' :: rest)).head?,
        '<' ∈ bound → ∀ usage, (analyzeTraitNecessity trait usage).category ≠ .definitelyRemove := by
  have matched := traitPattern_matchAt_bound blank name bound rest spaces named word noBrace
  obtain ⟨c, after, split⟩ := List.exists_cons_of_ne_nil
    (show blank ++ "trait ".toList ++ name ++ ':' :: bound ++ '{' :: rest ≠ [] by simp)
  have notBlank : '<' ∉ blank := fun inBlank => absurd (spaces _ inBlank) (by decide)
  have notName : '<' ∉ name := fun inName => absurd (word _ inName) (by decide)
  have first : (extractTraits filePath (blank ++ "trait ".toList ++ name ++ ':' :: bound ++ '{' :: rest)).head?.map
      (fun trait => (trait.name, trait.hasGenerics)) = some (String.mk name, bound.contains '<') := by
    rw [extractTraits, Re.finditer, split, Re.scan_found _ _ _ _ _ (split ▸ matched)]
    simp only [List.map_cons, List.head?_cons, Option.map_some', traitRecord]
    have header : blank ++ "trait ".toList ++ name ++ ':' :: bound ++ '{' :: rest =
        (blank ++ "trait ".toList ++ name ++ ':' :: bound ++ ['{']) ++ rest := by simp
    rw [← split]
    simp only [Found.group, slice, Cursor.pos, List.length_reverse, List.length_nil, List.drop_zero, Nat.sub_zero]
    rw [header, List.take_left]
    simp [notBlank, notName]
  refine ⟨first, fun trait atHead generic usage => ?_⟩
  rw [Option.mem_def.mp atHead] at first
  have flagged : trait.hasGenerics = true := by
    simp only [Option.map_some', Option.some.injEq, Prod.mk.injEq] at first
    rw [first.2]
    exact List.elem_iff.mpr generic
  have kept : (analyzeTraitNecessity trait usage).keepReasons.isEmpty = false := by
    simp [analyzeTraitNecessity, flagged]
  rw [category_eq_recommend, recommend, kept, Bool.false_and, if_neg Bool.false_ne_true]
  split_ifs <;> decide

/-- A trait with no parameters and a generic supertrait bound. -/
def namedTrait : List Char := " AsRef<str> ".toList

theorem extractTraits_bound_generics_named :
    (∀ c ∈ ([] : List Char), isSpace c = true) ∧ "Named".toList ≠ [] ∧ (∀ c ∈ "Named".toList, isWord c = true) ∧
      '\x7b' ∉ namedTrait ∧
      ((extractTraits "lib.rs" ([] ++ "trait ".toList ++ "Named".toList ++ ':' :: namedTrait ++ '\x7b' ::
          "\n    fn name(&self) -> &str;\n\x7d\n".toList)).head?.map
          (fun trait => (trait.name, trait.hasGenerics)) = some (String.mk "Named".toList, namedTrait.contains '<') ∧
        ∀ trait ∈ (extractTraits "lib.rs" ([] ++ "trait ".toList ++ "Named".toList ++ ':' :: namedTrait ++ '\x7b' ::
          "\n    fn name(&self) -> &str;\n\x7d\n".toList)).head?,
          '<' ∈ namedTrait → ∀ usage, (analyzeTraitNecessity trait usage).category ≠ .definitelyRemove) :=
  ⟨by decide, by decide, by decide, by decide,
    extractTraits_bound_generics "lib.rs" [] "Named".toList namedTrait "\n    fn name(&self) -> &str;\n\x7d\n".toList
      (by decide) (by decide) (by decide) (by decide)⟩

end SourceAudit.Traits
