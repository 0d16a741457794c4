import SourceAudit.Traits.Extract

/-! `analyze_trait_necessity` of `audit_traits.py`: six rules collect keep and remove
reasons, then a threshold decision picks the category.

Usage counts are natural numbers: `check_trait_usage` only ever adds match counts
to zero.
-/

set_option autoImplicit false

namespace SourceAudit.Traits

/-- The `usage_patterns` dictionary of `check_trait_usage`. -/
structure UsagePatterns where
  implCount : Nat
  dynUsage : Nat
  boundUsage : Nat
  implFiles : List String
  dynFiles : List String
  boundFiles : List String
  deriving DecidableEq, Repr

inductive Category where
  | definitelyRemove
  | maybeRemove
  | keepAsIs
  deriving DecidableEq, Repr

/-- The triple `analyze_trait_necessity` returns. -/
structure Necessity where
  category : Category
  keepReasons : List String
  removeReasons : List String
  deriving DecidableEq, Repr

/-- The `if impl_count > 1 / elif == 0 / elif == 1` chain, as (keep, remove) reasons. -/
def implementationReasons (implCount : Nat) : List String × List String :=
  if implCount > 1 then (["Multiple implementations (" ++ toString implCount ++ ")"], [])
  else if implCount = 0 then ([], ["No implementations found"])
  else if implCount = 1 then ([], ["Only one implementation"])
  else ([], [])

/-- The decision on the collected reasons. -/
def recommend (keep remove : List String) : Category :=
  if keep.isEmpty && !remove.isEmpty then .definitelyRemove
  else if keep.length ≤ 1 && 2 ≤ remove.length then .maybeRemove
  else .keepAsIs

def analyzeTraitNecessity (traitInfo : TraitInfo) (usage : UsagePatterns) : Necessity :=
  let single := if traitInfo.methodCount = 1 then ["Single method trait"] else []
  let assoc := if traitInfo.assocTypes.isEmpty then []
    else ["Has associated types: " ++ ", ".intercalate traitInfo.assocTypes]
  let generics := if traitInfo.hasGenerics then ["Uses generics/lifetimes"] else []
  let dyn := if usage.dynUsage > 0 then
    ["Used in trait objects (" ++ toString usage.dynUsage ++ " times)"] else []
  let implementations := implementationReasons usage.implCount
  let bound := if usage.boundUsage > 2 then
    ["Used as trait bound (" ++ toString usage.boundUsage ++ " times)"] else []
  let keep := assoc ++ generics ++ dyn ++ implementations.1 ++ bound
  let remove := single ++ implementations.2
  ⟨recommend keep remove, keep, remove⟩

/-- The order `DEFINITELY_REMOVE < MAYBE_REMOVE < KEEP_AS_IS`. -/
def Category.rank : Category → Nat
  | .definitelyRemove => 0
  | .maybeRemove => 1
  | .keepAsIs => 2

/-! ## Reason counts -/

/-- Indicator of a condition, as the length of a one-reason list. -/
def flag (condition : Prop) [Decidable condition] : Nat := if condition then 1 else 0

theorem length_ite_singleton (condition : Prop) [Decidable condition] (reason : String) :
    (if condition then [reason] else []).length = flag condition := by
  unfold flag; split_ifs <;> rfl

theorem implementationReasons_keep_length (implCount : Nat) :
    (implementationReasons implCount).1.length = flag (1 < implCount) := by
  unfold implementationReasons flag; split_ifs <;> rfl

theorem implementationReasons_remove_length (implCount : Nat) :
    (implementationReasons implCount).2.length = flag (implCount ≤ 1) := by
  unfold implementationReasons flag; split_ifs <;> first | rfl | omega

theorem implementationReasons_length (implCount : Nat) :
    (implementationReasons implCount).1.length + (implementationReasons implCount).2.length = 1 := by
  rw [implementationReasons_keep_length, implementationReasons_remove_length]
  unfold flag; split_ifs <;> omega

theorem keepReasons_length (traitInfo : TraitInfo) (usage : UsagePatterns) :
    (analyzeTraitNecessity traitInfo usage).keepReasons.length =
      flag (traitInfo.assocTypes ≠ []) + flag (traitInfo.hasGenerics = true) +
        flag (0 < usage.dynUsage) + flag (1 < usage.implCount) + flag (2 < usage.boundUsage) := by
  simp only [analyzeTraitNecessity, List.length_append, length_ite_singleton,
    implementationReasons_keep_length]
  cases traitInfo.assocTypes <;> simp [flag]

theorem removeReasons_length (traitInfo : TraitInfo) (usage : UsagePatterns) :
    (analyzeTraitNecessity traitInfo usage).removeReasons.length =
      flag (traitInfo.methodCount = 1) + flag (usage.implCount ≤ 1) := by
  simp only [analyzeTraitNecessity, List.length_append, length_ite_singleton,
    implementationReasons_remove_length]

theorem category_eq_recommend (traitInfo : TraitInfo) (usage : UsagePatterns) :
    (analyzeTraitNecessity traitInfo usage).category =
      recommend (analyzeTraitNecessity traitInfo usage).keepReasons
        (analyzeTraitNecessity traitInfo usage).removeReasons := rfl

theorem recommend_eq (keep remove : List String) :
    recommend keep remove =
      if keep.length = 0 ∧ remove.length ≠ 0 then .definitelyRemove
      else if keep.length ≤ 1 ∧ 2 ≤ remove.length then .maybeRemove else .keepAsIs := by
  have empty (reasons : List String) : reasons.isEmpty = decide (reasons.length = 0) := by
    cases reasons <;> rfl
  simp only [recommend, empty, Bool.and_eq_true, Bool.not_eq_true', decide_eq_true_eq,
    decide_eq_false_iff_not]

theorem recommend_rank_mono {keep keep' remove remove' : List String}
    (moreKeep : keep.length ≤ keep'.length) (fewerRemove : remove'.length ≤ remove.length) :
    (recommend keep remove).rank ≤ (recommend keep' remove').rank := by
  rw [recommend_eq, recommend_eq]
  split_ifs <;> simp only [Category.rank] <;> omega

/-- What each category says about the reasons, once there is at least one reason. -/
theorem recommend_reasons {keep remove : List String} (some : 1 ≤ keep.length + remove.length) :
    (recommend keep remove = .keepAsIs → keep ≠ []) ∧
      (recommend keep remove = .definitelyRemove → keep = [] ∧ remove ≠ []) ∧
      (recommend keep remove = .maybeRemove → keep.length ≤ 1 ∧ 2 ≤ remove.length) := by
  rw [recommend_eq]
  simp only [← List.length_eq_zero, ne_eq]
  split_ifs <;> simp only [reduceCtorEq, false_implies, true_implies, and_true, true_and] <;> omega

/-! ## Monotonicity of the decision -/

/-- One keep-side signal made stronger, every other input held. -/
inductive Strengthens : TraitInfo → UsagePatterns → TraitInfo → UsagePatterns → Prop where
  | implCount {traitInfo : TraitInfo} {usage : UsagePatterns} {count : Nat} :
      usage.implCount ≤ count → Strengthens traitInfo usage traitInfo { usage with implCount := count }
  | dynUsage {traitInfo : TraitInfo} {usage : UsagePatterns} {count : Nat} :
      usage.dynUsage ≤ count → Strengthens traitInfo usage traitInfo { usage with dynUsage := count }
  | boundUsage {traitInfo : TraitInfo} {usage : UsagePatterns} {count : Nat} :
      usage.boundUsage ≤ count → Strengthens traitInfo usage traitInfo { usage with boundUsage := count }
  | assocTypes {traitInfo : TraitInfo} {usage : UsagePatterns} {names : List String} :
      names ≠ [] → Strengthens traitInfo usage { traitInfo with assocTypes := names } usage
  | hasGenerics {traitInfo : TraitInfo} {usage : UsagePatterns} :
      Strengthens traitInfo usage { traitInfo with hasGenerics := true } usage

theorem flag_mono {first second : Prop} [Decidable first] [Decidable second] (implies : first → second) :
    flag first ≤ flag second := by
  unfold flag; split_ifs <;> simp_all

theorem Strengthens.reasons {traitInfo traitInfo' : TraitInfo} {usage usage' : UsagePatterns}
    (stronger : Strengthens traitInfo usage traitInfo' usage') :
    (analyzeTraitNecessity traitInfo usage).keepReasons.length ≤
        (analyzeTraitNecessity traitInfo' usage').keepReasons.length ∧
      (analyzeTraitNecessity traitInfo' usage').removeReasons.length ≤
        (analyzeTraitNecessity traitInfo usage).removeReasons.length := by
  cases stronger with
  | @implCount count more =>
    have := flag_mono (show 1 < usage.implCount → 1 < count by omega)
    have := flag_mono (show count ≤ 1 → usage.implCount ≤ 1 by omega)
    simp only [keepReasons_length, removeReasons_length]; omega
  | @dynUsage count more =>
    have := flag_mono (show 0 < usage.dynUsage → 0 < count by omega)
    simp only [keepReasons_length, removeReasons_length]; omega
  | @boundUsage count more =>
    have := flag_mono (show 2 < usage.boundUsage → 2 < count by omega)
    simp only [keepReasons_length, removeReasons_length]; omega
  | @assocTypes names nonempty =>
    have := flag_mono (fun (_ : traitInfo.assocTypes ≠ []) => nonempty)
    simp only [keepReasons_length, removeReasons_length]; omega
  | hasGenerics =>
    have := flag_mono (fun (_ : traitInfo.hasGenerics = true) => trivial)
    simp only [keepReasons_length, removeReasons_length]; omega

/-- Strengthening a keep-side signal never lowers the category; making the trait a
single-method one never raises it. -/
theorem analyzeTraitNecessity_monotone :
    (∀ traitInfo usage traitInfo' usage', Strengthens traitInfo usage traitInfo' usage' →
      (analyzeTraitNecessity traitInfo usage).category.rank ≤
        (analyzeTraitNecessity traitInfo' usage').category.rank) ∧
    ∀ traitInfo usage, (analyzeTraitNecessity { traitInfo with methodCount := 1 } usage).category.rank ≤
      (analyzeTraitNecessity traitInfo usage).category.rank := by
  refine ⟨fun traitInfo usage traitInfo' usage' stronger => ?_, fun traitInfo usage => ?_⟩
  · rw [category_eq_recommend, category_eq_recommend]
    exact recommend_rank_mono stronger.reasons.1 stronger.reasons.2
  · rw [category_eq_recommend, category_eq_recommend]
    have := flag_mono (fun (_ : traitInfo.methodCount = 1) => trivial)
    refine recommend_rank_mono ?_ ?_
    · simp only [keepReasons_length, le_refl]
    · simp only [removeReasons_length]; omega

/-! ## Every trait gets a reason -/

/-- The implementation-count chain contributes exactly one reason: more than one implementation
is a keep reason, none and exactly one are remove reasons. So there is always a reason, and
each category is backed by the reasons its threshold names. -/
theorem analyzeTraitNecessity_reasons (traitInfo : TraitInfo) (usage : UsagePatterns) :
    let result := analyzeTraitNecessity traitInfo usage;
    (implementationReasons usage.implCount).1.length +
        (implementationReasons usage.implCount).2.length = 1 ∧
      List.Sublist (implementationReasons usage.implCount).1 result.keepReasons ∧
      List.Sublist (implementationReasons usage.implCount).2 result.removeReasons ∧
      (1 < usage.implCount →
        "Multiple implementations (" ++ toString usage.implCount ++ ")" ∈ result.keepReasons) ∧
      (usage.implCount = 0 → "No implementations found" ∈ result.removeReasons) ∧
      (usage.implCount = 1 → "Only one implementation" ∈ result.removeReasons) ∧
      (result.keepReasons ≠ [] ∨ result.removeReasons ≠ []) ∧
      (result.category = .keepAsIs → result.keepReasons ≠ []) ∧
      (result.category = .definitelyRemove → result.keepReasons = [] ∧ result.removeReasons ≠ []) ∧
      (result.category = .maybeRemove →
        result.keepReasons.length ≤ 1 ∧ 2 ≤ result.removeReasons.length) := by
  intro result
  have keep : List.Sublist (implementationReasons usage.implCount).1 result.keepReasons :=
    (List.sublist_append_right _ _).trans (List.sublist_append_left _ _)
  have remove : List.Sublist (implementationReasons usage.implCount).2 result.removeReasons :=
    List.sublist_append_right _ _
  have one := implementationReasons_length usage.implCount
  have some : 1 ≤ result.keepReasons.length + result.removeReasons.length := by
    have := keep.length_le; have := remove.length_le; omega
  refine ⟨one, keep, remove, fun many => keep.subset ?_, fun none => remove.subset ?_,
    fun single => remove.subset ?_, ?_, recommend_reasons some⟩
  · simp [implementationReasons, many]
  · simp [implementationReasons, none]
  · simp [implementationReasons, single]
  · simp only [ne_eq, ← List.length_eq_zero]
    omega

/-! ## Single-method traits -/

/-- `main` classifies single-method traits only. For them the remove side always holds
"Single method trait", so the category depends on the number of keep rules that fire and,
when exactly one does, on whether the implementation chain adds a second remove reason. -/
theorem singleMethod_category (traitInfo : TraitInfo) (usage : UsagePatterns) (single : traitInfo.methodCount = 1) :
    (analyzeTraitNecessity traitInfo usage).category =
      let keep := flag (traitInfo.assocTypes ≠ []) + flag (traitInfo.hasGenerics = true) +
        flag (0 < usage.dynUsage) + flag (1 < usage.implCount) + flag (2 < usage.boundUsage)
      if keep = 0 then .definitelyRemove
      else if keep = 1 ∧ usage.implCount ≤ 1 then .maybeRemove
      else .keepAsIs := by
  rw [category_eq_recommend, recommend_eq, keepReasons_length, removeReasons_length,
    show flag (traitInfo.methodCount = 1) = 1 from if_pos single]
  generalize flag (traitInfo.assocTypes ≠ []) + flag (traitInfo.hasGenerics = true) +
    flag (0 < usage.dynUsage) = other
  by_cases few : usage.implCount ≤ 1
  · rw [show flag (usage.implCount ≤ 1) = 1 from if_pos few,
      show flag (1 < usage.implCount) = 0 from if_neg (by omega)]
    rcases other + 0 + flag (2 < usage.boundUsage) with _ | _ | more <;> simp [few]
  · rw [show flag (usage.implCount ≤ 1) = 0 from if_neg few,
      show flag (1 < usage.implCount) = 1 from if_pos (by omega)]
    simp [few]

end SourceAudit.Traits
