import Mathlib.Data.List.Basic
import Mathlib.Data.List.Dedup

/-! `defaultdict(list)` as the reports of the scripts fill it, and the ranking
`sorted(groups.items(), key=lambda x: len(x[1]), reverse=True)`.

A dict is an association list in insertion order. Appending under a key seen for the first
time stores the key last, and so does merely reading `groups[key]` for a missing key.
`sorted` is stable, as `List.mergeSort` is, so groups of one size keep the order in which
their keys were first seen.
-/

set_option autoImplicit false

namespace SourceAudit

section Dict

variable {K V : Type} [DecidableEq K]

/-- `groups[key]` used as a place: the list under `key`, `[]` stored first when the key is
missing, replaced by `update` of it. -/
def updateAt (key : K) (update : List V → List V) : List (K × List V) → List (K × List V)
  | [] => [(key, update [])]
  | (other, values) :: rest =>
    if other = key then (other, update values) :: rest else (other, values) :: updateAt key update rest

/-- `groups[key].append(value)`. -/
def appendAt (key : K) (value : V) : List (K × List V) → List (K × List V) := updateAt key (· ++ [value])

/-- Reading `groups[key]`: a missing key is stored with `[]`. -/
def touch (key : K) : List (K × List V) → List (K × List V) := updateAt key id

def groupOf (key : K) : List (K × List V) → List V
  | [] => []
  | (other, values) :: rest => if other = key then values else groupOf key rest

/-- `for value in values: groups[key(value)].append(value)`. -/
def groupInto (key : V → K) (groups : List (K × List V)) (values : List V) : List (K × List V) :=
  values.foldl (fun groups value => appendAt (key value) value groups) groups

/-- The same loop from an empty `defaultdict(list)`. -/
def groupBy (key : V → K) (values : List V) : List (K × List V) := groupInto key [] values

/-- The key order after storing under `key`. -/
def addKey (key : K) (keys : List K) : List K := if key ∈ keys then keys else keys ++ [key]

/-- The keys of a dict filled from empty under `keys`, in the order they were first seen. -/
def insertionOrder (keys : List K) : List K := keys.foldl (fun seen key => addKey key seen) []

@[simp] theorem groupOf_nil (key : K) : groupOf key ([] : List (K × List V)) = [] := rfl

theorem groupOf_updateAt (key other : K) (update : List V → List V) (groups : List (K × List V)) :
    groupOf other (updateAt key update groups) =
      if key = other then update (groupOf other groups) else groupOf other groups := by
  induction groups with
  | nil => by_cases same : key = other <;> simp [updateAt, groupOf, same]
  | cons group rest ih =>
    obtain ⟨first, values⟩ := group
    by_cases here : first = key
    · subst here; by_cases same : first = other <;> simp [updateAt, groupOf, same]
    · simp only [updateAt, groupOf, here, if_false, ih]
      split_ifs <;> simp_all

theorem keys_updateAt (key : K) (update : List V → List V) (groups : List (K × List V)) :
    (updateAt key update groups).map Prod.fst = addKey key (groups.map Prod.fst) := by
  induction groups with
  | nil => rfl
  | cons group rest ih =>
    obtain ⟨first, values⟩ := group
    by_cases here : first = key
    · simp [updateAt, addKey, here]
    · simp only [updateAt, here, if_false, List.map_cons, ih, addKey, List.mem_cons, Ne.symm here, false_or]
      split_ifs <;> rfl

theorem groupOf_touch (key other : K) (groups : List (K × List V)) :
    groupOf other (touch key groups) = groupOf other groups := by
  rw [touch, groupOf_updateAt, id_eq, ite_self]

theorem groupOf_groupInto (key : V → K) (groups : List (K × List V)) (values : List V) (other : K) :
    groupOf other (groupInto key groups values) = groupOf other groups ++ values.filter (key · = other) := by
  induction values generalizing groups with
  | nil => simp [groupInto]
  | cons value rest ih =>
    rw [groupInto, List.foldl_cons, ← groupInto, ih, appendAt, groupOf_updateAt]
    by_cases same : key value = other <;> simp [same]

theorem keys_groupInto (key : V → K) (groups : List (K × List V)) (values : List V) :
    (groupInto key groups values).map Prod.fst =
      (values.map key).foldl (fun seen key => addKey key seen) (groups.map Prod.fst) := by
  induction values generalizing groups with
  | nil => rfl
  | cons value rest ih => rw [groupInto, List.foldl_cons, ← groupInto, ih, appendAt, keys_updateAt]; rfl

theorem groupOf_groupBy (key : V → K) (values : List V) (other : K) :
    groupOf other (groupBy key values) = values.filter (key · = other) := by
  simp [groupBy, groupOf_groupInto]

theorem keys_groupBy (key : V → K) (values : List V) :
    (groupBy key values).map Prod.fst = insertionOrder (values.map key) :=
  keys_groupInto key [] values

theorem groupOf_of_mem {groups : List (K × List V)} (distinct : (groups.map Prod.fst).Nodup) {key : K}
    {values : List V} (member : (key, values) ∈ groups) : groupOf key groups = values := by
  induction groups with
  | nil => cases member
  | cons group rest ih =>
    obtain ⟨first, stored⟩ := group
    rw [List.map_cons, List.nodup_cons] at distinct
    rcases List.mem_cons.mp member with same | later
    · cases same; simp [groupOf]
    · have other : first ≠ key := fun same => distinct.1 (by subst same; exact List.mem_map.mpr ⟨_, later, rfl⟩)
      simp [groupOf, other, ih distinct.2 later]

theorem eq_map_groupOf {groups : List (K × List V)} (distinct : (groups.map Prod.fst).Nodup) :
    groups = (groups.map Prod.fst).map fun key => (key, groupOf key groups) := by
  induction groups with
  | nil => rfl
  | cons group rest ih =>
    obtain ⟨first, stored⟩ := group
    rw [List.map_cons, List.nodup_cons] at distinct
    have later : ∀ key ∈ rest.map Prod.fst,
        (key, groupOf key ((first, stored) :: rest)) = (key, groupOf key rest) :=
      fun key member => by simp [groupOf, show first ≠ key from fun same => distinct.1 (same ▸ member)]
    rw [List.map_cons, List.map_cons, List.map_congr_left later, ← ih distinct.2]
    simp [groupOf]

theorem mem_addKey (key other : K) (keys : List K) : other ∈ addKey key keys ↔ other = key ∨ other ∈ keys := by
  unfold addKey
  split_ifs with present
  · exact ⟨Or.inr, fun | .inl rfl => present | .inr member => member⟩
  · simp [or_comm]

theorem nodup_addKey (key : K) {keys : List K} (distinct : keys.Nodup) : (addKey key keys).Nodup := by
  unfold addKey
  split_ifs with present
  · exact distinct
  · exact distinct.append (List.nodup_singleton key) (List.disjoint_singleton.mpr present)

theorem foldl_addKey_of_mem (keys : List K) {added : List K} (present : ∀ key ∈ added, key ∈ keys) :
    added.foldl (fun seen key => addKey key seen) keys = keys := by
  induction added with
  | nil => rfl
  | cons key rest ih =>
    rw [List.foldl_cons, addKey, if_pos (present key (List.mem_cons_self _ _))]
    exact ih fun other member => present other (List.mem_cons_of_mem _ member)

theorem insertionOrder_append (keys : List K) (key : K) :
    insertionOrder (keys ++ [key]) = addKey key (insertionOrder keys) := by
  simp [insertionOrder]

theorem mem_insertionOrder (keys : List K) (key : K) : key ∈ insertionOrder keys ↔ key ∈ keys := by
  induction keys using List.reverseRecOn with
  | nil => simp [insertionOrder]
  | append_singleton keys last ih => simp [insertionOrder_append, mem_addKey, ih, or_comm]

theorem nodup_insertionOrder (keys : List K) : (insertionOrder keys).Nodup := by
  induction keys using List.reverseRecOn with
  | nil => exact List.nodup_nil
  | append_singleton keys last ih => exact insertionOrder_append keys last ▸ nodup_addKey last ih

theorem insertionOrder_firstSeen (keys : List K) :
    (insertionOrder keys).Pairwise fun first second => keys.indexOf first < keys.indexOf second := by
  induction keys using List.reverseRecOn with
  | nil => exact List.Pairwise.nil
  | append_singleton keys last ih =>
    have earlier : ∀ key ∈ insertionOrder keys, (keys ++ [last]).indexOf key = keys.indexOf key :=
      fun key member => List.indexOf_append_of_mem ((mem_insertionOrder keys key).mp member)
    have kept : (insertionOrder keys).Pairwise fun first second =>
        (keys ++ [last]).indexOf first < (keys ++ [last]).indexOf second :=
      ih.imp_of_mem fun first second order => by rwa [earlier _ first, earlier _ second]
    rw [insertionOrder_append, addKey]
    split_ifs with seen
    · exact kept
    · have fresh : last ∉ keys := fun member => seen ((mem_insertionOrder keys last).mpr member)
      refine List.pairwise_append.mpr ⟨kept, List.pairwise_singleton _ _, fun key member _ new => ?_⟩
      rw [List.mem_singleton.mp new, earlier key member, List.indexOf_append_of_not_mem fresh]
      have := List.indexOf_lt_length.mpr ((mem_insertionOrder keys key).mp member)
      simp only [List.indexOf_cons_self]
      omega

theorem insertionOrder_perm_dedup (keys : List K) : (insertionOrder keys).Perm keys.dedup :=
  (List.perm_ext_iff_of_nodup (nodup_insertionOrder keys) (List.nodup_dedup keys)).mpr fun key => by
    rw [mem_insertionOrder, List.mem_dedup]

end Dict

/-! ## The ranking -/

section Ranking

variable {K V : Type}

/-- `{k: len(v) for k, v in groups.items()}`. -/
def sizes (groups : List (K × List V)) : List (K × Nat) := groups.map fun group => (group.1, group.2.length)

/-- `sorted(groups.items(), key=lambda x: len(x[1]), reverse=True)`. -/
def bySizeDescending (groups : List (K × List V)) : List (K × List V) :=
  groups.mergeSort fun first second => second.2.length ≤ first.2.length

theorem bySize_trans (first second third : K × List V) (above : decide (second.2.length ≤ first.2.length))
    (below : decide (third.2.length ≤ second.2.length)) : decide (third.2.length ≤ first.2.length) := by
  simp only [decide_eq_true_eq] at above below ⊢; omega

theorem bySize_total (first second : K × List V) :
    (decide (second.2.length ≤ first.2.length) || decide (first.2.length ≤ second.2.length)) := by
  simp only [Bool.or_eq_true, decide_eq_true_eq]; omega

theorem bySizeDescending_perm (groups : List (K × List V)) : (bySizeDescending groups).Perm groups :=
  List.mergeSort_perm groups _

theorem bySizeDescending_sorted (groups : List (K × List V)) :
    (bySizeDescending groups).Pairwise fun first second => second.2.length ≤ first.2.length := by
  have sorted : (bySizeDescending groups).Pairwise fun first second =>
      decide (second.2.length ≤ first.2.length) :=
    List.sorted_mergeSort bySize_trans bySize_total groups
  simpa only [decide_eq_true_eq] using sorted

/-- Stability: the groups of any one size come out in the order they went in. -/
theorem bySizeDescending_filter_size (groups : List (K × List V)) (size : Nat) :
    (bySizeDescending groups).filter (·.2.length = size) = groups.filter (·.2.length = size) := by
  have equal : (groups.filter (·.2.length = size)).Pairwise fun first second =>
      decide (second.2.length ≤ first.2.length) :=
    List.pairwise_of_forall_mem_list fun first inFirst second inSecond => by
      simp only [List.mem_filter, decide_eq_true_eq] at inFirst inSecond
      simp [inFirst.2, inSecond.2]
  have kept := List.sublist_mergeSort bySize_trans bySize_total equal (List.filter_sublist groups)
  have sub := kept.filter fun group => decide (group.2.length = size)
  rw [List.filter_filter, List.filter_congr fun _ _ => Bool.and_self _] at sub
  exact (sub.eq_of_length ((bySizeDescending_perm groups).filter _).length_eq.symm).symm

end Ranking

section Grouped

variable {K V : Type} [DecidableEq K] (key : V → K) (values : List V)

theorem nodup_keys_groupBy : ((groupBy key values).map Prod.fst).Nodup := by
  rw [keys_groupBy]; exact nodup_insertionOrder _

theorem keys_bySizeDescending_groupBy :
    ((bySizeDescending (groupBy key values)).map Prod.fst).Perm (values.map key).dedup :=
  ((bySizeDescending_perm _).map _).trans (keys_groupBy key values ▸ insertionOrder_perm_dedup _)

theorem eq_filter_of_mem_bySizeDescending {group : K} {grouped : List V}
    (ranked : (group, grouped) ∈ bySizeDescending (groupBy key values)) :
    grouped = values.filter (key · = group) := by
  rw [← groupOf_groupBy, groupOf_of_mem (nodup_keys_groupBy key values) ((bySizeDescending_perm _).mem_iff.mp ranked)]

/-- A ranking of the groups of `values`: by size, descending, and among groups of one
size by the first occurrence of their key in `values`. -/
theorem bySizeDescending_groupBy :
    (bySizeDescending (groupBy key values)).Pairwise fun first second =>
      second.2.length < first.2.length ∨
        (first.2.length = second.2.length ∧
          (values.map key).indexOf first.1 < (values.map key).indexOf second.1) := by
  have bySeen : (groupBy key values).Pairwise fun first second =>
      (values.map key).indexOf first.1 < (values.map key).indexOf second.1 := by
    have keys := insertionOrder_firstSeen (values.map key)
    rwa [← keys_groupBy, List.pairwise_map] at keys
  rw [List.pairwise_iff_forall_sublist]
  intro first second pair
  rcases Nat.lt_or_eq_of_le (List.pairwise_iff_forall_sublist.mp (bySizeDescending_sorted _) pair) with
    smaller | same
  · exact .inl smaller
  · refine .inr ⟨same.symm, List.pairwise_iff_forall_sublist.mp bySeen ?_⟩
    have tie := pair.filter fun group => decide (group.2.length = second.2.length)
    rw [bySizeDescending_filter_size] at tie
    simp only [List.filter_cons, List.filter_nil, same, decide_True, if_true] at tie
    exact tie.trans (List.filter_sublist _)

end Grouped

end SourceAudit
