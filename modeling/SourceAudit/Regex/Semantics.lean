import SourceAudit.Regex

/-! What a pattern matches, as a relation between the thread where a match starts and the
thread where it stops, and the soundness of the backtracking walk against it: every thread
the walk hands on is reached by a derivation of the pattern, so a match found by `finditer`
is a match of the pattern. Only soundness is proved, with one completeness fact beside it: the
greedy loop settles on the longest run after which the rest of the pattern completes.
-/

set_option autoImplicit false

namespace SourceAudit

/-- `stop` is `start` moved past `consumed`. -/
structure Cursor.Advances (start stop : Cursor) (consumed : List Char) : Prop where
  after : start.after = consumed ++ stop.after
  before : stop.before = consumed.reverse ++ start.before

theorem Cursor.Advances.nil (cursor : Cursor) : cursor.Advances cursor [] := ⟨rfl, rfl⟩

theorem Cursor.Advances.single (before after : List Char) (c : Char) :
    Cursor.Advances ⟨before, c :: after⟩ ⟨c :: before, after⟩ [c] := ⟨rfl, rfl⟩

theorem Cursor.Advances.trans {first middle last : Cursor} {head tail : List Char} (left : first.Advances middle head)
    (right : middle.Advances last tail) : first.Advances last (head ++ tail) :=
  ⟨by rw [left.after, right.after, List.append_assoc], by rw [right.before, left.before]; simp⟩

theorem Cursor.Advances.pos {start stop : Cursor} {consumed : List Char} (advanced : start.Advances stop consumed) :
    stop.pos = start.pos + consumed.length := by
  simp only [Cursor.pos, advanced.before, List.length_append, List.length_reverse, Nat.add_comm]

namespace Re

/-- `Matches pattern start stop`: the pattern can take a match from `start` to `stop`. -/
inductive Matches : Re → Thread → Thread → Prop
  | cls {accepts : Char → Bool} {before after : List Char} {c : Char} {groups : List (Nat × Nat × Nat)} :
      accepts c = true → Matches (.cls accepts) ⟨⟨before, c :: after⟩, groups⟩ ⟨⟨c :: before, after⟩, groups⟩
  | manyNil {accepts : Char → Bool} {thread : Thread} : Matches (.many accepts) thread thread
  | manyCons {accepts : Char → Bool} {before after : List Char} {c : Char} {groups : List (Nat × Nat × Nat)}
      {stop : Thread} : accepts c = true → Matches (.many accepts) ⟨⟨c :: before, after⟩, groups⟩ stop →
      Matches (.many accepts) ⟨⟨before, c :: after⟩, groups⟩ stop
  | seq {first second : Re} {start middle stop : Thread} : Matches first start middle →
      Matches second middle stop → Matches (.seq first second) start stop
  | altLeft {first second : Re} {start stop : Thread} : Matches first start stop →
      Matches (.alt first second) start stop
  | altRight {first second : Re} {start stop : Thread} : Matches second start stop →
      Matches (.alt first second) start stop
  | empty {thread : Thread} : Matches .empty thread thread
  | lineStart {thread : Thread} : atLineStart thread.cursor.before = true → Matches .lineStart thread thread
  | stringEnd {thread : Thread} : (thread.cursor.after = [] ∨ thread.cursor.after = ['\n']) →
      Matches .stringEnd thread thread
  | wordBoundary {thread : Thread} : atWordBoundary thread.cursor = true → Matches .wordBoundary thread thread
  | notAfter {classes : List (Char → Bool)} {thread : Thread} : endsWith thread.cursor.before classes = false →
      Matches (.notAfter classes) thread thread
  | group {index : Nat} {body : Re} {start stop : Thread} : Matches body start stop →
      Matches (.group index body) start
        { stop with groups := (index, start.cursor.pos, stop.cursor.pos) :: stop.groups }

theorem manyFrom_sound (accepts : Char → Bool) (groups : List (Nat × Nat × Nat)) (k : Thread → Option Thread)
    (before after : List Char) (result : Thread) (found : manyFrom accepts groups k before after = some result) :
    ∃ stop, Matches (.many accepts) ⟨⟨before, after⟩, groups⟩ stop ∧ k stop = some result := by
  induction after generalizing before with
  | nil => exact ⟨_, .manyNil, found⟩
  | cons c after ih =>
    rw [manyFrom] at found
    split_ifs at found with accepted
    · cases longer : manyFrom accepts groups k (c :: before) after with
      | some thread =>
        rw [longer] at found
        obtain ⟨stop, run, ends⟩ := ih (c :: before) (longer.trans found)
        exact ⟨stop, .manyCons accepted run, ends⟩
      | none =>
        rw [longer] at found
        exact ⟨_, .manyNil, found⟩
    · exact ⟨_, .manyNil, found⟩

/-- Every thread the walk hands on is reached by a derivation of the pattern. -/
theorem walk_sound (pattern : Re) (start : Thread) (k : Thread → Option Thread) (result : Thread)
    (found : pattern.walk start k = some result) : ∃ stop, Matches pattern start stop ∧ k stop = some result := by
  induction pattern generalizing start k with
  | cls accepts =>
    obtain ⟨⟨before, _ | ⟨c, after⟩⟩, groups⟩ := start
    · cases found
    · rw [walk_cls_cons] at found
      split_ifs at found with accepted
      exact ⟨_, .cls accepted, found⟩
  | many accepts =>
    obtain ⟨⟨before, after⟩, groups⟩ := start
    exact manyFrom_sound accepts groups k before after result found
  | seq first second ihFirst ihSecond =>
    obtain ⟨middle, firstMatch, rest⟩ := ihFirst start _ found
    obtain ⟨stop, secondMatch, ends⟩ := ihSecond middle k rest
    exact ⟨stop, .seq firstMatch secondMatch, ends⟩
  | alt first second ihFirst ihSecond =>
    rw [walk_alt] at found
    cases left : first.walk start k with
    | some thread =>
      rw [left] at found
      obtain ⟨stop, matched, ends⟩ := ihFirst start k (left.trans found)
      exact ⟨stop, .altLeft matched, ends⟩
    | none =>
      rw [left] at found
      obtain ⟨stop, matched, ends⟩ := ihSecond start k found
      exact ⟨stop, .altRight matched, ends⟩
  | empty => exact ⟨start, .empty, found⟩
  | lineStart =>
    rw [walk_lineStart] at found
    split_ifs at found with atStart
    exact ⟨start, .lineStart atStart, found⟩
  | stringEnd =>
    change (if _ then k start else none) = some result at found
    split_ifs at found with atEnd
    exact ⟨start, .stringEnd atEnd, found⟩
  | wordBoundary =>
    change (if _ then k start else none) = some result at found
    split_ifs at found with boundary
    exact ⟨start, .wordBoundary boundary, found⟩
  | notAfter classes =>
    rw [walk_notAfter] at found
    split_ifs at found with behind
    exact ⟨start, .notAfter (Bool.eq_false_iff.mpr behind), found⟩
  | group index body ih =>
    obtain ⟨stop, matched, ends⟩ := ih start _ found
    exact ⟨_, .group matched, ends⟩

theorem matchAt_sound (pattern : Re) (cursor : Cursor) (thread : Thread) (found : pattern.matchAt cursor = some thread) :
    Matches pattern ⟨cursor, []⟩ thread := by
  obtain ⟨stop, matched, ends⟩ := walk_sound pattern _ some thread found
  exact (Option.some.inj ends) ▸ matched

/-! ## What a derivation consumes -/

theorem Matches.consumes {pattern : Re} {start stop : Thread} (matched : Matches pattern start stop) :
    ∃ consumed, start.cursor.Advances stop.cursor consumed := by
  induction matched with
  | @cls _ before after c _ _ => exact ⟨[c], .single before after c⟩
  | @manyCons _ before after c _ _ _ _ ih =>
    obtain ⟨consumed, advanced⟩ := ih
    exact ⟨[c] ++ consumed, (Cursor.Advances.single before after c).trans advanced⟩
  | seq _ _ ihFirst ihSecond =>
    obtain ⟨first, advancedFirst⟩ := ihFirst
    obtain ⟨second, advancedSecond⟩ := ihSecond
    exact ⟨first ++ second, advancedFirst.trans advancedSecond⟩
  | altLeft _ ih => exact ih
  | altRight _ ih => exact ih
  | group _ ih => exact ih
  | _ => exact ⟨[], .nil _⟩

/-- Whether a pattern records no group. -/
def groupFree : Re → Bool
  | .seq first second => first.groupFree && second.groupFree
  | .alt first second => first.groupFree && second.groupFree
  | .group _ _ => false
  | _ => true

theorem Matches.groups_eq {pattern : Re} {start stop : Thread} (matched : Matches pattern start stop)
    (free : pattern.groupFree = true) : stop.groups = start.groups := by
  induction matched with
  | manyCons _ _ ih => exact ih rfl
  | seq _ _ ihFirst ihSecond =>
    simp only [groupFree, Bool.and_eq_true] at free
    rw [ihSecond free.2, ihFirst free.1]
  | altLeft _ ih =>
    simp only [groupFree, Bool.and_eq_true] at free
    exact ih free.1
  | altRight _ ih =>
    simp only [groupFree, Bool.and_eq_true] at free
    exact ih free.2
  | group => cases free
  | _ => rfl

theorem Matches.seq_inv {first second : Re} {start stop : Thread} (matched : Matches (.seq first second) start stop) :
    ∃ middle, Matches first start middle ∧ Matches second middle stop := by
  cases matched with
  | seq firstMatch secondMatch => exact ⟨_, firstMatch, secondMatch⟩

theorem Matches.opt_inv {body : Re} {start stop : Thread} (matched : Matches (opt body) start stop) :
    Matches body start stop ∨ stop = start := by
  cases matched with
  | altLeft matched => exact .inl matched
  | altRight matched => cases matched; exact .inr rfl

theorem Matches.group_inv {index : Nat} {body : Re} {start stop : Thread}
    (matched : Matches (.group index body) start stop) :
    ∃ inner, Matches body start inner ∧
      stop = { inner with groups := (index, start.cursor.pos, inner.cursor.pos) :: inner.groups } := by
  cases matched with
  | group matched => exact ⟨_, matched, rfl⟩

theorem Matches.lineStart_inv {start stop : Thread} (matched : Matches .lineStart start stop) :
    atLineStart start.cursor.before = true ∧ stop = start := by
  cases matched with
  | lineStart atStart => exact ⟨atStart, rfl⟩

theorem Matches.many_inv {accepts : Char → Bool} {start stop : Thread} (matched : Matches (.many accepts) start stop) :
    ∃ run, (∀ c ∈ run, accepts c = true) ∧ start.cursor.Advances stop.cursor run := by
  generalize repeated : Re.many accepts = pattern at matched
  induction matched with
  | manyNil => exact ⟨[], by simp, .nil _⟩
  | @manyCons _ before after c _ _ accepted _ ih =>
    cases repeated
    obtain ⟨run, all, advanced⟩ := ih rfl
    exact ⟨[c] ++ run, by simpa [accepted] using all, (Cursor.Advances.single before after c).trans advanced⟩
  | _ => cases repeated

theorem Matches.cls_inv {accepts : Char → Bool} {start stop : Thread} (matched : Matches (.cls accepts) start stop) :
    ∃ c, accepts c = true ∧ start.cursor.Advances stop.cursor [c] := by
  cases matched with
  | @cls _ before after c _ accepted => exact ⟨c, accepted, .single before after c⟩

theorem Matches.char_inv {c : Char} {start stop : Thread} (matched : Matches (char c) start stop) :
    start.cursor.Advances stop.cursor [c] := by
  obtain ⟨d, same, advanced⟩ := Matches.cls_inv matched
  obtain rfl : d = c := by simpa [char] using same
  exact advanced

theorem Matches.many1_inv {accepts : Char → Bool} {start stop : Thread} (matched : Matches (many1 accepts) start stop) :
    ∃ run, run ≠ [] ∧ (∀ c ∈ run, accepts c = true) ∧ start.cursor.Advances stop.cursor run := by
  obtain ⟨middle, first, rest⟩ := Matches.seq_inv matched
  obtain ⟨c, accepted, advancedFirst⟩ := first.cls_inv
  obtain ⟨run, all, advancedRest⟩ := rest.many_inv
  exact ⟨[c] ++ run, List.cons_ne_nil _ _, by simpa [accepted] using all, advancedFirst.trans advancedRest⟩

theorem Matches.lit_inv {word : List Char} {start stop : Thread} (matched : Matches (lit word) start stop) :
    start.cursor.Advances stop.cursor word := by
  induction word generalizing start with
  | nil => cases matched; exact .nil _
  | cons c word ih =>
    obtain ⟨middle, first, rest⟩ := Matches.seq_inv matched
    exact first.char_inv.trans (ih rest)

/-! ## What `finditer` reports -/

theorem scan_found_match (pattern : Re) (found : Found) :
    ∀ (skip : Nat) (before text : List Char), found ∈ pattern.scan skip before text →
      ∃ passed rest thread, text = passed ++ rest ∧
        pattern.matchAt ⟨passed.reverse ++ before, rest⟩ = some thread ∧
        found = ⟨(passed.reverse ++ before).length, thread.cursor.pos, thread.groups⟩ := by
  intro skip before text
  induction text generalizing skip before with
  | nil =>
    intro member
    simp only [scan] at member
    split_ifs at member
    · split at member
      · next thread matched =>
        rw [List.mem_singleton.mp member]
        exact ⟨[], [], thread, rfl, matched, rfl⟩
      · cases member
    · cases member
  | cons c after ih =>
    intro member
    simp only [scan] at member
    have later : ∀ skip', found ∈ pattern.scan skip' (c :: before) after →
        ∃ passed rest thread, c :: after = passed ++ rest ∧
          pattern.matchAt ⟨passed.reverse ++ before, rest⟩ = some thread ∧
          found = ⟨(passed.reverse ++ before).length, thread.cursor.pos, thread.groups⟩ := fun skip' inLater => by
      obtain ⟨passed, rest, thread, split, matched, rfl⟩ := ih skip' _ inLater
      exact ⟨c :: passed, rest, thread, by rw [split]; rfl, by simpa using matched, by simp⟩
    split_ifs at member
    · split at member
      · next thread matched =>
        rcases List.mem_cons.mp member with rfl | inLater
        · exact ⟨[], c :: after, thread, rfl, matched, rfl⟩
        · exact later _ inLater
      · exact later _ member
    · exact later _ member

/-- Every match `finditer` reports is a derivation of the pattern from its start, with the
groups the derivation records. -/
theorem finditer_matches (pattern : Re) (text : List Char) (found : Found) (member : found ∈ pattern.finditer text) :
    ∃ passed rest thread, text = passed ++ rest ∧ Matches pattern ⟨⟨passed.reverse, rest⟩, []⟩ thread ∧
      found = ⟨passed.length, thread.cursor.pos, thread.groups⟩ := by
  obtain ⟨passed, rest, thread, split, matched, rfl⟩ := scan_found_match pattern found 0 [] text member
  rw [List.append_nil] at matched
  exact ⟨passed, rest, thread, split, matchAt_sound _ _ _ matched, by simp⟩

/-! ## The greedy loop settles on the longest run that completes -/

theorem manyFrom_none_last (accepts : Char → Bool) (groups : List (Nat × Nat × Nat)) (k : Thread → Option Thread)
    (before run rest : List Char) (all : ∀ c ∈ run, accepts c = true)
    (fails : manyFrom accepts groups k before (run ++ rest) = none) : k ⟨⟨run.reverse ++ before, rest⟩, groups⟩ = none := by
  induction run generalizing before with
  | nil =>
    cases rest with
    | nil => exact fails
    | cons d rest =>
      rw [List.nil_append, manyFrom] at fails
      split_ifs at fails
      · cases longer : manyFrom accepts groups k (d :: before) rest <;> simp_all
      · exact fails
  | cons c run ih =>
    rw [List.cons_append, manyFrom, if_pos (all c (List.mem_cons_self _ _))] at fails
    cases longer : manyFrom accepts groups k (c :: before) (run ++ rest) with
    | none => simpa using ih (c :: before) (fun d member => all d (List.mem_cons_of_mem _ member)) longer
    | some thread => simp [longer] at fails

/-- If the rest of the pattern completes after a whole run of accepted characters, the loop
settles on a run at least that long. -/
theorem manyFrom_longest (accepts : Char → Bool) (groups : List (Nat × Nat × Nat)) (k : Thread → Option Thread)
    (before run rest : List Char) (result : Thread) (all : ∀ c ∈ run, accepts c = true)
    (found : manyFrom accepts groups k before (run ++ rest) = some result)
    (completes : (k ⟨⟨run.reverse ++ before, rest⟩, groups⟩).isSome) :
    ∃ more left, rest = more ++ left ∧ k ⟨⟨(run ++ more).reverse ++ before, left⟩, groups⟩ = some result := by
  induction run generalizing before with
  | nil =>
    obtain ⟨⟨⟨passed, left⟩, stopGroups⟩, matched, ends⟩ := manyFrom_sound accepts groups k before rest result found
    obtain ⟨more, -, advanced⟩ := matched.many_inv
    obtain rfl : stopGroups = groups := matched.groups_eq rfl
    obtain ⟨split, rfl⟩ := advanced
    exact ⟨more, left, split, ends⟩
  | cons c run ih =>
    have rest' : ∀ d ∈ run, accepts d = true := fun d member => all d (List.mem_cons_of_mem _ member)
    rw [List.cons_append, manyFrom, if_pos (all c (List.mem_cons_self _ _))] at found
    cases longer : manyFrom accepts groups k (c :: before) (run ++ rest) with
    | none =>
      have fails := manyFrom_none_last accepts groups k (c :: before) run rest rest' longer
      simp_all
    | some thread =>
      obtain rfl : thread = result := by simpa [longer] using found
      obtain ⟨more, left, split, ends⟩ := ih (c :: before) rest' longer (by simpa using completes)
      exact ⟨more, left, split, by simpa using ends⟩

theorem walk_pos_le (pattern : Re) (start result : Thread) (found : pattern.walk start some = some result) :
    start.cursor.pos ≤ result.cursor.pos := by
  obtain ⟨stop, matched, ends⟩ := walk_sound pattern start some result found
  obtain ⟨consumed, advanced⟩ := matched.consumes
  obtain rfl := Option.some.inj ends
  rw [advanced.pos]
  exact Nat.le_add_right _ _

end Re

end SourceAudit
