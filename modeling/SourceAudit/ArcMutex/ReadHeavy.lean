import SourceAudit.Chain
import SourceAudit.ArcMutex.Severity
import Mathlib.Data.Nat.Prime.Basic

/-! The read-heavy check `reads_in_context > locks_in_context * 0.7` in double arithmetic.

The double nearest `0.7` is `3152519739159347 * 2 ^ -52`, and ten times its significand is
`7 * 2 ^ 52 - 2`: it lies just below `0.7`. Away from `10 * reads = 7 * locks` the gap is far
smaller than one read, so the check is the exact comparison. At that equality the exact
product is a whole number, and the rounded product falls under it exactly when the product's
last place is small against `locks`, which happens when a power of two lies strictly between
`0.7 * locks` and `0.8 * locks`.

The two sides count different things: each read-only pattern is a chain of literals joined by
`.*`, so it adds one for each line of the context it fits, while the lock pattern adds one for
each call.
-/

set_option autoImplicit false

namespace SourceAudit.ArcMutex

theorem bitLength_zero (fuel : Nat) : bitLength fuel 0 = 0 := by cases fuel <;> rfl

theorem bitLength_bounds (fuel value : Nat) (enough : value ≤ fuel) (positive : 0 < value) :
    2 ^ bitLength fuel value ≤ 2 * value ∧ value < 2 ^ bitLength fuel value := by
  induction fuel generalizing value with
  | zero => omega
  | succ fuel ih =>
    rw [bitLength, if_neg (by omega), Nat.pow_succ]
    rcases Nat.lt_or_ge value 2 with one | more
    · rw [show value / 2 = 0 by omega, bitLength_zero]; omega
    · have := ih (value / 2) (by omega) (by omega)
      omega

/-- Below `2 ^ 53` a natural is a double as it is: `float(locks)` loses nothing. -/
theorem roundToDouble_small (value : Nat) (small : value < 2 ^ 53) : roundToDouble value = (value, 0) := by
  have exponent : bitLength value value - 53 = 0 := by
    rcases Nat.eq_zero_or_pos value with rfl | positive
    · rw [bitLength_zero]
    · have bounds := bitLength_bounds value value le_rfl positive
      have : bitLength value value < 54 :=
        (Nat.pow_lt_pow_iff_right (show 1 < 2 by decide)).mp (by rw [Nat.pow_succ]; omega)
      omega
  simp [roundToDouble, exponent, Nat.mod_one]

/-- A double keeps the quotient by `2 ^ exponent`, plus one when the remainder is above
half, or exactly half with an odd quotient. -/
theorem roundToDouble_eq (value : Nat) :
    roundToDouble value =
      (value / 2 ^ (bitLength value value - 53) +
          if 2 ^ (bitLength value value - 53) < 2 * (value % 2 ^ (bitLength value value - 53)) ∨
              (2 * (value % 2 ^ (bitLength value value - 53)) = 2 ^ (bitLength value value - 53) ∧
                value / 2 ^ (bitLength value value - 53) % 2 = 1) then 1 else 0,
        bitLength value value - 53) := by
  unfold roundToDouble; dsimp only; split_ifs <;> rfl

theorem roundToDouble_near (value : Nat) :
    (roundToDouble value).1 * 2 ^ (roundToDouble value).2 ≤ value + 2 ^ (roundToDouble value).2 ∧
      value < (roundToDouble value).1 * 2 ^ (roundToDouble value).2 + 2 ^ (roundToDouble value).2 := by
  rw [roundToDouble_eq]
  generalize bitLength value value - 53 = exponent
  have split := Nat.div_add_mod value (2 ^ exponent)
  have below := Nat.mod_lt value (Nat.two_pow_pos exponent)
  dsimp only
  split_ifs <;> constructor <;> rw [Nat.add_mul, Nat.mul_comm (value / 2 ^ exponent)] <;> omega

/-- A value just below a multiple `even * 2 ^ exponent` of its last place, with `even`
even: it rounds to that multiple when it is at most half a unit below, else to the
double just under. -/
theorem roundToDouble_below (value even gap : Nat) (parity : even % 2 = 0) (positive : 0 < gap)
    (within : gap < 2 ^ (roundToDouble value).2) (sum : value + gap = even * 2 ^ (roundToDouble value).2) :
    (roundToDouble value).1 = if 2 * gap ≤ 2 ^ (roundToDouble value).2 then even else even - 1 := by
  revert within sum
  rw [roundToDouble_eq]
  dsimp only
  generalize bitLength value value - 53 = exponent
  intro within sum
  have some : 0 < even := Nat.pos_of_ne_zero fun none => by rw [none, Nat.zero_mul] at sum; omega
  have unit : 2 ^ exponent ≤ even * 2 ^ exponent := Nat.le_mul_of_pos_left _ some
  have quotient : value / 2 ^ exponent = even - 1 ∧ value % 2 ^ exponent = 2 ^ exponent - gap := by
    rw [Nat.div_mod_unique (Nat.two_pow_pos exponent), Nat.mul_sub_one, Nat.mul_comm]
    omega
  rw [quotient.1, quotient.2]
  split_ifs <;> omega

/-- Above `2 ^ 53` a value's last place is `2 ^ exponent` with `2 ^ (exponent + 52)` at most
the value; every value is below `2 ^ (exponent + 53)`. -/
theorem roundToDouble_scale (value : Nat) (positive : 0 < value) :
    value < 2 ^ (roundToDouble value).2 * 2 ^ 53 ∧
      (2 ^ 53 ≤ value → 2 ^ (roundToDouble value).2 * 2 ^ 52 ≤ value) := by
  rw [roundToDouble_eq]; dsimp only
  have bounds := bitLength_bounds value value le_rfl positive
  rcases Nat.lt_or_ge (bitLength value value) 53 with short | long
  · have below := Nat.pow_le_pow_right (show 0 < 2 by decide) (Nat.le_of_lt_succ short)
    rw [Nat.sub_eq_zero_of_le short.le, Nat.pow_zero, Nat.one_mul, Nat.pow_succ]
    omega
  · have split : 2 ^ (bitLength value value - 53) * 2 ^ 53 = 2 ^ bitLength value value := by
      rw [← Nat.pow_add, Nat.sub_add_cancel long]
    omega

theorem seven_mul_ne_two_pow (k m : Nat) : 7 * k ≠ 2 ^ m := fun same =>
  absurd (Nat.Prime.dvd_of_dvd_pow (by decide : Nat.Prime 7) (same ▸ Dvd.intro k rfl : 7 ∣ 2 ^ m)) (by decide)

/-- With `locks` a double as it is, the check compares the rounded product, scaled by
`2 ^ 52`, with `reads`. -/
theorem exceedsSevenTenths_eq (reads locks : Nat) (small : locks < 2 ^ 53) :
    exceedsSevenTenths reads locks =
      decide ((roundToDouble (locks * sevenTenthsSignificand)).1 *
        2 ^ (roundToDouble (locks * sevenTenthsSignificand)).2 < reads * 2 ^ 52) := by
  simp [exceedsSevenTenths, roundToDouble_small locks small]

theorem product_unit_le (locks : Nat) (small : locks < 2 ^ 40) :
    2 ^ (roundToDouble (locks * sevenTenthsSignificand)).2 ≤ 2 ^ 39 := by
  rcases Nat.lt_or_ge (locks * sevenTenthsSignificand) (2 ^ 53) with short | long
  · rw [roundToDouble_small _ short]; exact Nat.pow_le_pow_right (by decide) (Nat.zero_le 39)
  · have scale := (roundToDouble_scale _ (by unfold sevenTenthsSignificand at long ⊢; omega)).2 long
    refine Nat.pow_le_pow_right (by decide)
      (Nat.le_of_lt_succ ((Nat.pow_lt_pow_iff_right (show 1 < 2 by decide)).mp ?_))
    unfold sevenTenthsSignificand at scale ⊢
    omega

/-- At `10 * reads = 7 * locks` the exact product is a whole number of reads and the double
nearest `0.7` is below `0.7`: the check holds exactly when the product rounds to the double
under that number, which is when a power of two lies strictly between `7 * k` and `8 * k`. -/
theorem exceedsSevenTenths_tie (k : Nat) (positive : 0 < k) (small : 10 * k < 2 ^ 40) :
    exceedsSevenTenths (7 * k) (10 * k) = true ↔ ∃ m, 7 * k < 2 ^ m ∧ 2 ^ m < 8 * k := by
  rw [exceedsSevenTenths_eq _ _ (by omega), decide_eq_true_iff]
  have unit := product_unit_le (10 * k) small
  have scale := roundToDouble_scale (10 * k * sevenTenthsSignificand) (by unfold sevenTenthsSignificand; omega)
  have large := scale.2 (by unfold sevenTenthsSignificand; omega)
  obtain ⟨exponent, exponentDef⟩ : ∃ exponent, (roundToDouble (10 * k * sevenTenthsSignificand)).2 = exponent :=
    ⟨_, rfl⟩
  have bounded : exponent ≤ 39 := (Nat.pow_le_pow_iff_right (show 1 < 2 by decide)).mp (exponentDef ▸ unit)
  have whole : 7 * k * 2 ^ (52 - exponent) * 2 ^ exponent = 7 * k * 2 ^ 52 := by
    rw [Nat.mul_assoc, ← Nat.pow_add, Nat.sub_add_cancel (by omega)]
  have parity : 7 * k * 2 ^ (52 - exponent) % 2 = 0 := by
    rw [show 52 - exponent = 51 - exponent + 1 by omega, Nat.pow_succ, ← Nat.mul_assoc, Nat.mul_mod_left]
  rw [exponentDef] at scale large
  unfold sevenTenthsSignificand at scale large
  have rounded := roundToDouble_below (10 * k * sevenTenthsSignificand) (7 * k * 2 ^ (52 - exponent)) (2 * k)
    parity (by omega) (by rw [exponentDef]; omega) (by rw [exponentDef]; unfold sevenTenthsSignificand; omega)
  rw [rounded, exponentDef]
  have lower : 2 ^ exponent < 7 * k := by omega
  have upper : 7 * k < 2 ^ (exponent + 1) := by
    have := seven_mul_ne_two_pow k (exponent + 1)
    rw [Nat.pow_succ] at this ⊢
    omega
  split_ifs with half
  · rw [whole]
    refine ⟨fun less => absurd less (Nat.lt_irrefl _), fun ⟨m, above, below⟩ => absurd half ?_⟩
    have := Nat.pow_le_pow_right (show 0 < 2 by decide)
      ((Nat.pow_lt_pow_iff_right (show 1 < 2 by decide)).mp (lower.trans above))
    rw [Nat.pow_succ] at this
    omega
  · rw [Nat.sub_one_mul, whole]
    refine ⟨fun _ => ⟨exponent + 1, upper, ?_⟩, fun _ => ?_⟩
    · rw [Nat.pow_succ]; omega
    · have := Nat.two_pow_pos exponent; omega

/-- For fewer than `2 ^ 40` locks and any number of reads, `reads > locks * 0.7` in double
arithmetic is `10 * reads > 7 * locks`, except at `10 * reads = 7 * locks`, where it also
holds when a power of two lies strictly between `0.7 * locks` and `0.8 * locks`. -/
theorem exceedsSevenTenths_iff (reads locks : Nat) (small : locks < 2 ^ 40) :
    exceedsSevenTenths reads locks = true ↔
      7 * locks < 10 * reads ∨
        (10 * reads = 7 * locks ∧ ∃ m, 7 * locks < 10 * 2 ^ m ∧ 10 * 2 ^ m < 8 * locks) := by
  have near := roundToDouble_near (locks * sevenTenthsSignificand)
  have unit := product_unit_le locks small
  rcases Nat.lt_trichotomy (7 * locks) (10 * reads) with more | same | fewer
  · rw [exceedsSevenTenths_eq _ _ (by omega), decide_eq_true_iff]
    unfold sevenTenthsSignificand at near unit ⊢
    exact ⟨fun _ => .inl more, fun _ => by omega⟩
  · obtain ⟨k, rfl, rfl⟩ : ∃ k, locks = 10 * k ∧ reads = 7 * k := ⟨locks / 10, by omega, by omega⟩
    rcases Nat.eq_zero_or_pos k with rfl | positive
    · refine ⟨fun fired => absurd fired (by decide), ?_⟩
      rintro (less | ⟨-, m, -, below⟩) <;> omega
    · rw [exceedsSevenTenths_tie k positive (by omega)]
      constructor
      · rintro ⟨m, above, below⟩; exact .inr ⟨by omega, m, by omega, by omega⟩
      · rintro (less | ⟨-, m, above, below⟩)
        · omega
        · exact ⟨m, by omega, by omega⟩
  · rw [exceedsSevenTenths_eq _ _ (by omega), decide_eq_true_iff]
    unfold sevenTenthsSignificand at near unit ⊢
    constructor
    · intro; omega
    · rintro (less | ⟨same, -⟩) <;> omega

/-- Ninety locks and sixty-three reads, exactly seven tenths: `90 * 0.7` is
`62.99999999999999`, and a power of two, `64`, lies between `63` and `72`. -/
theorem exceedsSevenTenths_iff_sevenTenths :
    90 < 2 ^ 40 ∧ (exceedsSevenTenths 63 90 = true ↔
      7 * 90 < 10 * 63 ∨ (10 * 63 = 7 * 90 ∧ ∃ m, 7 * 90 < 10 * 2 ^ m ∧ 10 * 2 ^ m < 8 * 90)) ∧
      exceedsSevenTenths 63 90 = true :=
  ⟨by decide, exceedsSevenTenths_iff 63 90 (by decide), (exceedsSevenTenths_iff 63 90 (by decide)).mpr
    (.inr ⟨rfl, 6, by decide, by decide⟩)⟩

/-! ## What `reads_in_context` counts -/

/-- `reads_in_context` is the number of pairs of a read-only pattern and a line of the context
on which that pattern's literals occur in order. -/
theorem readOnlyPatterns_count_lines (context : List Char) :
    (readOnlyPatterns.map fun pattern => pattern.count context).foldl (· + ·) 0 =
      ([[".lock()".toList, ".get(".toList], [".lock()".toList, ".contains".toList],
          [".lock()".toList, ".iter(".toList], ["let ".toList, " = ".toList, ".lock()".toList]].flatMap fun words =>
        (splitLines context).filter (inOrder words)).length := by
  have get : (Re.seqs [.lit ".lock()".toList, Re.dotStar, .lit ".get(".toList]).count context = _ :=
    chain_count ".lock()".toList [".get(".toList] (by decide) (List.cons_ne_nil _ _) context
  have contains : (Re.seqs [.lit ".lock()".toList, Re.dotStar, .lit ".contains".toList]).count context = _ :=
    chain_count ".lock()".toList [".contains".toList] (by decide) (List.cons_ne_nil _ _) context
  have iter : (Re.seqs [.lit ".lock()".toList, Re.dotStar, .lit ".iter(".toList]).count context = _ :=
    chain_count ".lock()".toList [".iter(".toList] (by decide) (List.cons_ne_nil _ _) context
  have binding : (Re.seqs [.lit "let ".toList, Re.dotStar, .lit " = ".toList, Re.dotStar, .lit ".lock()".toList]).count
      context = _ :=
    chain_count "let ".toList [" = ".toList, ".lock()".toList] (by decide) (List.cons_ne_nil _ _) context
  simp only [readOnlyPatterns, List.map_cons, List.map_nil, List.foldl_cons, List.foldl_nil, get, contains, iter,
    binding, List.flatMap_cons, List.flatMap_nil, List.length_append, List.length_nil]
  omega

/-- The read-heavy check compares a count of lines, one per read-only pattern, with a count of
lock calls. -/
theorem isReadHeavy_lines (context : List Char) :
    isReadHeavy context = exceedsSevenTenths
      ([[".lock()".toList, ".get(".toList], [".lock()".toList, ".contains".toList],
          [".lock()".toList, ".iter(".toList], ["let ".toList, " = ".toList, ".lock()".toList]].flatMap fun words =>
        (splitLines context).filter (inOrder words)).length
      (lockPattern.count context) := by
  rw [isReadHeavy, readOnlyPatterns_count_lines]

end SourceAudit.ArcMutex
