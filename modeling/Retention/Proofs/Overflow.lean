import Retention.Proofs.Grammar.Numerals

/-!
# Numerals that are too large

A number is rounded to an infinity from halfway between the largest finite number and 2¹⁰²⁴ on.
The value of a numeral is finite when its digits stay below that.
-/

namespace Retention

/-! ## Rounding below a bound -/

theorem le_roundDiv (num den : Nat) : num / den ≤ roundDiv num den := by
  unfold roundDiv
  split
  · exact Nat.le_refl _
  · split <;> omega

/-- A quotient is rounded to less than an even number when it is more than a half below it. -/
theorem roundDiv_lt_iff {num den m : Nat} (hden : 0 < den) (heven : m % 2 = 0) :
    roundDiv num den < m ↔ 2 * num + den < 2 * (m * den) := by
  have hnum := Nat.div_add_mod num den
  have hmod := Nat.mod_lt num hden
  have hle := le_roundDiv num den
  have hsucc := roundDiv_le_succ num den
  generalize hq : num / den = q at hnum hle hsucc
  generalize hr : num % den = r at hnum hmod
  rw [Nat.mul_comm] at hnum
  rcases Nat.lt_trichotomy (q + 1) m with h | h | h
  · have hmul : (q + 2) * den ≤ m * den := Nat.mul_le_mul_right den h
    rw [Nat.add_mul] at hmul
    omega
  · -- The quotient is odd, so a half would be rounded up.
    have hodd : q % 2 = 1 := by omega
    have hround : roundDiv num den < m ↔ 2 * r < den := by
      unfold roundDiv
      rw [hq, hr]
      split
      · omega
      · split <;> omega
    rw [hround, ← h, Nat.add_mul]
    omega
  · have hmul : m * den ≤ q * den := Nat.mul_le_mul_right den (by omega)
    omega

theorem two_pow_droppedBits_le {whole : Nat} (h : droppedBits whole ≠ 0) :
    2 ^ 52 * 2 ^ droppedBits whole ≤ whole := by
  unfold droppedBits at h ⊢
  have hne : whole ≠ 0 := by
    rintro rfl
    exact h rfl
  rw [← Nat.pow_add, show 52 + (whole.log2 - 52) = whole.log2 by omega]
  exact Nat.log2_self_le hne

theorem nearestSteps_le (num den : Nat) :
    nearestSteps num den ≤ 2 ^ 53 * 2 ^ droppedBits (num / den) :=
  Nat.mul_le_mul_right _ (roundDiv_droppedBits_le num den)

theorem le_nearestSteps {num den : Nat} (h : droppedBits (num / den) ≠ 0) :
    2 ^ 52 * 2 ^ droppedBits (num / den) ≤ nearestSteps num den := by
  refine Nat.mul_le_mul_right _ (Nat.le_trans ?_ (le_roundDiv _ _))
  rw [← Nat.div_div_eq_div_mul, Nat.le_div_iff_mul_le (Nat.two_pow_pos _)]
  exact two_pow_droppedBits_le h

/-- A quotient in smaller units stays well below a power of two. -/
theorem lt_of_droppedBits_le {num den e : Nat} (hden : 0 < den)
    (h : droppedBits (num / den) ≤ e) :
    nearestSteps num den < 2 ^ 54 * 2 ^ e ∧ num < (2 ^ 54 - 1) * (2 ^ e * den) := by
  have hpow : 2 ^ droppedBits (num / den) ≤ 2 ^ e := Nat.pow_le_pow_right (by decide) h
  have hpos : 0 < 2 ^ e := Nat.two_pow_pos e
  constructor
  · have hle := nearestSteps_le num den
    omega
  · have hwhole : num < (num / den + 1) * den := by
      rw [Nat.mul_comm]
      exact Nat.lt_mul_div_succ num hden
    have hle : num / den + 1 ≤ 2 ^ 53 * 2 ^ e :=
      Nat.le_trans (lt_two_pow_droppedBits _) (Nat.mul_le_mul_left _ hpow)
    have hmul := Nat.mul_le_mul_right den hle
    have hunit := Nat.mul_pos hpos hden
    rw [Nat.mul_assoc] at hmul
    omega

/-- A quotient in greater units has reached the power. -/
theorem le_of_lt_droppedBits {num den e : Nat} (h : e + 1 < droppedBits (num / den)) :
    2 ^ 54 * 2 ^ e ≤ nearestSteps num den ∧ 2 ^ 54 * (2 ^ e * den) ≤ num := by
  have hpow : 2 ^ (e + 2) ≤ 2 ^ droppedBits (num / den) := Nat.pow_le_pow_right (by decide) h
  have hne : droppedBits (num / den) ≠ 0 := by omega
  rw [Nat.pow_add] at hpow
  constructor
  · have hle := le_nearestSteps hne
    omega
  · have hle := two_pow_droppedBits_le hne
    have hmul : 2 ^ 54 * 2 ^ e * den ≤ num :=
      Nat.le_trans (Nat.mul_le_mul_right den (by omega)) (Nat.div_mul_le_self num den)
    rwa [Nat.mul_assoc] at hmul

/-- A power of two is not reached from more than half a unit below it. -/
theorem nearestSteps_lt_iff {num den : Nat} (hden : 0 < den) (e : Nat) :
    nearestSteps num den < 2 ^ 54 * 2 ^ e ↔ num < (2 ^ 54 - 1) * 2 ^ e * den := by
  rw [Nat.mul_assoc _ _ den]
  have hpos : 0 < 2 ^ e * den := Nat.mul_pos (Nat.two_pow_pos e) hden
  rcases Nat.lt_trichotomy (droppedBits (num / den)) (e + 1) with h | h | h
  · obtain ⟨hsteps, hnum⟩ := lt_of_droppedBits_le hden (Nat.le_of_lt_succ h)
    exact iff_of_true hsteps hnum
  · -- Counted in these units the power is a whole and even number.
    have hunit : den * 2 ^ (e + 1) = 2 * (2 ^ e * den) := by
      rw [Nat.pow_succ, Nat.mul_comm den, Nat.mul_right_comm, Nat.mul_comm _ 2]
    have hpow : 2 ^ 54 * 2 ^ e = 2 ^ 53 * 2 ^ (e + 1) := by
      rw [Nat.pow_succ 2 e]
      omega
    rw [nearestSteps, h, hpow, Nat.mul_lt_mul_right (Nat.two_pow_pos (e + 1)), hunit,
      roundDiv_lt_iff (by omega) (by decide)]
    omega
  · obtain ⟨hsteps, hnum⟩ := le_of_lt_droppedBits h
    omega

/-! ## Finite numbers -/

/-- Halfway between the largest finite number and 2¹⁰²⁴. -/
def overflowBound : Nat := 2 ^ 1024 - 2 ^ 970

namespace Number

def isFinite (n : Number) : Bool := n.finite?.isSome

theorem isFinite_ofSteps_iff (negative : Bool) {num den : Nat} (hden : 0 < den) :
    (ofSteps negative num den).isFinite ↔ num < overflowBound * stepsPerOne * den := by
  have hlimit : stepLimit = 2 ^ 54 * 2 ^ 2044 := by decide +kernel
  have hbound : overflowBound * stepsPerOne = (2 ^ 54 - 1) * 2 ^ 2044 := by decide +kernel
  rw [hbound, ← nearestSteps_lt_iff hden 2044, ← hlimit]
  unfold ofSteps
  split
  · rename_i h
    exact iff_of_true rfl h
  · rename_i h
    exact iff_of_false Bool.false_ne_true h

theorem isFinite_ofRatio_iff (negative : Bool) {num den : Nat} (hden : 0 < den) :
    (ofRatio negative num den).isFinite ↔ num < overflowBound * den := by
  rw [ofRatio, isFinite_ofSteps_iff negative hden, Nat.mul_right_comm,
    Nat.mul_lt_mul_right Quantity.stepsPerOne_pos]

theorem isFinite_ofSteps_zero (negative : Bool) : (ofSteps negative 0 1).isFinite := by
  rw [isFinite_ofSteps_iff negative Nat.one_pos]
  decide +kernel

theorem isFinite_ofDecimal_iff (negative : Bool) (digits places : Nat) :
    (ofDecimal negative digits (-(places : Int))).isFinite ↔
      digits < overflowBound * 10 ^ places := by
  have hpos : 0 < overflowBound := by decide +kernel
  have hpow : 0 < 10 ^ places := Nat.pow_pos (by decide)
  unfold ofDecimal
  rw [if_neg (show ¬ (310 : Int) < -(places : Int) by omega)]
  split
  · rename_i hzero
    rw [hzero]
    exact iff_of_true (isFinite_ofSteps_zero negative) (Nat.mul_pos hpos hpow)
  · split
    · rename_i hsmall
      refine iff_of_true (isFinite_ofSteps_zero negative) ?_
      calc digits < 2 ^ (digits.log2 + 1) := Nat.lt_log2_self
        _ ≤ 2 ^ places := Nat.pow_le_pow_right (by decide) (by omega)
        _ ≤ 10 ^ places := Nat.pow_le_pow_left (by decide) places
        _ ≤ overflowBound * 10 ^ places := Nat.le_mul_of_pos_left _ hpos
    · split
      · rename_i hwhole
        obtain rfl : places = 0 := by omega
        rw [isFinite_ofRatio_iff negative Nat.one_pos]
        simp
      · rw [isFinite_ofRatio_iff negative (Nat.pow_pos (by decide))]
        simp

end Number

/-! ## Numerals -/

/-- The magnitude is below the bound from which on numbers are infinite. -/
def Numeral.InRange (n : Numeral) : Prop :=
  Nat.ofDigitChars 10 (n.whole ++ n.fraction) 0 < overflowBound * 10 ^ n.fraction.length

theorem Numeral.isFinite_value_iff (n : Numeral) : n.value.isFinite ↔ n.InRange :=
  Number.isFinite_ofDecimal_iff n.negative _ _

end Retention
