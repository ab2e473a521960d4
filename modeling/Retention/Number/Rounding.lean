/-!
# Rounding

A finite number is a whole number of steps of 2⁻¹⁰⁷⁴, kept to 53 significant bits.
Rounding a quotient of naturals goes to the nearest such number of steps, and a tie goes
to the even neighbour. A number of steps that 53 bits already hold is not changed.
-/

namespace Retention

-- A power is the core one, also where a monoid would give another.
attribute [instance (high), default_instance (high + 1)] instPowNat

/-! ## Whole quotients -/

/-- The quotient as a whole number, a half going to the even neighbour. -/
def roundDiv (num den : Nat) : Nat :=
  if 2 * (num % den) < den then num / den
  else if den < 2 * (num % den) then num / den + 1
  else num / den + num / den % 2

theorem roundDiv_le_succ (num den : Nat) : roundDiv num den ≤ num / den + 1 := by
  unfold roundDiv
  split
  · omega
  · split <;> omega

theorem roundDiv_mul (q den : Nat) (h : 0 < den) : roundDiv (q * den) den = q := by
  simp [roundDiv, Nat.mul_div_cancel q h, h]

/-! ## Steps that 53 bits hold -/

def Representable (steps : Nat) : Prop := ∃ m s, m < 2 ^ 53 ∧ steps = m * 2 ^ s

theorem representable_mul_two_pow (m s : Nat) (h : m ≤ 2 ^ 53) : Representable (m * 2 ^ s) := by
  rcases Nat.lt_or_eq_of_le h with h | rfl
  · exact ⟨m, s, h, rfl⟩
  · exact ⟨1, 53 + s, by decide, by rw [Nat.one_mul, Nat.pow_add]⟩

/-- How many low bits a whole part of this size cannot keep. -/
def droppedBits (whole : Nat) : Nat := whole.log2 - 52

theorem lt_two_pow_droppedBits (whole : Nat) : whole < 2 ^ 53 * 2 ^ droppedBits whole := by
  rw [← Nat.pow_add, droppedBits]
  exact Nat.lt_of_lt_of_le Nat.lt_log2_self (Nat.pow_le_pow_right (by decide) (by omega))

theorem two_pow_droppedBits_dvd (n : Nat) (h : Representable n) : 2 ^ droppedBits n ∣ n := by
  obtain ⟨m, s, hm, rfl⟩ := h
  by_cases h0 : m = 0
  · simp [h0]
  · refine Nat.dvd_trans (Nat.pow_dvd_pow 2 ?_) (Nat.dvd_mul_left _ m)
    have hlt : m * 2 ^ s < 2 ^ (53 + s) := by
      rw [Nat.pow_add]
      exact Nat.mul_lt_mul_of_pos_right hm (Nat.two_pow_pos s)
    have hne : m * 2 ^ s ≠ 0 := Nat.mul_ne_zero h0 (Nat.ne_of_gt (Nat.two_pow_pos s))
    have := (Nat.log2_lt hne).2 hlt
    simp only [droppedBits]
    omega

/-! ## Nearest steps -/

/-- The number of steps closest to `num / den` that 53 bits hold. -/
def nearestSteps (num den : Nat) : Nat :=
  roundDiv num (den * 2 ^ droppedBits (num / den)) * 2 ^ droppedBits (num / den)

theorem roundDiv_droppedBits_le (num den : Nat) :
    roundDiv num (den * 2 ^ droppedBits (num / den)) ≤ 2 ^ 53 := by
  refine Nat.le_trans (roundDiv_le_succ _ _) ?_
  rw [← Nat.div_div_eq_div_mul]
  exact Nat.div_lt_of_lt_mul (by rw [Nat.mul_comm]; exact lt_two_pow_droppedBits _)

theorem nearestSteps_representable (num den : Nat) : Representable (nearestSteps num den) :=
  representable_mul_two_pow _ _ (roundDiv_droppedBits_le num den)

/-- What 53 bits hold already is its own rounding. -/
theorem nearestSteps_mul (n den : Nat) (h : Representable n) (hden : 0 < den) :
    nearestSteps (n * den) den = n := by
  obtain ⟨m, hm⟩ := two_pow_droppedBits_dvd n h
  rw [nearestSteps, Nat.mul_div_cancel n hden]
  generalize 2 ^ droppedBits n = u at hm
  rw [hm, Nat.mul_comm u m, Nat.mul_assoc, Nat.mul_comm u den]
  by_cases hu : u = 0
  · simp [hu]
  · rw [roundDiv_mul _ _ (Nat.mul_pos hden (Nat.pos_of_ne_zero hu))]

end Retention
