import Retention.Proofs.Grammar.Numerals

/-!
# Numbers read back

A finite number is printed as a numeral, and the numeral is read as the number. Rounding depends
on a quotient only, so it does not matter in which units a decimal is counted.
-/

namespace Retention

/-! ## Rounding quotients -/

theorem roundDiv_mul_right (num den : Nat) {k : Nat} (hk : 0 < k) :
    roundDiv (num * k) (den * k) = roundDiv num den := by
  unfold roundDiv
  rw [Nat.mul_mod_mul_right, Nat.mul_div_mul_right num den hk, ← Nat.mul_assoc]
  simp only [Nat.mul_lt_mul_right hk]

theorem nearestSteps_mul_right (num den : Nat) {k : Nat} (hk : 0 < k) :
    nearestSteps (num * k) (den * k) = nearestSteps num den := by
  unfold nearestSteps
  rw [Nat.mul_div_mul_right num den hk, Nat.mul_right_comm, roundDiv_mul_right _ _ hk]

theorem nearestSteps_congr {num den num' den' : Nat} (hden : 0 < den) (hden' : 0 < den')
    (h : num * den' = num' * den) : nearestSteps num den = nearestSteps num' den' := by
  rw [← nearestSteps_mul_right num den hden', h, Nat.mul_comm den den',
    nearestSteps_mul_right num' den' hden]

/-- Less than half a step is rounded to zero. -/
theorem nearestSteps_eq_zero {num den : Nat} (h : 2 * num < den) : nearestSteps num den = 0 := by
  have hdiv : num / den = 0 := Nat.div_eq_of_lt (by omega)
  have hmod : num % den = num := Nat.mod_eq_of_lt (by omega)
  have hdropped : droppedBits (num / den) = 0 := by
    rw [hdiv]
    rfl
  unfold nearestSteps roundDiv
  rw [hdropped, Nat.pow_zero, Nat.mul_one, Nat.mul_one, hmod, if_pos h, hdiv]

theorem Number.ofSteps_congr {num den num' den' : Nat}
    (h : nearestSteps num den = nearestSteps num' den') (negative : Bool) :
    Number.ofSteps negative num den = Number.ofSteps negative num' den' := by
  simp only [Number.ofSteps, h]

/-! ## Shortest decimals -/

theorem unitsPerStep_pos : 0 < unitsPerStep := Nat.pow_pos (by decide)

theorem nearestSteps_of_gridDecimal? {steps grid units : Nat}
    (h : gridDecimal? steps grid = some units) : nearestSteps units unitsPerStep = steps := by
  unfold gridDecimal? readsBack at h
  simp only [beq_iff_eq] at h
  split at h
  · rename_i hlow
    split at h
    · rename_i hhigh
      cases h
      exact hhigh.1
    · cases h
      exact hlow
  · split at h
    · rename_i hhigh
      cases h
      exact hhigh
    · cases h

theorem nearestSteps_shortestDecimal {steps : Nat} (h : Representable steps) :
    nearestSteps (shortestDecimal steps) unitsPerStep = steps := by
  simp only [shortestDecimal]
  cases hfind : (List.range 17).findSome? fun n => gridDecimal? steps
      (10 ^ ((Nat.toDigits 10 (steps * unitsPerStep)).length - (n + 1))) with
  | none =>
    rw [Option.getD_none]
    exact nearestSteps_mul steps unitsPerStep h unitsPerStep_pos
  | some units =>
    obtain ⟨n, -, hn⟩ := List.exists_of_findSome?_eq_some hfind
    rw [Option.getD_some]
    exact nearestSteps_of_gridDecimal? hn

/-! ## Digits around a point -/

theorem exists_dropTrailingZeros (digits : List Char) :
    ∃ k, digits = dropTrailingZeros digits ++ List.replicate k '0' := by
  refine ⟨(digits.reverse.takeWhile (· = '0')).length, ?_⟩
  have hzeros : digits.reverse.takeWhile (· = '0') =
      List.replicate (digits.reverse.takeWhile (· = '0')).length '0' := by
    refine List.eq_replicate_iff.2 ⟨rfl, fun c hc => ?_⟩
    simpa using List.all_eq_true.1 List.all_takeWhile c hc
  have hsplit : digits.reverse.takeWhile (· = '0') ++ digits.reverse.dropWhile (· = '0') =
      digits.reverse := List.takeWhile_append_dropWhile
  rw [hzeros] at hsplit
  have h := congrArg List.reverse hsplit
  rw [List.reverse_append, List.reverse_replicate, List.reverse_reverse] at h
  exact h.symm

theorem ofDigitChars_fractionDigits (places part : Nat) :
    Nat.ofDigitChars 10 (fractionDigits places part) 0 = part := by
  unfold fractionDigits
  rw [Nat.ofDigitChars_append, Nat.ofDigitChars_replicate_zero, Nat.mul_zero,
    Nat.ofDigitChars_ten_toDigits]

theorem length_fractionDigits {places part : Nat} (hplaces : 0 < places)
    (h : part < 10 ^ places) : (fractionDigits places part).length = places := by
  have hlen : (Nat.toDigits 10 part).length ≤ places :=
    (Nat.length_toDigits_le_iff (by decide) hplaces).2 h
  unfold fractionDigits
  rw [List.length_append, List.length_replicate]
  omega

theorem isDigit_of_mem_fractionDigits {places part : Nat} {c : Char}
    (h : c ∈ fractionDigits places part) : c.isDigit := by
  unfold fractionDigits at h
  rcases List.mem_append.1 h with h | h
  · rw [List.eq_of_mem_replicate h]
    rfl
  · exact Nat.isDigit_of_mem_toDigits (by decide) (by decide) h

/-! ## Plain decimals -/

/-- The digits after the point of a decimal, with no zeros at their end. -/
def plainFraction (units : Nat) : List Char :=
  if units % unitsPerOne = 0 then []
  else dropTrailingZeros (fractionDigits stepExponent (units % unitsPerOne))

theorem unitsPerOne_pos : 0 < unitsPerOne := Nat.pow_pos (by decide)

theorem plainFraction_of_whole {units : Nat} (h : units % unitsPerOne = 0) :
    plainFraction units = [] := if_pos h

theorem length_fractionDigits_mod (units : Nat) :
    (fractionDigits stepExponent (units % unitsPerOne)).length = stepExponent :=
  length_fractionDigits (by decide) (Nat.mod_lt units unitsPerOne_pos)

/-- The digits that a decimal shows after the point are all there are but zeros. -/
theorem exists_zeros_plainFraction {units : Nat} (h : units % unitsPerOne ≠ 0) :
    ∃ k, fractionDigits stepExponent (units % unitsPerOne) =
      plainFraction units ++ List.replicate k '0' ∧
      (plainFraction units).length + k = stepExponent := by
  obtain ⟨k, hk⟩ := exists_dropTrailingZeros (fractionDigits stepExponent (units % unitsPerOne))
  have hlen := length_fractionDigits_mod units
  rw [plainFraction, if_neg h]
  refine ⟨k, hk, ?_⟩
  rw [hk, List.length_append, List.length_replicate] at hlen
  exact hlen

theorem length_plainFraction_le (units : Nat) : (plainFraction units).length ≤ stepExponent := by
  by_cases h : units % unitsPerOne = 0
  · rw [plainFraction_of_whole h]
    exact Nat.zero_le _
  · obtain ⟨k, -, hlen⟩ := exists_zeros_plainFraction h
    omega

/-- The digits of a plain decimal count its units. -/
theorem ofDigitChars_plainFraction (units : Nat) :
    Nat.ofDigitChars 10 (Nat.toDigits 10 (units / unitsPerOne) ++ plainFraction units) 0 *
      10 ^ (stepExponent - (plainFraction units).length) = units := by
  have hunits := Nat.div_add_mod units unitsPerOne
  by_cases h : units % unitsPerOne = 0
  · rw [h, Nat.add_zero] at hunits
    rw [plainFraction_of_whole h, List.append_nil, Nat.ofDigitChars_ten_toDigits, List.length_nil,
      Nat.sub_zero, Nat.mul_comm]
    exact hunits
  · obtain ⟨k, hk, hlen⟩ := exists_zeros_plainFraction h
    have hall : Nat.ofDigitChars 10 (Nat.toDigits 10 (units / unitsPerOne) ++
        fractionDigits stepExponent (units % unitsPerOne)) 0 = units := by
      rw [Nat.ofDigitChars_append, Nat.ofDigitChars_ten_toDigits,
        Nat.ofDigitChars_eq_ofDigitChars_zero, ofDigitChars_fractionDigits,
        length_fractionDigits_mod]
      exact hunits
    rw [hk, ← List.append_assoc, Nat.ofDigitChars_append, Nat.ofDigitChars_replicate_zero] at hall
    rw [show stepExponent - (plainFraction units).length = k by omega, Nat.mul_comm]
    exact hall

theorem isDigit_of_mem_plainFraction {units : Nat} {c : Char} (h : c ∈ plainFraction units) :
    c.isDigit := by
  by_cases hpart : units % unitsPerOne = 0
  · rw [plainFraction_of_whole hpart] at h
    cases h
  · obtain ⟨k, hk, -⟩ := exists_zeros_plainFraction hpart
    have hmem : c ∈ fractionDigits stepExponent (units % unitsPerOne) := by
      rw [hk]
      exact List.mem_append_left _ h
    exact isDigit_of_mem_fractionDigits hmem

theorem plainFraction_ne_nil {units : Nat} (h : units % unitsPerOne ≠ 0) :
    plainFraction units ≠ [] := by
  intro hnil
  obtain ⟨k, hk, -⟩ := exists_zeros_plainFraction h
  have hvalue := ofDigitChars_fractionDigits stepExponent (units % unitsPerOne)
  rw [hk, hnil, List.nil_append, Nat.ofDigitChars_replicate_zero, Nat.mul_zero] at hvalue
  exact h hvalue.symm

def plainNumeral (negative : Bool) (units : Nat) : Numeral where
  negative := negative
  whole := Nat.toDigits 10 (units / unitsPerOne)
  fraction := plainFraction units
  whole_ne_nil := Nat.toDigits_ne_nil
  whole_digits := List.all_eq_true.2 fun _ hc =>
    Nat.isDigit_of_mem_toDigits (by decide) (by decide) hc
  fraction_digits := List.all_eq_true.2 fun _ hc => isDigit_of_mem_plainFraction hc

theorem text_plainNumeral (negative : Bool) (units : Nat) :
    (plainNumeral negative units).text = signText negative ++ plainText units := by
  unfold Numeral.text plainNumeral plainText Numeral.fractionText
  by_cases h : units % unitsPerOne = 0
  · simp [plainFraction_of_whole h, h]
  · simp only [plainFraction_ne_nil h, h, if_false, List.append_assoc]
    rw [plainFraction, if_neg h]

/-! ## Decimals in other units -/

theorem two_pow_mul_five_pow_lt {a b : Nat} (h : 2 ^ a < 5 ^ b) (k : Nat) :
    2 ^ a * 5 ^ k < 5 ^ (b + k) := by
  rw [Nat.pow_add 5]
  exact Nat.mul_lt_mul_of_pos_right h (Nat.pow_pos (by decide))

theorem two_pow_lt_five_pow : 2 ^ 744 < 5 ^ 332 := by decide +kernel

/-- A decimal that is settled as zero for its exponent is less than half a step. -/
theorem two_mul_lt_unitsPerStep {digits places : Nat} (hplaces : places ≤ stepExponent)
    (h : digits.log2 + 331 < places) :
    2 * (digits * 10 ^ (stepExponent - places)) < unitsPerStep := by
  obtain ⟨k, hk⟩ : ∃ k, stepExponent - places = k := ⟨_, rfl⟩
  rw [hk]
  unfold stepExponent at hplaces hk
  have hlog : 2 * digits ≤ 2 ^ (744 - k) := by
    calc 2 * digits ≤ 2 * 2 ^ (digits.log2 + 1) :=
          Nat.mul_le_mul_left 2 (Nat.le_of_lt Nat.lt_log2_self)
      _ = 2 ^ (digits.log2 + 2) := by rw [Nat.mul_comm, ← Nat.pow_succ]
      _ ≤ 2 ^ (744 - k) := Nat.pow_le_pow_right (by decide) (by omega)
  have hle : 2 * (digits * 10 ^ k) ≤ 2 ^ (744 - k + k) * 5 ^ k := by
    calc 2 * (digits * 10 ^ k) = 2 * digits * (2 ^ k * 5 ^ k) := by
          rw [← Nat.mul_pow, Nat.mul_assoc]
      _ ≤ 2 ^ (744 - k) * (2 ^ k * 5 ^ k) := Nat.mul_le_mul_right _ hlog
      _ = 2 ^ (744 - k + k) * 5 ^ k := by rw [← Nat.mul_assoc, ← Nat.pow_add]
  have hpow : 2 ^ (744 - k + k) < 5 ^ 332 :=
    Nat.lt_of_le_of_lt (Nat.pow_le_pow_right (by decide) (by omega)) two_pow_lt_five_pow
  have hlt := two_pow_mul_five_pow_lt hpow k
  have hend : 5 ^ (332 + k) ≤ unitsPerStep :=
    Nat.pow_le_pow_right (by decide) (by unfold stepExponent; omega)
  exact Nat.lt_of_le_of_lt hle (Nat.lt_of_lt_of_le hlt hend)

/-- The units of a decimal and its digits are in one ratio to the units of a step and of one. -/
theorem digits_mul_stepsPerOne_mul {digits places units : Nat} (hplaces : places ≤ stepExponent)
    (h : digits * 10 ^ (stepExponent - places) = units) :
    digits * stepsPerOne * unitsPerStep = units * 10 ^ places := by
  rw [← h, Nat.mul_assoc, Nat.mul_assoc, ← Nat.pow_add, Nat.sub_add_cancel hplaces]
  unfold stepsPerOne unitsPerStep
  rw [← Nat.mul_pow]

theorem ofDecimal_of_units (negative : Bool) {digits places units : Nat}
    (hplaces : places ≤ stepExponent) (h : digits * 10 ^ (stepExponent - places) = units) :
    Number.ofDecimal negative digits (-(places : Int)) =
      Number.ofSteps negative units unitsPerStep := by
  unfold Number.ofDecimal
  split
  · rename_i hzero
    rw [hzero, Nat.zero_mul] at h
    refine Number.ofSteps_congr ?_ negative
    rw [← h]
    exact nearestSteps_congr Nat.one_pos unitsPerStep_pos (by simp)
  · rw [if_neg (by omega)]
    split
    · rename_i hsmall
      have hlog : digits.log2 + 331 < places := by omega
      have hhalf := two_mul_lt_unitsPerStep hplaces hlog
      rw [h] at hhalf
      refine Number.ofSteps_congr ?_ negative
      rw [nearestSteps_eq_zero hhalf]
      rfl
    · have hratio := digits_mul_stepsPerOne_mul hplaces h
      split
      · rename_i hwhole
        obtain rfl : places = 0 := by omega
        refine Number.ofSteps_congr (nearestSteps_congr Nat.one_pos unitsPerStep_pos ?_) negative
        simpa using hratio
      · refine Number.ofSteps_congr
          (nearestSteps_congr (Nat.pow_pos (by decide)) unitsPerStep_pos ?_) negative
        simpa using hratio

theorem value_plainNumeral (negative : Bool) (units : Nat) :
    (plainNumeral negative units).value = Number.ofSteps negative units unitsPerStep :=
  ofDecimal_of_units negative (length_plainFraction_le units) (ofDigitChars_plainFraction units)

/-- A finite number is printed as a numeral that has it as its value. -/
theorem exists_numeral_of_finite (x : Quantity) :
    ∃ n : Numeral, n.text = (Number.finite x).chars ∧ n.value = .finite x := by
  refine ⟨plainNumeral x.negative (shortestDecimal x.steps), text_plainNumeral _ _, ?_⟩
  have hback := nearestSteps_shortestDecimal x.representable
  rw [value_plainNumeral]
  unfold Number.ofSteps
  simp only [hback, x.inRange, dif_pos]

end Retention
