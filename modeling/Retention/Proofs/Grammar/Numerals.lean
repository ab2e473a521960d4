import Retention.Proofs.Grammar.Tokens

/-!
# Reading numerals

A numeral is read as the number that its text spells.
-/

namespace Retention

/-! ## The value of a numeral -/

namespace Numeral

def value (n : Numeral) : Number :=
  .ofDecimal n.negative (Nat.ofDigitChars 10 (n.whole ++ n.fraction) 0) (-(n.fraction.length : Int))

@[simp] theorem fractionText_nil : fractionText [] = [] := rfl

theorem isDigit_ne {c : Char} (h : c.isDigit) : c ≠ '-' ∧ c ≠ '+' ∧ c ≠ '.' := by
  refine ⟨?_, ?_, ?_⟩ <;> (rintro rfl; exact absurd h (by decide))

theorem takeSign_text (n : Numeral) :
    Number.takeSign n.text = (n.negative, n.whole ++ fractionText n.fraction) := by
  unfold text signText
  cases n.negative with
  | true => rfl
  | false =>
    obtain ⟨c, whole, hwhole⟩ := List.exists_cons_of_ne_nil n.whole_ne_nil
    have hdigits := n.whole_digits
    rw [hwhole, List.all_cons, Bool.and_eq_true] at hdigits
    obtain ⟨h1, h2, -⟩ := isDigit_ne hdigits.1
    rw [hwhole]
    simp [Number.takeSign, h1, h2]

theorem startsWith_isDigit_fractionText (digits : List Char) :
    startsWith Char.isDigit (fractionText digits) = false := by
  unfold fractionText
  split <;> rfl

theorem takeFraction_fractionText {digits : List Char} (h : digits.all Char.isDigit) :
    Number.takeFraction (fractionText digits) = (digits, []) := by
  unfold fractionText
  split
  · rename_i hnil
    rw [hnil]
    rfl
  · obtain ⟨htake, hdrop⟩ := Reader.takeWhile_eq_and_dropWhile_eq_iff.2
      ⟨(List.append_nil digits).symm, h, startsWith_nil Char.isDigit⟩
    rw [Number.takeFraction, ← htake, ← hdrop]

theorem toLower_of_isDigit {c : Char} (h : c.isDigit) : c.toLower = c := by
  unfold Char.toLower
  refine dif_neg fun hupper => ?_
  simp only [Char.isDigit, Bool.and_eq_true, decide_eq_true_eq] at h
  exact absurd (UInt32.le_trans hupper.1 h.2) (by decide)

/-- What starts with a digit is none of the words for an infinity or for no number. -/
theorem readMagnitude?_of_digit (negative : Bool) {c : Char} (h : c.isDigit) (rest : List Char) :
    Number.readMagnitude? negative (c :: rest) = Number.readDecimal? negative (c :: rest) := by
  have hne : ∀ word : String, startsWith Char.isDigit word.toList = false →
      String.ofList ((c :: rest).map Char.toLower) ≠ word := by
    rintro word hword rfl
    rw [String.toList_ofList, List.map_cons, toLower_of_isDigit h, startsWith_cons, h] at hword
    cases hword
  unfold Number.readMagnitude?
  simp only [hne "inf" (by decide), hne "infinity" (by decide), hne "nan" (by decide), or_self,
    if_false]
/-- The text of a numeral is read as its value. -/
theorem read?_text (n : Numeral) : Number.read? n.text = some n.value := by
  obtain ⟨htake, hdrop⟩ := Reader.takeWhile_eq_and_dropWhile_eq_iff.2
    ⟨rfl, n.whole_digits, startsWith_isDigit_fractionText n.fraction⟩
  obtain ⟨c, whole, hwhole⟩ := List.exists_cons_of_ne_nil n.whole_ne_nil
  have hdigit : c.isDigit := by
    have h := n.whole_digits
    rw [hwhole, List.all_cons, Bool.and_eq_true] at h
    exact h.1
  have hmagnitude : Number.readMagnitude? n.negative (n.whole ++ fractionText n.fraction) =
      Number.readDecimal? n.negative (n.whole ++ fractionText n.fraction) := by
    rw [hwhole]
    exact readMagnitude?_of_digit n.negative hdigit _
  have hne : n.whole ++ n.fraction ≠ [] := by simp [n.whole_ne_nil]
  simp only [Number.read?, takeSign_text, hmagnitude, Number.readDecimal?, ← htake, ← hdrop,
    takeFraction_fractionText n.fraction_digits, hne, if_false, Number.readExponent?, value]
  simp

/-- A numeral starts with a minus sign or with a digit. -/
def isStart (c : Char) : Bool := c == '-' || c.isDigit

theorem startsWith_text (n : Numeral) (rest : List Char) : startsWith isStart (n.text ++ rest) := by
  obtain ⟨c, whole, hwhole⟩ := List.exists_cons_of_ne_nil n.whole_ne_nil
  have hdigit : c.isDigit := List.all_eq_true.1 n.whole_digits c (by simp [hwhole])
  unfold text signText
  cases n.negative with
  | true => rfl
  | false => simp [hwhole, isStart, hdigit]

end Numeral

namespace Reader

/-! ## The parts of a numeral -/

theorem optional_sign_iff {text rest : List Char} {sign : Option Unit} :
    optional (exactly ['-']) text = .ok (sign, rest) ↔
      text = signText sign.isSome ++ rest ∧ (sign = none → startsWith (· == '-') rest = false) := by
  rw [optional_eq_ok_iff, declines_exactly_iff, singleton_prefix_iff, Bool.not_eq_true]
  cases sign with
  | some u =>
    constructor
    · rintro (⟨_, -, h⟩ | ⟨h, -⟩)
      · exact ⟨exactly_eq_ok_iff.1 h, fun h => by cases h⟩
      · cases h
    · rintro ⟨h, -⟩
      exact .inl ⟨(), rfl, exactly_eq_ok_iff.2 h⟩
  | none =>
    constructor
    · rintro (⟨_, h, -⟩ | ⟨-, rfl, h⟩)
      · cases h
      · exact ⟨rfl, fun _ => h⟩
    · rintro ⟨rfl, h⟩
      exact .inr ⟨rfl, rfl, h rfl⟩

theorem fraction_iff {text rest digits : List Char} :
    fraction text = .ok (digits, rest) ↔ text = '.' :: digits ++ rest ∧ digits ≠ [] ∧
      digits.all Char.isDigit ∧ startsWith Char.isDigit rest = false := by
  unfold fraction
  simp only [bind_eq_ok_iff, many1_iff]
  constructor
  · rintro ⟨⟨⟩, between, hpoint, rfl, h⟩
    rw [exactly_eq_ok_iff] at hpoint
    exact ⟨hpoint, h⟩
  · rintro ⟨rfl, h⟩
    exact ⟨(), digits ++ rest, exactly_eq_ok_iff.2 rfl, rfl, h⟩

theorem declines_fraction_iff {text : List Char} :
    Declines fraction text ↔ Numeral.startsFraction text = false := by
  unfold Numeral.startsFraction
  split
  · rename_i rest
    have hpoint : exactly ['.'] ('.' :: rest) = .ok ((), rest) := exactly_eq_ok_iff.2 rfl
    rw [← declines_many1_iff]
    constructor
    · rintro ⟨failure, hf, hc⟩
      rw [fraction, bind_eq_error_iff, hpoint] at hf
      rcases hf with hf | ⟨_, _, hf, hm⟩
      · cases hf
      · cases hf
        exact ⟨failure, hm, hc⟩
    · intro h
      have hno : Declines (exactly ['.'] >>= fun _ => many1 Char.isDigit) ('.' :: rest) :=
        declines_bind_of_ok hpoint h
      exact hno
  · rename_i hne
    refine iff_of_true (declines_bind (declines_exactly ?_)) rfl
    rintro ⟨rest, rfl⟩
    exact hne rest rfl

/-- A point without a digit after it is left. -/
theorem optional_fraction_iff {text rest : List Char} {found : Option (List Char)} :
    optional fraction text = .ok (found, rest) ↔
      (∃ digits, found = some digits ∧ text = '.' :: digits ++ rest ∧ digits ≠ [] ∧
        digits.all Char.isDigit ∧ startsWith Char.isDigit rest = false) ∨
      (found = none ∧ rest = text ∧ Numeral.startsFraction text = false) := by
  simp only [optional_eq_ok_iff, fraction_iff, declines_fraction_iff]

/-- A numeral is read to its end. -/
theorem numeral_iff {text rest : List Char} {x : Number} :
    numeral text = .ok (x, rest) ↔
      ∃ n : Numeral, x = n.value ∧ n.goesOn rest = false ∧ text = n.text ++ rest := by
  unfold numeral
  simp only [bind_eq_ok_iff, optional_sign_iff, many1_iff, optional_fraction_iff, pure_apply,
    Except.ok.injEq, Prod.mk.injEq]
  constructor
  · rintro ⟨sign, _, ⟨rfl, -⟩, whole, _, ⟨rfl, hne, hwhole, hend⟩, _, _,
      ⟨digits, rfl, rfl, hdigits, hall, hrest⟩ | ⟨rfl, rfl, hrest⟩, rfl, rfl⟩
    · refine ⟨⟨sign.isSome, whole, digits, hne, hwhole, hall⟩, rfl, ?_, ?_⟩
      · simp [Numeral.goesOn, hrest, hdigits]
      · simp [Numeral.text, Numeral.fractionText, hdigits]
    · refine ⟨⟨sign.isSome, whole, [], hne, hwhole, rfl⟩, rfl, ?_, ?_⟩
      · simp [Numeral.goesOn, hrest, hend]
      · simp [Numeral.text, Numeral.fractionText]
  · rintro ⟨⟨negative, whole, digits, hne, hwhole, hdigits⟩, rfl, hends, rfl⟩
    obtain ⟨sign, rfl⟩ : ∃ sign : Option Unit, sign.isSome = negative := by
      cases negative
      · exact ⟨none, rfl⟩
      · exact ⟨some (), rfl⟩
    simp only [Numeral.goesOn, Bool.or_eq_false_iff] at hends
    obtain ⟨c, more, hc⟩ := List.exists_cons_of_ne_nil hne
    have hdigit : c.isDigit := List.all_eq_true.1 hwhole c (by simp [hc])
    have hsign : startsWith (· == '-') (whole ++ Numeral.fractionText digits ++ rest) = false := by
      simp [hc, (Numeral.isDigit_ne hdigit).1]
    refine ⟨sign, whole ++ Numeral.fractionText digits ++ rest,
      ⟨by simp [Numeral.text], fun _ => hsign⟩, whole, Numeral.fractionText digits ++ rest,
      ⟨by simp, hne, hwhole, ?_⟩, ?_⟩
    · by_cases h : digits = [] <;> simp [Numeral.fractionText, h, hends.1, Char.isDigit]
    · by_cases h : digits = []
      · subst h
        exact ⟨none, rest, .inr ⟨rfl, rfl, by simpa using hends.2⟩, rfl, rfl⟩
      · refine ⟨some digits, rest, .inl ⟨digits, rfl, ?_, h, hdigits, hends.1⟩, rfl, rfl⟩
        simp [Numeral.fractionText, h]

theorem declines_numeral {text : List Char} (h : startsWith Numeral.isStart text = false) :
    Declines numeral text := by
  have hminus : startsWith (· == '-') text = false :=
    startsWith_eq_false_of_imp (fun c hc => by simp_all [Numeral.isStart]) h
  have hdigit : startsWith Char.isDigit text = false :=
    startsWith_eq_false_of_imp (fun c hc => by simp_all [Numeral.isStart]) h
  have hsign : optional (exactly ['-']) text = .ok (none, text) :=
    optional_sign_iff.2 ⟨rfl, fun _ => hminus⟩
  exact declines_bind_of_ok hsign (declines_bind (declines_many1 hdigit))

theorem solid_numeral (n : Numeral) : Solid (.numeral n) := by
  have h := n.startsWith_text []
  rw [List.append_nil] at h
  unfold Solid Token.numeral
  cases ht : n.text with
  | nil => rw [ht] at h; cases h
  | cons c rest =>
    rw [ht, startsWith_cons] at h
    exact ⟨List.cons_ne_nil c rest, isSpace_eq_false rfl rfl c h⟩

end Reader

end Retention
