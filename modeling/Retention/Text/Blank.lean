/-!
# Blank characters

The blank characters are those of the Unicode property White_Space. Trimming drops them at
both ends of a text and nothing else. A space between words of a rule is only a blank or a
tab.
-/

namespace Retention

def isBlank (c : Char) : Bool :=
  (0x09 ≤ c.toNat ∧ c.toNat ≤ 0x0D) ∨ c.toNat = 0x20 ∨ c.toNat = 0x85 ∨ c.toNat = 0xA0 ∨
    c.toNat = 0x1680 ∨ (0x2000 ≤ c.toNat ∧ c.toNat ≤ 0x200A) ∨ c.toNat = 0x2028 ∨
    c.toNat = 0x2029 ∨ c.toNat = 0x202F ∨ c.toNat = 0x205F ∨ c.toNat = 0x3000

def isSpace (c : Char) : Bool := c = ' ' ∨ c = '\t'

theorem isBlank_of_isSpace (c : Char) (h : isSpace c) : isBlank c := by
  simp only [isSpace, decide_eq_true_eq] at h
  rcases h with rfl | rfl <;> decide

/-! ## Trimming -/

def trimStart (text : List Char) : List Char := text.dropWhile isBlank

def trimEnd (text : List Char) : List Char := (text.reverse.dropWhile isBlank).reverse

def trim (text : List Char) : List Char := trimEnd (trimStart text)

def isBlankText (text : List Char) : Bool := text.all isBlank

theorem trimStart_eq_nil_iff (text : List Char) : trimStart text = [] ↔ isBlankText text := by
  induction text with
  | nil => simp [trimStart, isBlankText]
  | cons c rest ih =>
    simp only [trimStart, isBlankText, List.dropWhile_cons, List.all_cons] at ih ⊢
    split <;> simp_all

theorem trimEnd_eq_nil_iff (text : List Char) : trimEnd text = [] ↔ isBlankText text := by
  have h := trimStart_eq_nil_iff text.reverse
  simp only [trimStart, isBlankText, List.all_reverse] at h
  simp [trimEnd, isBlankText, h]

theorem trim_eq_nil_iff (text : List Char) : trim text = [] ↔ isBlankText text := by
  rw [trim, trimEnd_eq_nil_iff]
  induction text with
  | nil => rfl
  | cons c rest ih =>
    simp only [trimStart, isBlankText, List.dropWhile_cons, List.all_cons] at ih ⊢
    split
    · simp_all
    · simp_all

end Retention
