/-!
# Words

Words are made of ASCII letters, digits and underscores. An identifier does not start with a
digit. The name of a field may hold points as well. Case is ignored for ASCII letters only.
-/

namespace Retention

def isWordStart (c : Char) : Bool := c.isAlpha || c == '_'

def isWordChar (c : Char) : Bool := c.isAlphanum || c == '_'

def isNameChar (c : Char) : Bool := isWordChar c || c == '.'

def isIdentifier : List Char → Bool
  | [] => false
  | c :: rest => isWordStart c && rest.all isWordChar

def isFieldName : List Char → Bool
  | [] => false
  | c :: rest => isWordStart c && rest.all isNameChar

theorem isWordChar_of_isWordStart (c : Char) (h : isWordStart c) : isWordChar c := by
  simp only [isWordStart, isWordChar, Char.isAlphanum, Bool.or_eq_true] at h ⊢
  rcases h with h | h <;> simp [h]

theorem isFieldName_of_isIdentifier (text : List Char) (h : isIdentifier text) :
    isFieldName text := by
  cases text with
  | nil => exact h
  | cons c rest =>
    simp only [isIdentifier, isFieldName, Bool.and_eq_true, List.all_eq_true] at h ⊢
    exact ⟨h.1, fun d hd => by simp [isNameChar, h.2 d hd]⟩

/-- Whether two texts differ at most in the case of ASCII letters. -/
def sameIgnoringCase (s t : List Char) : Bool := s.map Char.toLower == t.map Char.toLower

end Retention
