import Retention.Grammar.Rule

/-!
# How rules are spelled

A rule is spelled as tokens with spaces in front of them. Where a token ends is decided by what
follows it, so a text is taken apart together with what is left of it.
-/

namespace Retention

/-! ## Tokens -/

/-- Whether a text starts with a character of a class. -/
def startsWith (p : Char → Bool) (text : List Char) : Bool := text.head?.any p

/-- A token, and whether what follows it would belong to it as well. -/
structure Token where
  text : List Char
  goesOn : List Char → Bool

/-- The digits of a number, with a point only if there are digits after it. -/
structure Numeral where
  negative : Bool
  whole : List Char
  fraction : List Char
  whole_ne_nil : whole ≠ []
  whole_digits : whole.all Char.isDigit
  fraction_digits : fraction.all Char.isDigit

namespace Numeral

def fractionText (digits : List Char) : List Char := if digits = [] then [] else '.' :: digits

def text (n : Numeral) : List Char := signText n.negative ++ n.whole ++ fractionText n.fraction

/-- Whether a text starts with a point and a digit. -/
def startsFraction : List Char → Bool
  | '.' :: rest => startsWith Char.isDigit rest
  | _ => false

def goesOn (n : Numeral) (rest : List Char) : Bool :=
  startsWith Char.isDigit rest || (n.fraction.isEmpty && startsFraction rest)

end Numeral

namespace Token

/-- A keyword or the name of a field. -/
def word (text : List Char) : Token := ⟨text, startsWith isNameChar⟩

def bareLabel (text : List Char) : Token := ⟨text, startsWith isWordChar⟩

def numeral (n : Numeral) : Token := ⟨n.text, n.goesOn⟩

def quoted (quote : Char) (body : List Char) : Token :=
  ⟨quote :: body ++ [quote], fun _ => false⟩

def comparator (op : Comparator) : Token :=
  ⟨op.text.toList, fun rest => (op == .lt || op == .gt) && startsWith (· == '=') rest⟩

end Token

/-- The characters that stand for another one, or for themselves, behind a backslash. -/
def escapePairs : List (Char × Char) :=
  [('"', '"'), ('\'', '\''), ('\\', '\\'), ('n', '\n'), ('t', '\t')]

/-- What a backslash and a character mean. Other pairs mean themselves. -/
def pairText (c : Char) : List Char :=
  match escapePairs.lookup c with
  | some meant => [meant]
  | none => ['\\', c]

/-- What stands between quotes, and the text it means. -/
inductive QuotedBody (quote : Char) : List Char → List Char → Prop
  | nil : QuotedBody quote [] []
  | plain {c : Char} {body text : List Char} : c ≠ quote → c ≠ '\\' → QuotedBody quote body text →
    QuotedBody quote (c :: body) (c :: text)
  | pair (c : Char) {body text : List Char} : QuotedBody quote body text →
    QuotedBody quote ('\\' :: c :: body) (pairText c ++ text)

/-- A character between quotes as it is, or as a pair that means it. -/
def SpellsChar (quote c : Char) (written : List Char) : Prop :=
  (written = [c] ∧ c ≠ quote ∧ c ≠ '\\') ∨ ∃ d, written = ['\\', d] ∧ pairText d = [c]

/-! ## Conditions -/

inductive OperandToken : Operand → Token → Prop
  | field {name : List Char} : isFieldName name → Reader.isReserved name = false →
    OperandToken (.field (String.ofList name)) (.word name)
  | null {w : List Char} : Reader.isKeyword "NULL" w → OperandToken (.literal .null) (.word w)
  | number {n : Numeral} {x : Number} : Number.read? n.text = some x →
    OperandToken (.literal (.number x)) (.numeral n)
  | string {quote : Char} {body text : List Char} : Reader.isQuote quote →
    QuotedBody quote body text →
    OperandToken (.literal (.string (String.ofList text))) (.quoted quote body)

inductive TermTokens : Condition → List Token → Prop
  | true {w : List Char} : Reader.isKeyword "TRUE" w → TermTokens (.const true) [.word w]
  | false {w : List Char} : Reader.isKeyword "FALSE" w → TermTokens (.const false) [.word w]
  | compare {l r : Operand} {op : Comparator} {s t : Token} : OperandToken l s → OperandToken r t →
    TermTokens (.compare ⟨l, op, r⟩) [s, .comparator op, t]

/-- A condition is a term, or a condition joined to the term after it. So AND and OR have equal
rank and are grouped to the left. -/
inductive ConditionTokens : Condition → List Token → Prop
  | term {t : Condition} {tokens : List Token} : TermTokens t tokens → ConditionTokens t tokens
  | and {c t : Condition} {before after : List Token} {w : List Char} : ConditionTokens c before →
    Reader.isKeyword "AND" w → TermTokens t after →
    ConditionTokens (c.and t) (before ++ .word w :: after)
  | or {c t : Condition} {before after : List Token} {w : List Char} : ConditionTokens c before →
    Reader.isKeyword "OR" w → TermTokens t after →
    ConditionTokens (c.or t) (before ++ .word w :: after)

/-! ## Rules -/

inductive LabelToken : Label → Token → Prop
  | bare {name : List Char} : name ≠ [] → name.all isWordChar →
    LabelToken ⟨String.ofList name⟩ (.bareLabel name)
  | quoted {quote : Char} {body name : List Char} : Reader.isQuote quote →
    QuotedBody quote body name → name ≠ [] →
    LabelToken ⟨String.ofList name⟩ (.quoted quote body)

inductive RuleTokens : Rule → List Token → Prop
  | conditional {c : Condition} {l : Label} {i t r : List Char} {tokens : List Token}
      {last : Token} : Reader.isKeyword "IF" i → ConditionTokens c tokens →
    Reader.isKeyword "THEN" t → Reader.isKeyword "RETURN" r → LabelToken l last →
    RuleTokens (.conditional c l) (.word i :: tokens ++ [.word t, .word r, last])
  | fallback {l : Label} {r : List Char} {last : Token} : Reader.isKeyword "RETURN" r →
    LabelToken l last → RuleTokens (.fallback l) [.word r, last]

/-! ## Texts -/

/-- Some tokens at the front of a text, each after its spaces and each as long as it can be, and
what is left of the text. -/
inductive Spaced : List Token → List Char → List Char → Prop
  | nil (rest : List Char) : Spaced [] rest rest
  | cons {gap between rest : List Char} {token : Token} {tokens : List Token} : gap.all isSpace →
    token.goesOn between = false → Spaced tokens between rest →
    Spaced (token :: tokens) (gap ++ token.text ++ between) rest

/-- Spaces and then a comment, or spaces alone. -/
def IsTail (text : List Char) : Prop :=
  ∃ gap note, gap.all isSpace ∧ text = gap ++ note ∧
    (note = [] ∨ ∃ comment, note = '/' :: '/' :: comment ∧ ∀ c ∈ comment, c ≠ '\n' ∧ c ≠ '\r')

def SpellsCondition (text : List Char) (c : Condition) : Prop :=
  ∃ tokens tail, ConditionTokens c tokens ∧ Spaced tokens text tail ∧ tail.all isSpace

def SpellsRule (text : List Char) (rule : Rule) : Prop :=
  ∃ tokens tail, RuleTokens rule tokens ∧ Spaced tokens text tail ∧ IsTail tail

/-! ## Quoted texts -/

/-- A text is spelled character by character. -/
theorem quotedBody_flatMap {quote : Char} {write : Char → List Char} {text : List Char}
    (h : ∀ c ∈ text, SpellsChar quote c (write c)) :
    QuotedBody quote (text.flatMap write) text := by
  induction text with
  | nil => exact .nil
  | cons c text ih =>
    rw [List.forall_mem_cons] at h
    rw [List.flatMap_cons]
    rcases h.1 with ⟨hc, hquote, hslash⟩ | ⟨d, hd, hmeans⟩
    · rw [hc]
      exact (ih h.2).plain hquote hslash
    · have hpair := (ih h.2).pair d
      rw [hmeans] at hpair
      rw [hd]
      exact hpair

/-! ## Pieces of a text -/

theorem startsWith_nil (p : Char → Bool) : startsWith p [] = false := rfl

@[simp] theorem startsWith_cons (p : Char → Bool) (c : Char) (rest : List Char) :
    startsWith p (c :: rest) = p c := by
  simp [startsWith]

theorem startsWith_eq_false_of_imp {p q : Char → Bool} (hpq : ∀ c, p c → q c) {text : List Char}
    (h : startsWith q text = false) : startsWith p text = false := by
  cases text with
  | nil => rfl
  | cons c rest =>
    rw [startsWith_cons, Bool.eq_false_iff] at h ⊢
    exact fun hc => h (hpq c hc)

theorem startsWith_eq_false_of_disjoint {p q : Char → Bool} (hpq : ∀ c, p c → q c = false)
    {text : List Char} (h : startsWith p text) : startsWith q text = false := by
  cases text with
  | nil => rfl
  | cons c rest =>
    rw [startsWith_cons] at h ⊢
    exact hpq c h

/-- A class without two characters is apart from these two. -/
theorem eq_false_of_pair {p : Char → Bool} {a b : Char} (ha : p a = false) (hb : p b = false)
    {c : Char} (h : p c) : decide (c = a ∨ c = b) = false := by
  rw [decide_eq_false_iff_not]
  rintro (rfl | rfl)
  · rw [ha] at h
    cases h
  · rw [hb] at h
    cases h

theorem isSpace_eq_false {p : Char → Bool} (hblank : p ' ' = false) (htab : p '\t' = false)
    (c : Char) (h : p c) : isSpace c = false :=
  eq_false_of_pair hblank htab h

theorem isQuote_eq_false {p : Char → Bool} (hdouble : p '"' = false) (hsingle : p '\'' = false)
    (c : Char) (h : p c) : Reader.isQuote c = false :=
  eq_false_of_pair hdouble hsingle h

theorem spaced_append_iff {before after : List Token} {text rest : List Char} :
    Spaced (before ++ after) text rest ↔
      ∃ between, Spaced before text between ∧ Spaced after between rest := by
  induction before generalizing text with
  | nil =>
    constructor
    · intro h
      exact ⟨text, .nil text, h⟩
    · rintro ⟨_, ⟨⟩, h⟩
      exact h
  | cons token tokens ih =>
    constructor
    · rintro (_ | ⟨hgap, hends, h⟩)
      obtain ⟨between, h1, h2⟩ := ih.1 h
      exact ⟨between, .cons hgap hends h1, h2⟩
    · rintro ⟨between, _ | ⟨hgap, hends, h1⟩, h2⟩
      exact .cons hgap hends (ih.2 ⟨between, h1, h2⟩)

theorem spaced_cons_iff {token : Token} {tokens : List Token} {text rest : List Char} :
    Spaced (token :: tokens) text rest ↔
      ∃ between, Spaced [token] text between ∧ Spaced tokens between rest := by
  rw [← spaced_append_iff, List.singleton_append]

theorem spaced_singleton_iff {token : Token} {text rest : List Char} :
    Spaced [token] text rest ↔
      ∃ gap, gap.all isSpace ∧ token.goesOn rest = false ∧ text = gap ++ token.text ++ rest := by
  constructor
  · rintro (_ | ⟨hgap, hends, ⟨⟩⟩)
    exact ⟨_, hgap, hends, rfl⟩
  · rintro ⟨gap, hgap, hends, rfl⟩
    exact .cons hgap hends (.nil rest)

end Retention
