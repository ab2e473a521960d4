import Retention.Proofs.Faults
import Retention.Proofs.Grammar.Rules
import Retention.Proofs.Overflow

/-!
# Numeric conditions

A condition whose literals are numerals compares numbers with numbers on a record of finite
numbers. Its comparisons can all be made unless a numeral is too large to be finite. Such a
numeral is read as an infinity, and its comparison faults.
-/

namespace Retention

/-! ## Literals -/

def Operand.literal? : Operand → Option Value
  | .field _ => none
  | .literal value => some value

def Comparison.literals (c : Comparison) : List Value :=
  c.left.literal?.toList ++ c.right.literal?.toList

/-- The literals of a condition, in the order they stand. -/
def Condition.literals (e : Condition) : List Value := e.comparisons.flatMap Comparison.literals

theorem Comparison.mem_literals_iff {c : Comparison} {v : Value} :
    v ∈ c.literals ↔ c.left = .literal v ∨ c.right = .literal v := by
  have hside : ∀ o : Operand, o.literal? = some v ↔ o = .literal v := by
    intro o
    cases o <;> simp [Operand.literal?]
  simp [literals, hside]

theorem Condition.mem_literals_iff {e : Condition} {v : Value} :
    v ∈ e.literals ↔ ∃ c ∈ e.comparisons, c.left = .literal v ∨ c.right = .literal v := by
  simp only [literals, List.mem_flatMap, Comparison.mem_literals_iff]

/-! ## The text of a literal -/

theorem infix_of_mem_spaced {tokens : List Token} {text rest : List Char}
    (h : Spaced tokens text rest) : ∀ token ∈ tokens, token.text <:+: text := by
  induction h with
  | nil => exact List.forall_mem_nil _
  | @cons gap between _ token _ _ _ _ ih =>
    rw [List.forall_mem_cons]
    refine ⟨⟨gap, between, rfl⟩, fun other hother => ?_⟩
    exact (ih other hother).trans (List.suffix_append _ _).isInfix

/-- One of the tokens spells the operand. -/
def Operand.IsAmong (tokens : List Token) (o : Operand) : Prop :=
  ∃ token ∈ tokens, OperandToken o token

theorem Operand.IsAmong.mono {o : Operand} {tokens more : List Token} (h : o.IsAmong tokens)
    (hsub : tokens ⊆ more) : o.IsAmong more := by
  obtain ⟨token, htoken, ho⟩ := h
  exact ⟨token, hsub htoken, ho⟩

theorem isAmong_of_termTokens {t : Condition} {tokens : List Token} (h : TermTokens t tokens) :
    ∀ c ∈ t.comparisons, c.left.IsAmong tokens ∧ c.right.IsAmong tokens := by
  cases h with
  | true | false => exact List.forall_mem_nil _
  | compare hl hr =>
    rw [Condition.comparisons, List.forall_mem_singleton]
    exact ⟨⟨_, by simp, hl⟩, ⟨_, by simp, hr⟩⟩

theorem isAmong_of_conditionTokens {e : Condition} {tokens : List Token}
    (h : ConditionTokens e tokens) :
    ∀ c ∈ e.comparisons, c.left.IsAmong tokens ∧ c.right.IsAmong tokens := by
  induction h with
  | term ht => exact isAmong_of_termTokens ht
  | and _ _ ht ih | or _ _ ht ih =>
    rw [Condition.comparisons, List.forall_mem_append]
    refine ⟨fun c hc => ?_, fun c hc => ?_⟩
    · obtain ⟨hl, hr⟩ := ih c hc
      exact ⟨hl.mono (by simp), hr.mono (by simp)⟩
    · obtain ⟨hl, hr⟩ := isAmong_of_termTokens ht c hc
      exact ⟨hl.mono (by simp), hr.mono (by simp)⟩

theorem exists_numeral_of_operandToken {x : Number} {token : Token}
    (h : OperandToken (.literal (.number x)) token) :
    ∃ n : Numeral, token.text = n.text ∧ x = n.value := by
  cases h with
  | @number n _ hread =>
    rw [Numeral.read?_text, Option.some.injEq] at hread
    exact ⟨n, rfl, hread.symm⟩

/-- A number among the literals is the value of a numeral in the text. -/
theorem exists_numeral_of_mem_literals {text : String} {e : Condition} {x : Number}
    (hparse : Condition.parse text = .ok e) (hx : .number x ∈ e.literals) :
    ∃ n : Numeral, n.text <:+: text.toList ∧ x = n.value := by
  obtain ⟨tokens, tail, htokens, hspaced, -⟩ := Condition.parse_eq_ok_iff.1 hparse
  obtain ⟨c, hc, hside⟩ := Condition.mem_literals_iff.1 hx
  obtain ⟨hleft, hright⟩ := isAmong_of_conditionTokens htokens c hc
  obtain ⟨token, htoken, ho⟩ : (Operand.literal (.number x)).IsAmong tokens := by
    rcases hside with hside | hside
    · rwa [hside] at hleft
    · rwa [hside] at hright
  obtain ⟨n, htext, hvalue⟩ := exists_numeral_of_operandToken ho
  have hinfix := infix_of_mem_spaced hspaced token htoken
  rw [htext] at hinfix
  exact ⟨n, hinfix, hvalue⟩

/-! ## Comparisons of numbers -/

/-- Every field that a condition names holds a finite number. -/
def Record.BindsNumbers (record : Record) (names : List String) : Prop :=
  ∀ name ∈ names, ∃ x : Quantity, record.get? name = some (.number (.finite x))

/-- A side of a comparison is a number. It is finite unless it is a literal. -/
theorem Operand.standsFor_number {record : Record} {o : Operand}
    (hliteral : ∀ v ∈ o.literal?, v.kind = .number)
    (hfield : record.BindsNumbers o.fieldName?.toList) :
    ∃ n : Number, o.StandsFor record (.number n) ∧
      ((∀ v ∈ o.literal?, v.number?.isSome) → n.isFinite) := by
  cases o with
  | field name =>
    obtain ⟨x, hx⟩ := hfield name (by simp [fieldName?])
    exact ⟨.finite x, hx, fun _ => rfl⟩
  | literal v =>
    have hkind := hliteral v rfl
    cases v with
    | number n => exact ⟨n, rfl, fun h => h _ rfl⟩
    | string | null => cases hkind

namespace Comparison

variable {record : Record} {c : Comparison}

theorem test_of_numbers {m n : Number} (hl : c.left.StandsFor record (.number m))
    (hr : c.right.StandsFor record (.number n)) :
    c.test record = Value.testNumbers c.op (.number m) (.number n) := by
  rw [test, Operand.read_eq_bound_iff.2 hl, Operand.read_eq_bound_iff.2 hr]
  rfl

theorem test_eq_mismatch {m n : Number} (hl : c.left.StandsFor record (.number m))
    (hr : c.right.StandsFor record (.number n)) {v : Value} (hv : v.number? = none)
    (hside : c.left.StandsFor record v ∨ c.right.StandsFor record v) :
    c.test record = .error (.mismatch .number c.op .number) := by
  simp only [← Operand.read_eq_bound_iff] at hl hr hside
  rw [hl, hr, Reading.bound.injEq, Reading.bound.injEq] at hside
  rw [test, hl, hr]
  refine Value.testNumbers_eq_error_iff.2 ⟨rfl, ?_⟩
  rcases hside with rfl | rfl
  · exact .inl hv
  · exact .inr hv

end Comparison

/-! ## Conditions -/

namespace Condition

variable {record : Record} {e : Condition}

/-- Both sides of every comparison are numbers. They are finite if all literals are. -/
theorem exists_numbers (hliterals : ∀ v ∈ e.literals, v.kind = .number)
    (hrecord : record.BindsNumbers e.fieldNames) {c : Comparison} (hc : c ∈ e.comparisons) :
    ∃ m n : Number, c.left.StandsFor record (.number m) ∧ c.right.StandsFor record (.number n) ∧
      ((∀ v ∈ e.literals, v.number?.isSome) → m.isFinite ∧ n.isFinite) := by
  have hmem : ∀ v, v ∈ c.left.literal? ∨ v ∈ c.right.literal? → v ∈ e.literals := by
    intro v hv
    refine List.mem_flatMap.2 ⟨c, hc, ?_⟩
    simpa [Comparison.literals] using hv
  have hfields := fieldNames_subset hc
  rw [Comparison.fieldNames, List.append_subset] at hfields
  obtain ⟨m, hm, hmfinite⟩ := Operand.standsFor_number
    (fun v hv => hliterals v (hmem v (.inl hv))) fun name hname => hrecord name (hfields.1 hname)
  obtain ⟨n, hn, hnfinite⟩ := Operand.standsFor_number
    (fun v hv => hliterals v (hmem v (.inr hv))) fun name hname => hrecord name (hfields.2 hname)
  exact ⟨m, n, hm, hn, fun h => ⟨hmfinite fun v hv => h v (hmem v (.inl hv)),
    hnfinite fun v hv => h v (hmem v (.inr hv))⟩⟩

theorem test_of_finite (hliterals : ∀ v ∈ e.literals, v.kind = .number)
    (hrecord : record.BindsNumbers e.fieldNames) (hfinite : ∀ v ∈ e.literals, v.number?.isSome)
    {c : Comparison} (hc : c ∈ e.comparisons) :
    ∃ x y : Quantity, c.left.StandsFor record (.number (.finite x)) ∧
      c.right.StandsFor record (.number (.finite y)) ∧ c.test record = .ok (c.op.holds x y) := by
  obtain ⟨m, n, hm, hn, hboth⟩ := exists_numbers hliterals hrecord hc
  obtain ⟨hmfinite, hnfinite⟩ := hboth hfinite
  obtain ⟨x, hx⟩ := Option.isSome_iff_exists.1 hmfinite
  obtain ⟨y, hy⟩ := Option.isSome_iff_exists.1 hnfinite
  rw [Number.finite?_eq_some_iff] at hx hy
  subst hx hy
  exact ⟨x, y, hm, hn, Comparison.test_of_numbers hm hn⟩

theorem faults_eq_nil_of_test (h : ∀ c ∈ e.comparisons, ∃ value, c.test record = .ok value) :
    (e.evaluate record).faults = [] := by
  rw [List.eq_nil_iff_forall_not_mem]
  intro fault hfault
  obtain ⟨c, hc, htest⟩ := exists_test_of_mem_faults hfault
  obtain ⟨value, hvalue⟩ := h c hc
  rw [hvalue] at htest
  cases htest

/-- Where the literals of a condition are numerals and its fields hold finite numbers, a literal is
finite exactly when its numeral is in range. If all are, no comparison faults, and each says how
its two numbers compare. A comparison with a literal that is not finite faults. -/
theorem test_of_numerals {text : String} (hparse : Condition.parse text = .ok e)
    (hliterals : ∀ v ∈ e.literals, v.kind = .number)
    (hrecord : record.BindsNumbers e.fieldNames) :
    (∀ v ∈ e.literals, ∃ n : Numeral, n.text <:+: text.toList ∧ v = .number n.value ∧
        (v.number?.isSome ↔ n.InRange)) ∧
      ((∀ v ∈ e.literals, v.number?.isSome) →
        (e.evaluate record).faults = [] ∧
          ∀ c ∈ e.comparisons, ∃ x y : Quantity, c.left.StandsFor record (.number (.finite x)) ∧
            c.right.StandsFor record (.number (.finite y)) ∧
            c.test record = .ok (c.op.holds x y)) ∧
      ∀ c ∈ e.comparisons, ∀ v, v.number? = none →
        c.left.StandsFor record v ∨ c.right.StandsFor record v →
        c.test record = .error (.mismatch .number c.op .number) := by
  refine ⟨fun v hv => ?_, fun hfinite => ?_, fun c hc v hnone hside => ?_⟩
  · have hkind := hliterals v hv
    cases v with
    | number x =>
      obtain ⟨n, hinfix, rfl⟩ := exists_numeral_of_mem_literals hparse hv
      exact ⟨n, hinfix, rfl, n.isFinite_value_iff⟩
    | string | null => cases hkind
  · refine ⟨faults_eq_nil_of_test fun c hc => ?_,
      fun c hc => test_of_finite hliterals hrecord hfinite hc⟩
    obtain ⟨x, y, -, -, hvalue⟩ := test_of_finite hliterals hrecord hfinite hc
    exact ⟨_, hvalue⟩
  · obtain ⟨m, n, hm, hn, -⟩ := exists_numbers hliterals hrecord hc
    exact Comparison.test_eq_mismatch hm hn hnone hside

/-- A fraction on the right and a whole number on the left. -/
theorem test_of_numerals_of_two_comparisons :
    let text := "tenure >= 0.5 AND 1 < spend"
    let e : Condition := .and (.field "tenure" .ge (.number (.ofRatio false 1 2)))
      (.compare ⟨.literal (.number (.finite .one)), .lt, .field "spend"⟩)
    let record := (Record.empty.set "tenure" (.number (.finite .one))).set "spend"
      (.number (.finite .zero))
    Condition.parse text = .ok e ∧ (∀ v ∈ e.literals, v.kind = .number) ∧
      record.BindsNumbers e.fieldNames ∧ (∀ v ∈ e.literals, v.number?.isSome) ∧
      (e.evaluate record).faults = [] ∧
      ∀ c ∈ e.comparisons, ∃ x y : Quantity, c.left.StandsFor record (.number (.finite x)) ∧
        c.right.StandsFor record (.number (.finite y)) ∧
        c.test record = .ok (c.op.holds x y) := by
  intro text e record
  have hparse : Condition.parse text = .ok e := by decide +kernel
  have hliterals : ∀ v ∈ e.literals, v.kind = .number := by decide +kernel
  have hfinite : ∀ v ∈ e.literals, v.number?.isSome := by decide +kernel
  have hrecord : record.BindsNumbers e.fieldNames := by
    simp [Record.BindsNumbers, record, e, fieldNames, field, Comparison.fieldNames,
      Operand.fieldName?, Record.get?_set]
  obtain ⟨-, hnumbers, -⟩ := test_of_numerals hparse hliterals hrecord
  exact ⟨hparse, hliterals, hrecord, hfinite, hnumbers hfinite⟩

/-- A numeral of 310 digits is read as an infinity and cannot be compared. -/
theorem mismatch_of_numeral_too_large :
    let text := "x < 1" ++ String.ofList (List.replicate 309 '0')
    let e : Condition := .field "x" .lt (.number (.infinite false))
    let record := Record.empty.set "x" (.number (.finite .one))
    Condition.parse text = .ok e ∧ (∀ v ∈ e.literals, v.kind = .number) ∧
      record.BindsNumbers e.fieldNames ∧
      (e.evaluate record).faults = [.mismatch .number .lt .number] := by
  intro text e record
  have hrecord : record.BindsNumbers e.fieldNames := by
    simp [Record.BindsNumbers, record, e, fieldNames, field, Comparison.fieldNames,
      Operand.fieldName?]
  have hchars : text.toList = "x < 1".toList ++ List.replicate 309 '0' := by
    simp only [text, String.toList_append, String.toList_ofList]
  have hread : Reader.wholeCondition ("x < 1".toList ++ List.replicate 309 '0') = .ok (e, []) := by
    decide +kernel
  rw [← hchars] at hread
  have hparse : Condition.parse text = .ok e :=
    Condition.parse_eq_ok_iff.2 (Reader.wholeCondition_iff.1 hread)
  exact ⟨hparse, by decide +kernel, hrecord, by decide +kernel⟩

end Condition

end Retention
