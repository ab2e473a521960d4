import Retention.Proofs.BuiltPolicies
import Retention.Proofs.Grammar.Printed
import Retention.Proofs.KnownLabels

/-!
# Fields that rules can test

A policy takes any field name for its risk and for its segment, reserved words as well. A rule
cannot test a field with such a name: NULL is read as the value, and the other reserved words are
refused where a field should stand.
-/

namespace Retention

/-! ## What rules read as a field -/

/-- A rule can compare the field with one. -/
def ReadsField (name : String) : Prop :=
  Condition.parse (name ++ " == 1") = .ok (.field name .eq (.number (.finite .one)))

/-- A field name that is no reserved word. -/
def IsFreeName (name : String) : Prop :=
  isFieldName name.toList ∧ Reader.isReserved name.toList = false

theorem isFreeName_of_operandToken {o : Operand} {t : Token} (h : OperandToken o t) :
    ∀ name ∈ o.fieldName?, IsFreeName name := by
  intro name hname
  cases h with
  | field hfield hfree =>
    cases hname
    unfold IsFreeName
    rw [String.toList_ofList]
    exact ⟨hfield, hfree⟩
  | _ => cases hname

theorem isFreeName_of_termTokens {c : Condition} {tokens : List Token} (h : TermTokens c tokens) :
    ∀ name ∈ c.fieldNames, IsFreeName name := by
  cases h with
  | true | false => exact List.forall_mem_nil _
  | compare hl hr =>
    intro name hname
    simp only [Condition.fieldNames, Comparison.fieldNames, List.mem_append,
      Option.mem_toList] at hname
    rcases hname with hname | hname
    · exact isFreeName_of_operandToken hl name hname
    · exact isFreeName_of_operandToken hr name hname

theorem isFreeName_of_conditionTokens {c : Condition} {tokens : List Token}
    (h : ConditionTokens c tokens) : ∀ name ∈ c.fieldNames, IsFreeName name := by
  induction h with
  | term ht => exact isFreeName_of_termTokens ht
  | and _ _ ht ih | or _ _ ht ih =>
    rw [Condition.fieldNames, List.forall_mem_append]
    exact ⟨ih, isFreeName_of_termTokens ht⟩

/-- Whatever the text, the fields of a condition have free names. -/
theorem isFreeName_of_parse {text : String} {c : Condition} (h : Condition.parse text = .ok c) :
    ∀ name ∈ c.fieldNames, IsFreeName name := by
  obtain ⟨tokens, -, htokens, -⟩ := Condition.parse_eq_ok_iff.1 h
  exact isFreeName_of_conditionTokens htokens

theorem readsField_iff {name : String} : ReadsField name ↔ IsFreeName name := by
  constructor
  · intro h
    exact isFreeName_of_parse h name List.mem_cons_self
  · intro h
    -- The text is what the comparison prints as, and without a connective that reads back.
    let c := Condition.field name .eq (.number (.finite .one))
    have htext : c.text = name ++ " == 1" := by
      have hone : (Number.finite .one).text = "1" := by decide +kernel
      simp [c, Condition.field, Condition.text, Comparison.text, Operand.text, Value.text,
        Comparator.text, hone, String.append_assoc]
    have hprintable : c.isPrintable := by
      simp [c, Condition.field, Condition.isPrintable, Operand.isPrintable, Number.finite?, h.1,
        h.2]
    obtain ⟨tokens, hterm, hwide⟩ := exists_printedTerm hprintable rfl
    have hend : breaks [] := rfl
    have hspaced := spaced_of_wide hwide (lexical_of_termTokens hterm) hend
    rw [List.append_nil, htext] at hspaced
    exact Condition.parse_eq_ok_iff.2 ⟨tokens, [], .term hterm, hspaced, rfl⟩

theorem exists_parse_iff {name : String} :
    (∃ text c, Condition.parse text = .ok c ∧ name ∈ c.fieldNames) ↔ IsFreeName name := by
  constructor
  · rintro ⟨text, c, hparse, hname⟩
    exact isFreeName_of_parse hparse name hname
  · intro h
    exact ⟨_, _, readsField_iff.2 h, List.mem_cons_self⟩

/-! ## What policies take as a field -/

/-- A setting that names a field, and the field of a policy that it sets. -/
inductive NamesField : (String → Setting) → (Policy → String) → Prop
  | risk : NamesField .riskField Policy.riskField
  | segment : NamesField .segmentField Policy.segmentField

namespace NamesField

variable {set : String → Setting} {get : Policy → String} {name : String} {policy : Policy}

theorem get_eq_of_follows (h : NamesField set get) (hfollows : policy.Follows [set name]) :
    get policy = name := by
  cases h with
  | risk => exact hfollows.riskField
  | segment => exact hfollows.segmentField

theorem isFieldName_of_isSound (h : NamesField set get) (hsound : policy.IsSound) :
    isFieldName (get policy).toList := by
  cases h with
  | risk => exact hsound.riskField_name
  | segment => exact hsound.segmentField_name

theorem isWritable (h : NamesField set get) (hname : isFieldName name.toList)
    (labels : List String) : (set name).isWritable labels := by
  cases h <;> exact hname

theorem writesValue (h : NamesField set get) : (set name).WritesValue name.toList := by
  cases h <;> rfl

/-- The setting builds, and its line under a policy header gives the same policy. -/
theorem ofSettings_eq_parse (h : NamesField set get) (hname : isFieldName name.toList) :
    Policy.ofSettings [set name] =
      .ok (.parse ("[POLICY]\n" ++ (set name).key ++ "=" ++ name)) := by
  have hchosen : Setting.Chosen [set name] :=
    ⟨List.nodup_singleton _, List.forall_mem_singleton.2 (h.isWritable hname _)⟩
  have hfirst : LabelsFirst [set name] := List.forall_mem_nil _
  have hheader : opensSection Document.policyName "[POLICY]".toList := by decide
  have hline : (set name).WritesLine
      ((set name).key.toList ++ [] ++ '=' :: ([] ++ name.toList ++ [])) :=
    ⟨[], [], name.toList, [], rfl, rfl, rfl, by simp, h.writesValue, rfl⟩
  apply (ofSettings_eq_parse_of_chosen hchosen (.refl _) hfirst).2
  refine ⟨_, _, _, hheader, .inl rfl, .cons hline .nil, ?_⟩
  simp

theorem exists_ofSettings_iff (h : NamesField set get) :
    (∃ policy, Policy.ofSettings [set name] = .ok policy) ↔ isFieldName name.toList := by
  constructor
  · rintro ⟨policy, hpolicy⟩
    have hname := h.isFieldName_of_isSound (isSound_of_ofSettings hpolicy)
    rwa [h.get_eq_of_follows (follows_of_ofSettings hpolicy)] at hname
  · intro hname
    exact ⟨_, h.ofSettings_eq_parse hname⟩

theorem get_parse_iff (h : NamesField set get) :
    get (.parse ("[POLICY]\n" ++ (set name).key ++ "=" ++ name)) = name ↔
      isFieldName name.toList := by
  constructor
  · intro hget
    have hname := h.isFieldName_of_isSound (isSound_of_obtained
      (.parsed ("[POLICY]\n" ++ (set name).key ++ "=" ++ name)))
    rwa [hget] at hname
  · intro hname
    exact h.get_eq_of_follows (follows_of_ofSettings (h.ofSettings_eq_parse hname))

end NamesField

/-- Rules read exactly the free names as fields, while policies take every field name, from
settings and from text. So a rule can test the risk and the segment of a policy unless the name is
a reserved word. -/
theorem readsField_iff_and_policy_fields (name : String) :
    (ReadsField name ↔ isFieldName name.toList ∧ Reader.isReserved name.toList = false) ∧
      ((∃ text c, Condition.parse text = .ok c ∧ name ∈ c.fieldNames) ↔ ReadsField name) ∧
      ∀ set get, NamesField set get →
        ((∃ policy, Policy.ofSettings [set name] = .ok policy) ↔ isFieldName name.toList) ∧
        (get (.parse ("[POLICY]\n" ++ (set name).key ++ "=" ++ name)) = name ↔
          isFieldName name.toList) ∧
        ∀ policy : Policy, policy.Obtained → get policy = name →
          (ReadsField name ↔ Reader.isReserved name.toList = false) := by
  refine ⟨readsField_iff, ?_, fun set get h =>
    ⟨h.exists_ofSettings_iff, h.get_parse_iff, fun policy hpolicy hget => ?_⟩⟩
  · rw [exists_parse_iff, readsField_iff]
  · have hname := h.isFieldName_of_isSound (isSound_of_obtained hpolicy)
    rw [hget] at hname
    rw [readsField_iff, IsFreeName]
    exact and_iff_right hname

/-- The risk of a policy from text, a name with a point in it. -/
theorem readsField_iff_and_policy_fields_of_point :
    let policy := Policy.parse "[POLICY]\nRISK_FIELD=customer.risk"
    NamesField .riskField Policy.riskField ∧ policy.Obtained ∧
      policy.riskField = "customer.risk" ∧ ReadsField "customer.risk" := by
  intro policy
  have hpolicy : policy.Obtained := .parsed _
  have hrisk : policy.riskField = "customer.risk" := by decide +kernel
  obtain ⟨-, -, hfields⟩ := readsField_iff_and_policy_fields "customer.risk"
  have hiff := (hfields _ _ .risk).2.2 policy hpolicy hrisk
  exact ⟨.risk, hpolicy, hrisk, hiff.2 (by decide)⟩

/-- Policies take reserved words. One of them is refused in a rule, and NULL is read as the
value. -/
theorem not_readsField_of_reserved :
    isFieldName "IF".toList ∧ (Policy.parse "[POLICY]\nRISK_FIELD=IF").riskField = "IF" ∧
      (Condition.parse "IF == 1").toOption = none ∧
      isFieldName "null".toList ∧
      (Policy.parse "[POLICY]\nSEGMENT_FIELD=null").segmentField = "null" ∧
      Condition.parse "null == 1" =
        .ok (.compare ⟨.literal .null, .eq, .literal (.number (.finite .one))⟩) := by
  decide +kernel

end Retention
