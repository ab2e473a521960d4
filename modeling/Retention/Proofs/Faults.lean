import Retention.Proofs.ShortCircuit

/-!
# What faults say

A fault tells the truth about a comparison of its condition: the field is not bound, a side is
null where an order is asked for, or a side is no number where the two are not compared as text.
-/

namespace Retention

/-! ## Operands -/

/-- A literal stands for itself and a field for the value it is bound to. -/
def Operand.StandsFor (record : Record) (value : Value) : Operand → Prop
  | .field name => record.get? name = some value
  | .literal v => v = value

namespace Operand

variable {record : Record} {o : Operand}

theorem read_eq_bound_iff {value : Value} :
    o.read record = .bound value ↔ o.StandsFor record value := by
  cases o with
  | field name => cases hget : record.get? name <;> simp [read, StandsFor, hget]
  | literal v => simp [read, StandsFor]

theorem read_eq_unbound_iff {name : String} :
    o.read record = .unbound name ↔ o = .field name ∧ record.get? name = none := by
  cases o with
  | field other => cases hget : record.get? other <;> grind [read]
  | literal v => simp [read]

end Operand

theorem Reading.isNull_iff (l : Reading) : l.isNull ↔ l = .bound .null := by
  rcases l with v | name
  · cases v <;> simp [isNull, Value.isNull]
  · simp [isNull]

/-! ## Comparisons -/

namespace Comparison

/-- The comparison names a field that is not bound. -/
def Lacks (record : Record) (c : Comparison) (name : String) : Prop :=
  name ∈ c.fieldNames ∧ record.get? name = none

/-- Equality of two strings, which are compared as they stand. -/
def ComparesText (record : Record) (c : Comparison) : Prop :=
  c.op.isOrdering = false ∧
    ∃ s t, c.left.StandsFor record (.string s) ∧ c.right.StandsFor record (.string t)

end Comparison

/-- What a fault says of the comparison that left it. -/
def Fault.IsTrueOf (record : Record) (c : Comparison) : Fault → Prop
  | .missing name => c.Lacks record name
  | .nullOrdering op =>
    op = c.op ∧ op.isOrdering ∧
      (c.left.StandsFor record .null ∨ c.right.StandsFor record .null)
  | .mismatch left op right =>
    op = c.op ∧ left ≠ .null ∧ right ≠ .null ∧ ¬ c.ComparesText record ∧
      ∃ v w, c.left.StandsFor record v ∧ c.right.StandsFor record w ∧
        v.kind = left ∧ w.kind = right ∧ (v.number? = none ∨ w.number? = none)

namespace Value

/-- Equality of two strings. -/
def ComparesText (op : Comparator) (v w : Value) : Prop :=
  op.isOrdering = false ∧ v.kind = .string ∧ w.kind = .string

variable {op : Comparator} {v w : Value}

theorem kind_eq_string_iff : v.kind = .string ↔ ∃ s, v = .string s := by
  cases v <;> simp [kind]

theorem kind_eq_null_iff : v.kind = .null ↔ v = .null := by
  cases v <;> simp [kind]

/-- Values that are not compared as text are compared as numbers. -/
theorem test_eq_testNumbers (h : ¬ ComparesText op v w) :
    v.test op w = testNumbers op v w := by
  unfold test
  split
  · have hop : op.isOrdering = true := by simpa [ComparesText, kind] using h
    rw [if_pos hop]
  · rfl

theorem testNumbers_eq_error_iff {fault : Fault} :
    testNumbers op v w = .error fault ↔
      fault = .mismatch v.kind op w.kind ∧ (v.number? = none ∨ w.number? = none) := by
  unfold testNumbers
  cases v.number? <;> cases w.number? <;> simp [eq_comm]

theorem of_test_eq_error {fault : Fault} (h : v.test op w = .error fault) :
    ¬ ComparesText op v w ∧
      fault = .mismatch v.kind op w.kind ∧ (v.number? = none ∨ w.number? = none) := by
  have hnumbers : ¬ ComparesText op v w := by
    rintro ⟨hop, hv, hw⟩
    obtain ⟨s, rfl⟩ := kind_eq_string_iff.1 hv
    obtain ⟨t, rfl⟩ := kind_eq_string_iff.1 hw
    simp [test, hop] at h
  rw [test_eq_testNumbers hnumbers] at h
  exact ⟨hnumbers, testNumbers_eq_error_iff.1 h⟩

end Value

/-- The three ways for a comparison not to be made. -/
theorem Reading.test_error_cases {op : Comparator} {l r : Reading} {fault : Fault}
    (h : l.test op r = .error fault) :
    (fault = .nullOrdering op ∧ op.isOrdering ∧ (l = .bound .null ∨ r = .bound .null)) ∨
      (∃ name, fault = .missing name ∧ (l = .unbound name ∨ r = .unbound name)) ∨
      ∃ v w, l = .bound v ∧ r = .bound w ∧ v ≠ .null ∧ w ≠ .null ∧
        v.test op w = .error fault := by
  unfold test at h
  split at h
  · rename_i hnull
    rw [Bool.or_eq_true, isNull_iff, isNull_iff] at hnull
    split at h
    · rename_i hop
      cases h
      exact .inl ⟨rfl, hop, hnull⟩
    · cases h
  · rename_i hnull
    rw [Bool.or_eq_true, isNull_iff, isNull_iff, not_or] at hnull
    right
    split at h
    · cases h
      exact .inl ⟨_, rfl, .inl rfl⟩
    · cases h
      exact .inl ⟨_, rfl, .inr rfl⟩
    · refine .inr ⟨_, _, rfl, rfl, ?_, ?_, h⟩
      · rintro rfl
        exact hnull.1 rfl
      · rintro rfl
        exact hnull.2 rfl

namespace Comparison

variable {record : Record} {c : Comparison}

theorem lacks_of_read {name : String}
    (h : c.left.read record = .unbound name ∨ c.right.read record = .unbound name) :
    c.Lacks record name := by
  simp only [Operand.read_eq_unbound_iff] at h
  unfold Lacks fieldNames
  rcases h with ⟨hside, hunbound⟩ | ⟨hside, hunbound⟩
  · simp [hside, hunbound, Operand.fieldName?]
  · simp [hside, hunbound, Operand.fieldName?]

theorem comparesText_iff {v w : Value} (hl : c.left.read record = .bound v)
    (hr : c.right.read record = .bound w) :
    c.ComparesText record ↔ Value.ComparesText c.op v w := by
  unfold ComparesText Value.ComparesText
  simp only [← Operand.read_eq_bound_iff, hl, hr, Reading.bound.injEq,
    Value.kind_eq_string_iff, exists_and_left, exists_and_right]

theorem isTrueOf_of_test {fault : Fault} (h : c.test record = .error fault) :
    fault.IsTrueOf record c := by
  unfold test at h
  rcases Reading.test_error_cases h with ⟨rfl, hop, hnull⟩ | ⟨name, rfl, hunbound⟩ |
    ⟨v, w, hl, hr, hv, hw, herror⟩
  · rw [Operand.read_eq_bound_iff, Operand.read_eq_bound_iff] at hnull
    exact ⟨rfl, hop, hnull⟩
  · exact lacks_of_read hunbound
  · obtain ⟨hnumbers, rfl, hnone⟩ := Value.of_test_eq_error herror
    exact ⟨rfl, fun hk => hv (Value.kind_eq_null_iff.1 hk),
      fun hk => hw (Value.kind_eq_null_iff.1 hk), mt (comparesText_iff hl hr).1 hnumbers, v, w,
      Operand.read_eq_bound_iff.1 hl, Operand.read_eq_bound_iff.1 hr, rfl, rfl, hnone⟩

end Comparison

/-! ## Conditions -/

namespace Condition

variable {record : Record} {e : Condition}

theorem fieldNames_subset {c : Comparison} (h : c ∈ e.comparisons) :
    c.fieldNames ⊆ e.fieldNames := by
  induction e with
  | compare d =>
    rw [comparisons, List.mem_singleton] at h
    rw [h]
    exact List.Subset.refl _
  | and a b iha ihb | or a b iha ihb =>
    rw [comparisons, List.mem_append] at h
    rcases h with h | h
    · exact List.subset_append_of_subset_left _ (iha h)
    · exact List.subset_append_of_subset_right _ (ihb h)
  | const value => cases h

theorem exists_test_of_mem_faults {fault : Fault} (h : fault ∈ (e.evaluate record).faults) :
    ∃ c ∈ e.comparisons, c.test record = .error fault := by
  rw [faults_evaluate, List.mem_filterMap] at h
  obtain ⟨c, hc, hfault⟩ := h
  exact ⟨c, (reached_sublist record e).subset hc, Comparison.fault?_eq_some_iff.1 hfault⟩

theorem length_faults_le (record : Record) (e : Condition) :
    (e.evaluate record).faults.length ≤ e.comparisons.length := by
  rw [faults_evaluate]
  exact Nat.le_trans (List.length_filterMap_le _ _) (reached_sublist record e).length_le

/-- Every fault is left by a comparison of the condition of which it is true. A field that is
reported missing is one that the condition names, and no more faults are left than there are
comparisons. -/
theorem isTrueOf_of_mem_faults (record : Record) (e : Condition) :
    (∀ fault ∈ (e.evaluate record).faults,
        ∃ c ∈ e.comparisons, c.test record = .error fault ∧ fault.IsTrueOf record c) ∧
      (∀ name, .missing name ∈ (e.evaluate record).faults →
        name ∈ e.fieldNames ∧ record.get? name = none) ∧
      (e.evaluate record).faults.length ≤ e.comparisons.length := by
  refine ⟨fun fault hfault => ?_, fun name hname => ?_, length_faults_le record e⟩
  · obtain ⟨c, hc, htest⟩ := exists_test_of_mem_faults hfault
    exact ⟨c, hc, htest, Comparison.isTrueOf_of_test htest⟩
  · obtain ⟨c, hc, htest⟩ := exists_test_of_mem_faults hname
    have hlacks : c.Lacks record name := Comparison.isTrueOf_of_test htest
    exact ⟨fieldNames_subset hc hlacks.1, hlacks.2⟩

/-- A field that is not bound, a null in an order, and a text that spells an infinity. -/
theorem isTrueOf_of_mem_faults_of_three_faults :
    let record := (Record.empty.set "note" .null).set "score" (.string "1e999")
    let e : Condition := .or (.compare ⟨.literal (.number (.finite .one)), .lt, .field "tenure"⟩)
      (.or (.field "note" .ge (.string "5")) (.field "score" .eq (.number (.finite .one))))
    (e.evaluate record).faults =
        [.missing "tenure", .nullOrdering .ge, .mismatch .string .eq .number] ∧
      (∀ fault ∈ (e.evaluate record).faults,
        ∃ c ∈ e.comparisons, c.test record = .error fault ∧ fault.IsTrueOf record c) ∧
      (∀ name, .missing name ∈ (e.evaluate record).faults →
        name ∈ e.fieldNames ∧ record.get? name = none) ∧
      (e.evaluate record).faults.length ≤ e.comparisons.length := by
  intro record e
  have hfaults : (e.evaluate record).faults =
      [.missing "tenure", .nullOrdering .ge, .mismatch .string .eq .number] := by
    decide +kernel
  exact ⟨hfaults, isTrueOf_of_mem_faults record e⟩

end Condition

end Retention
