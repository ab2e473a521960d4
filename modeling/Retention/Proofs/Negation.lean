import Retention.Evaluation

/-!
# Negated conditions

A condition is negated comparator by comparator. A comparison can be made exactly when its
negation can, so where every comparison can be made the negation has the opposite value.
-/

namespace Retention

/-! ## Negation -/

def Comparator.negated : Comparator → Comparator
  | .eq => .ne
  | .ne => .eq
  | .gt => .le
  | .ge => .lt
  | .lt => .ge
  | .le => .gt

def Comparison.negated (c : Comparison) : Comparison := { c with op := c.op.negated }

namespace Condition

/-- Each comparator and each truth value turned round, AND and OR exchanged. -/
def negated : Condition → Condition
  | .compare c => .compare c.negated
  | .and a b => .or a.negated b.negated
  | .or a b => .and a.negated b.negated
  | .const value => .const !value

/-- The comparisons that occur in a condition, those of a side that is not reached included. -/
def comparisons : Condition → List Comparison
  | .compare c => [c]
  | .and a b | .or a b => a.comparisons ++ b.comparisons
  | .const _ => []

end Condition

/-- The fault of the negated comparison. -/
def Fault.negated : Fault → Fault
  | .missing name => .missing name
  | .mismatch left op right => .mismatch left op.negated right
  | .nullOrdering op => .nullOrdering op.negated

/-- What the negated comparison gives. -/
def negatedTest : Except Fault Bool → Except Fault Bool
  | .ok value => .ok !value
  | .error fault => .error fault.negated

def Comparison.FaultsOn (record : Record) (c : Comparison) : Prop :=
  ∃ fault, c.test record = .error fault

/-! ## Comparisons -/

theorem Comparator.holds_negated (op : Comparator) (x y : Quantity) :
    op.negated.holds x y = !op.holds x y := by
  rw [Bool.eq_iff_iff]
  cases op <;> simp [negated, holds, Quantity.lt_iff, Quantity.le_iff]

theorem Comparator.isOrdering_negated (op : Comparator) :
    op.negated.isOrdering = op.isOrdering := by
  cases op <;> rfl

/-- A test for equality gives the opposite when it is negated. -/
theorem Comparator.equals_negated {op : Comparator} (h : op.isOrdering = false) (equal : Bool) :
    (equal == (op.negated == .eq)) = !(equal == (op == .eq)) := by
  cases op with
  | eq | ne => cases equal <;> rfl
  | gt | ge | lt | le => cases h

theorem Value.testNumbers_negated (op : Comparator) (v w : Value) :
    Value.testNumbers op.negated v w = negatedTest (Value.testNumbers op v w) := by
  unfold Value.testNumbers
  split <;> simp [negatedTest, Fault.negated, Comparator.holds_negated]

theorem Value.test_negated (op : Comparator) (v w : Value) :
    v.test op.negated w = negatedTest (v.test op w) := by
  unfold Value.test
  split
  · rw [Comparator.isOrdering_negated]
    split
    · exact Value.testNumbers_negated op _ _
    · rename_i hop
      rw [Comparator.equals_negated (by simpa using hop)]
      rfl
  · exact Value.testNumbers_negated op v w

theorem Reading.test_negated (op : Comparator) (l r : Reading) :
    l.test op.negated r = negatedTest (l.test op r) := by
  unfold Reading.test
  split
  · rw [Comparator.isOrdering_negated]
    split
    · rfl
    · rename_i hop
      rw [Comparator.equals_negated (by simpa using hop)]
      rfl
  · split
    · rfl
    · rfl
    · exact Value.test_negated op _ _

theorem Comparison.test_negated (c : Comparison) (record : Record) :
    c.negated.test record = negatedTest (c.test record) :=
  Reading.test_negated c.op _ _

theorem Comparison.faultsOn_negated_iff {c : Comparison} {record : Record} :
    c.negated.FaultsOn record ↔ c.FaultsOn record := by
  unfold FaultsOn
  rw [test_negated]
  cases c.test record <;> simp [negatedTest]

/-! ## Conditions -/

theorem exists_test_of_not_faultsOn {c : Comparison} {record : Record}
    (h : ¬ c.FaultsOn record) : ∃ value, c.test record = .ok value := by
  unfold Comparison.FaultsOn at h
  cases htest : c.test record with
  | ok value => exact ⟨value, rfl⟩
  | error fault => exact absurd ⟨fault, htest⟩ h

/-- Where no comparison faults, a condition and its negation leave no fault and have opposite
values. -/
theorem evaluate_negated_of_no_faults {record : Record} {e : Condition}
    (h : ∀ c ∈ e.comparisons, ¬ c.FaultsOn record) :
    ∃ value, e.evaluate record = ⟨value, []⟩ ∧ e.negated.evaluate record = ⟨!value, []⟩ := by
  induction e with
  | compare c =>
    obtain ⟨value, hvalue⟩ := exists_test_of_not_faultsOn (h c List.mem_cons_self)
    refine ⟨value, ?_, ?_⟩
    · rw [Condition.evaluate, hvalue]
      rfl
    · rw [Condition.negated, Condition.evaluate, Comparison.test_negated, hvalue]
      rfl
  | and a b iha ihb =>
    unfold Condition.comparisons at h
    rw [List.forall_mem_append] at h
    obtain ⟨v, ha, hna⟩ := iha h.1
    obtain ⟨w, hb, hnb⟩ := ihb h.2
    -- The side that AND skips after a false is the side that OR skips after a true.
    refine ⟨v && w, ?_, ?_⟩
    · cases v <;> simp [Condition.evaluate, Evaluation.andThen, ha, hb]
    · cases v <;> simp [Condition.negated, Condition.evaluate, Evaluation.andThen, hna, hnb]
  | or a b iha ihb =>
    unfold Condition.comparisons at h
    rw [List.forall_mem_append] at h
    obtain ⟨v, ha, hna⟩ := iha h.1
    obtain ⟨w, hb, hnb⟩ := ihb h.2
    refine ⟨v || w, ?_, ?_⟩
    · cases v <;> simp [Condition.evaluate, Evaluation.andThen, ha, hb]
    · cases v <;> simp [Condition.negated, Condition.evaluate, Evaluation.andThen, hna, hnb]
  | const value => exact ⟨value, rfl, rfl⟩

/-- A comparison faults exactly when its negation does. A condition without such comparisons has
the opposite value when it is negated, and neither leaves a fault. -/
theorem evaluate_negated (record : Record) :
    (∀ c : Comparison, c.negated.FaultsOn record ↔ c.FaultsOn record) ∧
      ∀ e : Condition, (∀ c ∈ e.comparisons, ¬ c.FaultsOn record) →
        e.negated.holds record = !e.holds record ∧
          (e.evaluate record).faults = [] ∧ (e.negated.evaluate record).faults = [] := by
  refine ⟨fun c => Comparison.faultsOn_negated_iff, fun e h => ?_⟩
  obtain ⟨value, he, hn⟩ := evaluate_negated_of_no_faults h
  unfold Condition.holds
  rw [he, hn]
  exact ⟨rfl, rfl, rfl⟩

/-- An unbound field beside a null, two strings in an order, and two strings that differ. -/
theorem evaluate_negated_of_three_comparisons :
    let record := (Record.empty.set "tenure" (.string " 6 ")).set "segment" (.string "VIP")
    let e : Condition := .or (.field "plan" .eq .null)
      (.and (.field "tenure" .ge (.string "5.5")) (.field "segment" .ne (.string "OTHER")))
    (∀ c ∈ e.comparisons, ¬ c.FaultsOn record) ∧ e.negated.holds record = !e.holds record ∧
      (e.evaluate record).faults = [] ∧ (e.negated.evaluate record).faults = [] := by
  intro record e
  have hfree : ∀ c ∈ e.comparisons, ¬ c.FaultsOn record := by
    have htests : ∀ c ∈ e.comparisons, (c.test record).toOption = some true := by decide +kernel
    rintro c hc ⟨fault, hfault⟩
    have htest := htests c hc
    rw [hfault] at htest
    cases htest
  exact ⟨hfree, (evaluate_negated record).2 e hfree⟩

end Retention
