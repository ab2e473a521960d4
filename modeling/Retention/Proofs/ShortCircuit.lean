import Mathlib.Data.List.Forall2
import Retention.Proofs.Negation

/-!
# Short circuits

AND and OR skip a right side that cannot change their value. The value is the one that all
comparisons together give, and the faults are those of the comparisons that are reached.
-/

namespace Retention

/-! ## Every comparison made -/

/-- The fault that a comparison leaves. -/
def Comparison.fault? (record : Record) (c : Comparison) : Option Fault :=
  match c.test record with
  | .ok _ => none
  | .error fault => some fault

theorem Comparison.fault?_eq_some_iff {record : Record} {c : Comparison} {fault : Fault} :
    c.fault? record = some fault ↔ c.test record = .error fault := by
  unfold fault?
  cases c.test record <;> simp

/-- Both evaluations, with their values combined. -/
def Evaluation.merge (op : Bool → Bool → Bool) (left right : Evaluation) : Evaluation :=
  ⟨op left.value right.value, left.faults ++ right.faults⟩

namespace Condition

/-- The evaluation that looks at both sides of every connective. -/
def evaluateAll (record : Record) : Condition → Evaluation
  | .compare c => .ofTest (c.test record)
  | .and a b => .merge (· && ·) (a.evaluateAll record) (b.evaluateAll record)
  | .or a b => .merge (· || ·) (a.evaluateAll record) (b.evaluateAll record)
  | .const value => ⟨value, []⟩

theorem faults_evaluateAll (record : Record) (e : Condition) :
    (e.evaluateAll record).faults = e.comparisons.filterMap (Comparison.fault? record) := by
  induction e with
  | compare c =>
    unfold evaluateAll comparisons
    cases htest : c.test record <;> simp [Evaluation.ofTest, Comparison.fault?, htest]
  | and a b iha ihb | or a b iha ihb =>
    simp only [evaluateAll, Evaluation.merge, comparisons, List.filterMap_append, iha, ihb]
  | const value => rfl

theorem value_evaluate_and (record : Record) (a b : Condition) :
    ((a.and b).evaluate record).value =
      ((a.evaluate record).value && (b.evaluate record).value) := by
  cases ha : (a.evaluate record).value with
  | true => rw [evaluate_and_of_true ha]; rfl
  | false => rw [evaluate_and_of_false ha, ha]; rfl

theorem value_evaluate_or (record : Record) (a b : Condition) :
    ((a.or b).evaluate record).value =
      ((a.evaluate record).value || (b.evaluate record).value) := by
  cases ha : (a.evaluate record).value with
  | true => rw [evaluate_or_of_true ha, ha]; rfl
  | false => rw [evaluate_or_of_false ha]; rfl

theorem value_evaluate (record : Record) (e : Condition) :
    (e.evaluate record).value = (e.evaluateAll record).value := by
  induction e with
  | compare c => rfl
  | and a b iha ihb => rw [value_evaluate_and, iha, ihb]; rfl
  | or a b iha ihb => rw [value_evaluate_or, iha, ihb]; rfl
  | const value => rfl

end Condition

/-! ## The comparisons that are reached -/

/-- The left side of a connective, with the value that leads on to the right side. -/
structure Guard where
  side : Condition
  value : Bool

/-- A comparison where it stands, with a guard for each connective that it is to the right of. -/
structure Occurrence where
  comparison : Comparison
  guards : List Guard

namespace Occurrence

/-- The occurrence seen from a connective that it is to the right of. -/
def behind (guard : Guard) (o : Occurrence) : Occurrence := { o with guards := guard :: o.guards }

/-- Whether every connective leads on to the comparison. -/
def isReached (record : Record) (o : Occurrence) : Bool :=
  o.guards.all fun guard => (guard.side.evaluateAll record).value == guard.value

end Occurrence

namespace Condition

/-- The comparisons from left to right. AND goes on after a true and OR after a false. -/
def occurrences : Condition → List Occurrence
  | .compare c => [⟨c, []⟩]
  | .and a b => a.occurrences ++ b.occurrences.map (Occurrence.behind ⟨a, true⟩)
  | .or a b => a.occurrences ++ b.occurrences.map (Occurrence.behind ⟨a, false⟩)
  | .const _ => []

theorem comparison_occurrences (e : Condition) :
    e.occurrences.map Occurrence.comparison = e.comparisons := by
  induction e with
  | compare c => rfl
  | and a b iha ihb | or a b iha ihb =>
    have hb (guard : Guard) : (b.occurrences.map (Occurrence.behind guard)).map
        Occurrence.comparison = b.comparisons := by
      rw [List.map_map]
      exact ihb
    simp only [occurrences, comparisons, List.map_append, iha, hb]
  | const value => rfl

/-- The comparisons that are reached, from left to right. -/
def reached (record : Record) (e : Condition) : List Comparison :=
  (e.occurrences.filter (Occurrence.isReached record)).map Occurrence.comparison

theorem reached_sublist (record : Record) (e : Condition) :
    (e.reached record).Sublist e.comparisons := by
  rw [← comparison_occurrences]
  exact List.filter_sublist.map _

/-- Comparisons behind a guard are reached as before, or not at all. -/
theorem reached_behind (record : Record) (guard : Guard) (e : Condition) :
    ((e.occurrences.map (Occurrence.behind guard)).filter (Occurrence.isReached record)).map
        Occurrence.comparison =
      if (guard.side.evaluateAll record).value = guard.value then e.reached record else [] := by
  have hbehind : Occurrence.isReached record ∘ Occurrence.behind guard = fun o =>
      ((guard.side.evaluateAll record).value == guard.value) && o.isReached record := rfl
  rw [List.filter_map, hbehind]
  split
  · rename_i hvalue
    simp only [hvalue, beq_self_eq_true, Bool.true_and, List.map_map]
    rfl
  · rename_i hvalue
    simp [hvalue]

theorem reached_and (record : Record) (a b : Condition) :
    (a.and b).reached record =
      a.reached record ++ if (a.evaluateAll record).value then b.reached record else [] := by
  rw [reached, occurrences, List.filter_append, List.map_append, reached_behind]
  rfl

theorem reached_or (record : Record) (a b : Condition) :
    (a.or b).reached record =
      a.reached record ++
        if (a.evaluateAll record).value = false then b.reached record else [] := by
  rw [reached, occurrences, List.filter_append, List.map_append, reached_behind]
  rfl

theorem faults_evaluate (record : Record) (e : Condition) :
    (e.evaluate record).faults = (e.reached record).filterMap (Comparison.fault? record) := by
  induction e with
  | compare c => exact faults_evaluateAll record (.compare c)
  | and a b iha ihb =>
    have ha := value_evaluate record a
    rw [reached_and, List.filterMap_append, ← iha]
    cases hvalue : (a.evaluateAll record).value with
    | true =>
      rw [evaluate_and_of_true (ha.trans hvalue), if_pos rfl, ← ihb]
      rfl
    | false => simp [evaluate_and_of_false (ha.trans hvalue)]
  | or a b iha ihb =>
    have ha := value_evaluate record a
    rw [reached_or, List.filterMap_append, ← iha]
    cases hvalue : (a.evaluateAll record).value with
    | true => simp [evaluate_or_of_true (ha.trans hvalue)]
    | false =>
      rw [evaluate_or_of_false (ha.trans hvalue), if_pos rfl, ← ihb]
      rfl
  | const value => rfl

theorem faults_sublist (record : Record) (e : Condition) :
    (e.evaluate record).faults.Sublist (e.evaluateAll record).faults := by
  rw [faults_evaluate, faults_evaluateAll]
  exact (reached_sublist record e).filterMap _

/-! ## Comparisons replaced -/

/-- The same AND and OR over other conditions in place of the comparisons. -/
def replace (f : Comparison → Condition) : Condition → Condition
  | .compare c => f c
  | .and a b => .and (a.replace f) (b.replace f)
  | .or a b => .or (a.replace f) (b.replace f)
  | .const value => .const value

/-- Comparisons that fault replaced by false. -/
def withoutFaults (record : Record) (e : Condition) : Condition :=
  e.replace fun c => if (c.fault? record).isSome then .const false else .compare c

theorem evaluateAll_withoutFaults (record : Record) (e : Condition) :
    (e.withoutFaults record).evaluateAll record = ⟨(e.evaluateAll record).value, []⟩ := by
  unfold withoutFaults
  induction e with
  | compare c =>
    unfold replace
    cases htest : c.test record <;>
      simp [Comparison.fault?, htest, evaluateAll, Evaluation.ofTest]
  | and a b iha ihb | or a b iha ihb =>
    simp only [replace, evaluateAll, Evaluation.merge, iha, ihb, List.append_nil]
  | const value => rfl

theorem evaluate_withoutFaults (record : Record) (e : Condition) :
    (e.withoutFaults record).evaluate record = ⟨(e.evaluate record).value, []⟩ := by
  have hvalue : ((e.withoutFaults record).evaluate record).value = (e.evaluate record).value := by
    rw [value_evaluate, value_evaluate, evaluateAll_withoutFaults]
  have hfaults : ((e.withoutFaults record).evaluate record).faults = [] := by
    have hsub := faults_sublist record (e.withoutFaults record)
    rw [evaluateAll_withoutFaults] at hsub
    exact List.sublist_nil.1 hsub
  rw [← hvalue, ← hfaults]

/-- A condition has the value that all its comparisons give, and leaves the faults of those that
are reached, which are some of all faults in their order. With false in place of the comparisons
that fault it keeps its value and leaves no fault. -/
theorem evaluate_eq_reached (record : Record) (e : Condition) :
    e.evaluate record =
        ⟨(e.evaluateAll record).value, (e.reached record).filterMap (Comparison.fault? record)⟩ ∧
      (e.evaluate record).faults.Sublist (e.evaluateAll record).faults ∧
      (e.withoutFaults record).evaluate record = ⟨(e.evaluate record).value, []⟩ := by
  refine ⟨?_, faults_sublist record e, evaluate_withoutFaults record e⟩
  rw [← value_evaluate, ← faults_evaluate]

end Condition

/-! ## Two evaluations in step -/

/-- Equal values, and fault for fault related. -/
structure Evaluation.InStep (R : Fault → Fault → Prop) (x y : Evaluation) : Prop where
  value_eq : x.value = y.value
  faults : List.Forall₂ R x.faults y.faults

section

variable {R : Fault → Fault → Prop}

theorem Evaluation.InStep.andThen {x x' y y' : Evaluation} (h : x.InStep R y)
    (h' : x'.InStep R y') : (x.andThen x').InStep R (y.andThen y') :=
  ⟨h'.value_eq, List.rel_append h.faults h'.faults⟩

/-- Where the comparisons are in step, both evaluations skip the same sides. -/
theorem Condition.inStep_replace {a b : Record} {f : Comparison → Condition} {e : Condition}
    (h : ∀ c ∈ e.comparisons,
      ((Condition.compare c).evaluate a).InStep R ((f c).evaluate b)) :
    (e.evaluate a).InStep R ((e.replace f).evaluate b) := by
  induction e with
  | compare c => exact h c List.mem_cons_self
  | and d e ihd ihe =>
    unfold comparisons at h
    rw [List.forall_mem_append] at h
    have hd := ihd h.1
    simp only [replace, evaluate]
    rw [← hd.value_eq]
    split
    · exact hd.andThen (ihe h.2)
    · exact hd
  | or d e ihd ihe =>
    unfold comparisons at h
    rw [List.forall_mem_append] at h
    have hd := ihd h.1
    simp only [replace, evaluate]
    rw [← hd.value_eq]
    split
    · exact hd
    · exact hd.andThen (ihe h.2)
  | const value => exact ⟨rfl, .nil⟩

end

end Retention
