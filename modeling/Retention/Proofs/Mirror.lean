import Retention.Proofs.Faults

/-!
# Mirrored conditions

A comparison may be written from right to left with its comparator turned round. Only a
comparison of two fields that are both not bound tells the difference: the one on its left is
reported.
-/

namespace Retention

/-! ## Mirror images -/

def Comparator.mirrored : Comparator → Comparator
  | .eq => .eq
  | .ne => .ne
  | .gt => .lt
  | .ge => .le
  | .lt => .gt
  | .le => .ge

def Comparison.mirrored (c : Comparison) : Comparison := ⟨c.right, c.op.mirrored, c.left⟩

/-- Every comparison mirrored. -/
def Condition.mirrored (e : Condition) : Condition := e.replace fun c => .compare c.mirrored

def Fault.mirrored : Fault → Fault
  | .missing name => .missing name
  | .mismatch left op right => .mismatch right op.mirrored left
  | .nullOrdering op => .nullOrdering op.mirrored

/-- A fault of a comparison and the fault of its mirror image. -/
inductive Fault.Mirrors (record : Record) (c : Comparison) : Fault → Fault → Prop
  | missing {m n : String} (hm : c.Lacks record m) (hn : c.Lacks record n) :
    Mirrors record c (.missing m) (.missing n)
  | mismatch (left : Kind) (op : Comparator) (right : Kind) :
    Mirrors record c (.mismatch left op right) (.mismatch right op.mirrored left)
  | nullOrdering (op : Comparator) :
    Mirrors record c (.nullOrdering op) (.nullOrdering op.mirrored)

/-! ## Comparisons -/

theorem Comparator.isOrdering_mirrored (op : Comparator) :
    op.mirrored.isOrdering = op.isOrdering := by
  cases op <;> rfl

theorem Comparator.mirrored_beq_eq (op : Comparator) : (op.mirrored == .eq) = (op == .eq) := by
  cases op <;> rfl

theorem Comparator.holds_mirrored (op : Comparator) (x y : Quantity) :
    op.mirrored.holds y x = op.holds x y := by
  cases op <;> simp [mirrored, holds, eq_comm]

namespace Value

theorem testNumbers_mirrored (op : Comparator) (v w : Value) :
    testNumbers op.mirrored w v = (testNumbers op v w).mapError Fault.mirrored := by
  unfold testNumbers
  cases v.number? <;> cases w.number? <;>
    simp [Except.mapError, Fault.mirrored, Comparator.holds_mirrored]

theorem comparesText_mirrored_iff {op : Comparator} {v w : Value} :
    ComparesText op.mirrored w v ↔ ComparesText op v w := by
  unfold ComparesText
  rw [Comparator.isOrdering_mirrored, and_comm (a := w.kind = .string)]

theorem test_mirrored (op : Comparator) (v w : Value) :
    w.test op.mirrored v = (v.test op w).mapError Fault.mirrored := by
  by_cases h : ComparesText op v w
  · obtain ⟨hop, hv, hw⟩ := h
    obtain ⟨s, rfl⟩ := kind_eq_string_iff.1 hv
    obtain ⟨t, rfl⟩ := kind_eq_string_iff.1 hw
    simp [test, Comparator.isOrdering_mirrored, hop, Comparator.mirrored_beq_eq, Except.mapError,
      eq_comm]
  · rw [test_eq_testNumbers h, test_eq_testNumbers (mt comparesText_mirrored_iff.1 h)]
    exact testNumbers_mirrored op v w

end Value

namespace Reading

theorem test_unbound (op : Comparator) (m n : String) :
    (unbound m).test op (.unbound n) = .error (.missing m) := rfl

/-- Where one side is bound, a comparison gives the same when it is read from the other side. -/
theorem test_mirrored {l r : Reading} (h : ∀ m n, ¬ (l = .unbound m ∧ r = .unbound n))
    (op : Comparator) : r.test op.mirrored l = (l.test op r).mapError Fault.mirrored := by
  unfold test
  rw [Bool.or_comm r.isNull, Bool.and_comm r.countsAsNull, Comparator.isOrdering_mirrored,
    Comparator.mirrored_beq_eq]
  split
  · split
    · rfl
    · rfl
  · rcases l with v | m
    · rcases r with w | n
      · exact Value.test_mirrored op v w
      · rfl
    · rcases r with w | n
      · rfl
      · exact absurd ⟨rfl, rfl⟩ (h m n)

end Reading

namespace Comparison

variable {record : Record} {c : Comparison}

/-- A fault as it stands, with its mirror image. -/
theorem mirrors_mirrored {fault : Fault} (h : c.test record = .error fault) :
    Fault.Mirrors record c fault fault.mirrored := by
  cases fault with
  | missing name =>
    have hlacks : c.Lacks record name := isTrueOf_of_test h
    exact .missing hlacks hlacks
  | mismatch left op right => exact .mismatch left op right
  | nullOrdering op => exact .nullOrdering op

theorem test_mirrored (record : Record) (c : Comparison) :
    (∃ value, c.test record = .ok value ∧ c.mirrored.test record = .ok value) ∨
      ∃ f g, c.test record = .error f ∧ c.mirrored.test record = .error g ∧
        f.Mirrors record c g := by
  by_cases hboth : ∃ m n, c.left.read record = .unbound m ∧ c.right.read record = .unbound n
  · obtain ⟨m, n, hl, hr⟩ := hboth
    right
    refine ⟨.missing m, .missing n, ?_, ?_, .missing ?_ ?_⟩
    · rw [test, hl, hr, Reading.test_unbound]
    · rw [mirrored, test, hl, hr, Reading.test_unbound]
    · exact lacks_of_read (.inl hl)
    · exact lacks_of_read (.inr hr)
  · have hmirrored : c.mirrored.test record = (c.test record).mapError Fault.mirrored :=
      Reading.test_mirrored (fun m n h => hboth ⟨m, n, h⟩) c.op
    rw [hmirrored]
    cases htest : c.test record with
    | ok value => exact .inl ⟨value, rfl, rfl⟩
    | error fault => exact .inr ⟨fault, fault.mirrored, rfl, rfl, mirrors_mirrored htest⟩

end Comparison

/-! ## Conditions -/

/-- Two faults that one comparison of a condition and its mirror image leave. -/
def Fault.MirrorsIn (record : Record) (e : Condition) (f g : Fault) : Prop :=
  ∃ c ∈ e.comparisons, c.test record = .error f ∧ c.mirrored.test record = .error g ∧
    f.Mirrors record c g

/-- A condition has the same value as its mirror image, and fault for fault both are left by one
comparison and go together. -/
theorem Condition.evaluate_mirrored (record : Record) (e : Condition) :
    (e.mirrored.evaluate record).value = (e.evaluate record).value ∧
      List.Forall₂ (Fault.MirrorsIn record e) (e.evaluate record).faults
        (e.mirrored.evaluate record).faults := by
  have hstep : (e.evaluate record).InStep (Fault.MirrorsIn record e)
      (e.mirrored.evaluate record) := by
    refine inStep_replace fun c hc => ?_
    unfold evaluate
    rcases Comparison.test_mirrored record c with ⟨value, hc, hm⟩ | ⟨f, g, hf, hg, hfg⟩
    · rw [hc, hm]
      exact ⟨rfl, .nil⟩
    · rw [hf, hg]
      exact ⟨rfl, .cons ⟨c, hc, hf, hg, hfg⟩ .nil⟩
  exact ⟨hstep.value_eq.symm, hstep.faults⟩

end Retention
