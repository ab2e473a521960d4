import Retention.Proofs.Faults

/-!
# Numeric text

Text that spells a finite number counts as that number wherever it is not compared with other
text. A record may hold the numbers in place of the text: conditions keep their values, and their
faults change in nothing but what kind of value they report.
-/

namespace Retention

/-! ## Records with numbers in place of text -/

/-- The number that a text spells, and any other value as it is. -/
def Value.numeric (v : Value) : Value :=
  match v, v.number? with
  | .string _, some x => .number (.finite x)
  | _, _ => v

/-- Every text that spells a finite number turned into that number. -/
def Record.numeric (record : Record) : Record := ⟨record.fields.map fun _ v => v.numeric⟩

theorem Record.get?_numeric (record : Record) (name : String) :
    record.numeric.get? name = (record.get? name).map Value.numeric := by
  simp [get?, numeric, Std.ExtTreeMap.getElem?_map]

/-! ## Values recast -/

/-- A value as it is, or the number that a text spells. -/
inductive Value.Recast : Value → Value → Prop
  | same (v : Value) : Recast v v
  | number {s : String} {x : Quantity} (h : (Value.string s).number? = some x) :
    Recast (.string s) (.number (.finite x))

/-- The same kind, or a number in place of a string. -/
inductive Kind.Recast : Kind → Kind → Prop
  | same (kind : Kind) : Recast kind kind
  | number : Recast .string .number

/-- The same fault, but that a mismatch may report a number in place of a string. -/
inductive Fault.Recast : Fault → Fault → Prop
  | same (fault : Fault) : Recast fault fault
  | mismatch {left right left' right' : Kind} (hl : left.Recast left') (op : Comparator)
    (hr : right.Recast right') : Recast (.mismatch left op right) (.mismatch left' op right')

namespace Value

theorem recast_numeric (v : Value) : v.Recast v.numeric := by
  unfold numeric
  split
  · rename_i h
    exact .number h
  · exact .same _

variable {op : Comparator} {v v' w w' : Value}

theorem Recast.number?_eq (h : v.Recast v') : v'.number? = v.number? := by
  cases h with
  | same => rfl
  | number h => rw [h, number?_quantity]

theorem Recast.isNull_eq (h : v.Recast v') : v'.isNull = v.isNull := by
  cases h <;> rfl

theorem Recast.kind (h : v.Recast v') : v.kind.Recast v'.kind := by
  cases h with
  | same => exact .same _
  | number => exact .number

theorem Recast.kind_eq_string (h : v.Recast v') (hv : v'.kind = .string) : v.kind = .string := by
  cases h with
  | same => exact hv
  | number => rfl

theorem testNumbers_recast (hv : v.Recast v') (hw : w.Recast w') :
    (Evaluation.ofTest (testNumbers op v w)).InStep Fault.Recast
      (.ofTest (testNumbers op v' w')) := by
  unfold testNumbers
  rw [hv.number?_eq, hw.number?_eq]
  split
  · exact ⟨rfl, .nil⟩
  · exact ⟨rfl, .cons (.mismatch hv.kind op hw.kind) .nil⟩

theorem test_recast (hv : v.Recast v') (hw : w.Recast w') (h : ¬ ComparesText op v w) :
    (Evaluation.ofTest (v.test op w)).InStep Fault.Recast (.ofTest (v'.test op w')) := by
  -- Recasting makes no text, so what is left is not compared as text either.
  have h' : ¬ ComparesText op v' w' := fun ⟨hop, hsv, hsw⟩ =>
    h ⟨hop, hv.kind_eq_string hsv, hw.kind_eq_string hsw⟩
  rw [test_eq_testNumbers h, test_eq_testNumbers h']
  exact testNumbers_recast hv hw

end Value

/-! ## Comparisons -/

namespace Reading

/-- Values recast, and the same fields not bound. -/
inductive Recast : Reading → Reading → Prop
  | bound {v v' : Value} (h : v.Recast v') : Recast (.bound v) (.bound v')
  | unbound (name : String) : Recast (.unbound name) (.unbound name)

variable {op : Comparator} {l l' r r' : Reading}

theorem Recast.isNull_eq (h : l.Recast l') : l'.isNull = l.isNull := by
  cases h with
  | bound h => exact h.isNull_eq
  | unbound => rfl

theorem Recast.countsAsNull_eq (h : l.Recast l') : l'.countsAsNull = l.countsAsNull := by
  cases h with
  | bound h => exact h.isNull_eq
  | unbound => rfl

theorem test_recast (hl : l.Recast l') (hr : r.Recast r')
    (h : ∀ v w, l = .bound v → r = .bound w → ¬ Value.ComparesText op v w) :
    (Evaluation.ofTest (l.test op r)).InStep Fault.Recast (.ofTest (l'.test op r')) := by
  unfold test
  rw [hl.isNull_eq, hr.isNull_eq, hl.countsAsNull_eq, hr.countsAsNull_eq]
  split
  · split
    · exact ⟨rfl, .cons (.same _) .nil⟩
    · exact ⟨rfl, .nil⟩
  · cases hl with
    | unbound name => exact ⟨rfl, .cons (.same _) .nil⟩
    | bound hv =>
      cases hr with
      | unbound name => exact ⟨rfl, .cons (.same _) .nil⟩
      | bound hw => exact Value.test_recast hv hw (h _ _ rfl rfl)

end Reading

theorem Operand.read_recast (record : Record) (o : Operand) :
    (o.read record).Recast (o.read record.numeric) := by
  cases o with
  | field name =>
    simp only [read, Record.get?_numeric]
    cases record.get? name with
    | none => exact .unbound name
    | some v => exact .bound v.recast_numeric
  | literal v => exact .bound (.same v)

theorem Comparison.test_recast {record : Record} {c : Comparison} (h : ¬ c.ComparesText record) :
    (Evaluation.ofTest (c.test record)).InStep Fault.Recast (.ofTest (c.test record.numeric)) := by
  refine Reading.test_recast (c.left.read_recast record) (c.right.read_recast record) ?_
  intro v w hl hr
  rwa [comparesText_iff hl hr] at h

/-! ## Conditions -/

namespace Condition

theorem replace_compare (e : Condition) : e.replace compare = e := by
  induction e with
  | compare c => rfl
  | and a b iha ihb | or a b iha ihb => rw [replace, iha, ihb]
  | const value => rfl

/-- Where no two texts are compared for equality, numbers in place of the text that spells them
change neither the value of a condition nor which faults it leaves. -/
theorem evaluate_numeric {record : Record} {e : Condition}
    (h : ∀ c ∈ e.comparisons, ¬ c.ComparesText record) :
    (e.evaluate record.numeric).value = (e.evaluate record).value ∧
      List.Forall₂ Fault.Recast (e.evaluate record).faults
        (e.evaluate record.numeric).faults := by
  have hstep : (e.evaluate record).InStep Fault.Recast
      ((e.replace compare).evaluate record.numeric) :=
    inStep_replace fun c hc => Comparison.test_recast (h c hc)
  rw [replace_compare] at hstep
  exact ⟨hstep.value_eq.symm, hstep.faults⟩

/-- Two texts in an order, a null, and a text beside a number. One mismatch reports a number
where it reported a string. -/
theorem evaluate_numeric_of_four_comparisons :
    let record := (((Record.empty.set "tenure" (.string " 6 ")).set "segment" (.string "VIP")).set
      "score" (.string "1e0")).set "note" .null
    let e : Condition := .or (.compare ⟨.field "segment", .lt, .field "tenure"⟩)
      (.or (.field "note" .ge (.string "5")) (.and (.field "tenure" .ge (.string "5.5"))
        (.field "score" .eq (.number (.finite .one)))))
    (∀ c ∈ e.comparisons, ¬ c.ComparesText record) ∧
      (e.evaluate record).faults ≠ (e.evaluate record.numeric).faults ∧
      (e.evaluate record.numeric).value = (e.evaluate record).value ∧
      List.Forall₂ Fault.Recast (e.evaluate record).faults
        (e.evaluate record.numeric).faults := by
  intro record e
  have hfree : ∀ c ∈ e.comparisons, ¬ c.ComparesText record := by
    simp [e, comparisons, field, Comparison.ComparesText, Comparator.isOrdering,
      Operand.StandsFor]
  have hfaults : (e.evaluate record).faults ≠ (e.evaluate record.numeric).faults := by
    decide +kernel
  exact ⟨hfree, hfaults, evaluate_numeric hfree⟩

end Condition

end Retention
