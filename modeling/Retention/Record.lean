import Std.Data.ExtTreeMap
import Retention.Value

/-!
# Records

A record binds field names to values. A field that is bound to null is still bound. Two
records with the same bindings are equal, whatever the order they were set in.
-/

namespace Retention

structure Record where
  fields : Std.ExtTreeMap String Value

namespace Record

def empty : Record := ⟨∅⟩

def get? (record : Record) (name : String) : Option Value := record.fields[name]?

/-- Binds a field, replacing the value it had. -/
def set (record : Record) (name : String) (value : Value) : Record :=
  ⟨record.fields.insert name value⟩

def contains (record : Record) (name : String) : Bool := (record.get? name).isSome

def size (record : Record) : Nat := record.fields.size

def isEmpty (record : Record) : Bool := record.size == 0

/-- The bindings in the order of their names. -/
def entries (record : Record) : List (String × Value) := record.fields.toList

/-- Of two bindings of one name the later one holds. -/
def ofList (bindings : List (String × Value)) : Record :=
  bindings.foldl (fun record binding => record.set binding.1 binding.2) empty

/-- The finite number that a field holds or spells. -/
def number? (record : Record) (name : String) : Option Quantity :=
  (record.get? name).bind Value.number?

def string? (record : Record) (name : String) : Option String :=
  (record.get? name).bind Value.string?

/-- Whether the same names are bound, to values that are equal as values. -/
def same (a b : Record) : Bool :=
  a.size == b.size && a.entries.all fun (name, value) =>
    (b.get? name).any fun other => value.same other

theorem get?_empty (name : String) : empty.get? name = none := by simp [get?, empty]

theorem get?_set (record : Record) (name other : String) (value : Value) :
    (record.set name value).get? other =
      if name = other then some value else record.get? other := by
  simp [get?, set, Std.ExtTreeMap.getElem?_insert]

@[simp] theorem get?_set_self (record : Record) (name : String) (value : Value) :
    (record.set name value).get? name = some value := by simp [get?_set]

theorem get?_set_of_ne (record : Record) {name other : String} (value : Value) (h : name ≠ other) :
    (record.set name value).get? other = record.get? other := by simp [get?_set, h]

end Record

end Retention
