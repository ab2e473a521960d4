import Std.Data.ExtTreeMap
import Retention.Text.Word

/-!
# Labels

A label names the offer that a record gets, such as `NO_OFFER` or `BIG`. Labels are equal
when their names are, and are ordered by name. Which labels may be handed out is for the
policy to say.
-/

namespace Retention

structure Label where
  name : String
deriving DecidableEq

namespace Label

instance : Ord Label := ⟨fun a b => compare a.name b.name⟩

instance : Std.TransOrd Label where
  eq_swap := fun {a b} =>
    (Std.OrientedCmp.eq_swap : compare a.name b.name = (compare b.name a.name).swap)
  isLE_trans := fun {a b c} =>
    (Std.TransCmp.isLE_trans : (compare a.name b.name).isLE → (compare b.name c.name).isLE →
      (compare a.name c.name).isLE)

instance : Std.LawfulEqOrd Label where
  compare_self := fun {a} => (Std.ReflCmp.compare_self : compare a.name a.name = .eq)
  eq_of_compare := fun {a b} h => by
    cases a; cases b
    exact congrArg Label.mk (Std.compare_eq_iff_eq.1 h)

/-- Whether the name is an ASCII letter or underscore followed by such characters and digits. -/
def isIdentifier (label : Label) : Bool := Retention.isIdentifier label.name.toList

/-- Labels from the least name to the greatest, repetitions kept. -/
def sorted (labels : List Label) : List Label := labels.mergeSort fun a b => (compare a b).isLE

end Label

end Retention
