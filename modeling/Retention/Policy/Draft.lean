import Retention.Policy.Basic
import Retention.Number.Writing

/-!
# Drafts of a policy

A draft starts as the standard policy and takes settings one by one. Nothing is checked before
it is built. A new vocabulary drops the costs of labels it does not list, and a new cost of a
label replaces the old one.
-/

namespace Retention

/-! ## What can be wrong with a configuration -/

inductive ConfigError
  | emptyVocabulary
  | invalidLabel (name : String)
  | duplicateLabel (name : String)
  | unknownDefaultLabel (name : String)
  | unknownCostLabel (name : String)
  | invalidCost (name : String) (cost : Number)
  | invalidThreshold (value : Number)
  | invalidFieldName (name : String)
  | unknownRuleLabel (index : Nat) (name : String)
deriving DecidableEq

def ConfigError.message : ConfigError → String
  | .emptyVocabulary => "the label vocabulary is empty"
  | .invalidLabel name => "label '" ++ name ++ "' is not a valid identifier"
  | .duplicateLabel name => "duplicate label '" ++ name ++ "' in vocabulary"
  | .unknownDefaultLabel name => "default label '" ++ name ++ "' is not in the vocabulary"
  | .unknownCostLabel name =>
    "cost given for label '" ++ name ++ "' which is not in the vocabulary"
  | .invalidCost name cost =>
    "cost " ++ cost.text ++ " for label '" ++ name ++ "' must be a non-negative number"
  | .invalidThreshold value =>
    "high-risk threshold " ++ value.text ++ " must be a finite number"
  | .invalidFieldName name => "'" ++ name ++ "' is not a valid field name"
  | .unknownRuleLabel index name =>
    "rule " ++ toString index ++ " returns '" ++ name ++ "' which is not in the vocabulary"

/-! ## Settings -/

inductive Setting
  | labels (names : List String)
  | defaultLabel (name : String)
  | cost (name : String) (cost : Number)
  | riskField (name : String)
  | segmentField (name : String)
  | threshold (value : Number)
  | extra (key value : String)
deriving DecidableEq

structure PolicyDraft where
  labels : List String
  defaultLabel? : Option String
  costs : List (String × Number)
  riskField : String
  segmentField : String
  threshold : Number
  extras : Std.ExtTreeMap String String

namespace PolicyDraft

def standard : PolicyDraft where
  labels := standardLabels
  defaultLabel? := none
  costs := standardCosts.map fun entry => (entry.1, .finite entry.2)
  riskField := standardRiskField
  segmentField := standardSegmentField
  threshold := .finite standardThreshold
  extras := ∅

def apply (draft : PolicyDraft) : Setting → PolicyDraft
  | .labels names =>
    { draft with labels := names, costs := draft.costs.filter fun entry => names.contains entry.1 }
  | .defaultLabel name => { draft with defaultLabel? := some name }
  | .cost name cost =>
    { draft with costs := draft.costs.filter (fun entry => entry.1 != name) ++ [(name, cost)] }
  | .riskField name => { draft with riskField := name }
  | .segmentField name => { draft with segmentField := name }
  | .threshold value => { draft with threshold := value }
  | .extra key value => { draft with extras := draft.extras.insert key value }

def ofSettings (settings : List Setting) : PolicyDraft := settings.foldl apply standard

theorem ofSettings_concat (settings : List Setting) (setting : Setting) :
    ofSettings (settings ++ [setting]) = (ofSettings settings).apply setting := by
  simp [ofSettings]

/-! ## Building -/

/-- The labels of a vocabulary, each checked against those before it. -/
def checkLabels (seen : List String) : List String → Except ConfigError Unit
  | [] => .ok ()
  | name :: rest =>
    if ¬ isIdentifier name.toList then .error (.invalidLabel name)
    else if seen.contains name then .error (.duplicateLabel name)
    else checkLabels (name :: seen) rest

theorem checkLabels_eq_ok_iff {seen names : List String} :
    checkLabels seen names = .ok () ↔
      (∀ name ∈ names, isIdentifier name.toList) ∧ names.Nodup ∧ ∀ name ∈ names, name ∉ seen := by
  fun_induction checkLabels seen names with
  | case1 => simp
  | case2 _ _ _ h => simp [h]
  | case3 _ _ _ _ h => simp_all
  | case4 seen name rest h h' ih =>
    simp only [ih, List.mem_cons, List.nodup_cons, forall_eq_or_imp, not_or]
    simp only [List.contains_iff_mem, Decidable.not_not] at h h'
    grind

def checkDefault (labels : List String) : Option String → Except ConfigError Unit
  | none => .ok ()
  | some name => if labels.contains name then .ok () else .error (.unknownDefaultLabel name)

/-- The costs as labels and finite numbers, none of them below zero. -/
def checkCosts (labels : List String) :
    List (String × Number) → Except ConfigError (List (Label × Quantity))
  | [] => .ok []
  | (name, cost) :: rest =>
    if ¬ labels.contains name then .error (.unknownCostLabel name)
    else
      match cost.finite? with
      | none => .error (.invalidCost name cost)
      | some x =>
        if x < Quantity.zero then .error (.invalidCost name cost)
        else (checkCosts labels rest).map ((⟨name⟩, x) :: ·)

/-- A checked entry names its label and keeps its cost. -/
theorem checkCosts_eq_ok_iff {labels : List String} {costs : List (String × Number)}
    {checked : List (Label × Quantity)} :
    checkCosts labels costs = .ok checked ↔
      (∀ entry ∈ costs, entry.1 ∈ labels) ∧ (∀ entry ∈ checked, Quantity.zero ≤ entry.2) ∧
        costs = checked.map fun entry => (entry.1.name, .finite entry.2) := by
  induction costs generalizing checked with
  | nil => cases checked <;> simp [checkCosts]
  | cons entry rest ih =>
    obtain ⟨name, cost⟩ := entry
    by_cases hname : name ∈ labels
    · rcases cost with x | negative | _
      · by_cases hx : x < Quantity.zero
        · rcases checked with _ | ⟨⟨l, y⟩, tail⟩ <;> simp [checkCosts, Number.finite?, hname, hx]
          grind [Quantity.not_lt]
        · have step : checkCosts labels ((name, .finite x) :: rest) =
              (checkCosts labels rest).map ((⟨name⟩, x) :: ·) := by
            simp [checkCosts, Number.finite?, hname, hx]
          have hmap : (checkCosts labels rest).map ((⟨name⟩, x) :: ·) = .ok checked ↔
              ∃ tail, checkCosts labels rest = .ok tail ∧ (⟨name⟩, x) :: tail = checked := by
            rcases checkCosts labels rest with _ | _ <;> simp [Except.map]
          rw [step, hmap]
          simp only [ih]
          constructor
          · rintro ⟨tail, ⟨hlabels, hcosts, rfl⟩, rfl⟩
            exact ⟨List.forall_mem_cons.2 ⟨hname, hlabels⟩,
              List.forall_mem_cons.2 ⟨(Quantity.not_lt _ _).1 hx, hcosts⟩, rfl⟩
          · rintro ⟨hlabels, hcosts, h⟩
            rcases checked with _ | ⟨⟨⟨l⟩, y⟩, tail⟩
            · simp at h
            · simp only [List.map_cons, List.cons.injEq, Prod.mk.injEq, Number.finite.injEq] at h
              obtain ⟨⟨rfl, rfl⟩, h⟩ := h
              exact ⟨tail, ⟨(List.forall_mem_cons.1 hlabels).2,
                (List.forall_mem_cons.1 hcosts).2, h⟩, rfl⟩
      all_goals rcases checked with _ | ⟨⟨l, y⟩, tail⟩ <;> simp [checkCosts, Number.finite?, hname]
    · simp [checkCosts, hname]

def checkThreshold (value : Number) : Except ConfigError Quantity :=
  match value.finite? with
  | none => .error (.invalidThreshold value)
  | some x => .ok x

def checkField (name : String) : Except ConfigError Unit :=
  if isFieldName name.toList then .ok () else .error (.invalidFieldName name)

/-- The policy of a draft, or the first thing that is wrong with it. Without a default label
the first label of the vocabulary is the default. -/
def build (draft : PolicyDraft) : Except ConfigError Policy :=
  match draft.labels with
  | [] => .error .emptyVocabulary
  | first :: _ => do
    checkLabels [] draft.labels
    checkDefault draft.labels draft.defaultLabel?
    let costs ← checkCosts draft.labels draft.costs
    let threshold ← checkThreshold draft.threshold
    checkField draft.riskField
    checkField draft.segmentField
    pure {
      labels := draft.labels.map Label.mk
      defaultLabel := ⟨draft.defaultLabel?.getD first⟩
      costs := .ofList costs compare
      riskField := draft.riskField
      segmentField := draft.segmentField
      threshold := threshold
      extras := draft.extras }

end PolicyDraft

def Policy.ofSettings (settings : List Setting) : Except ConfigError Policy :=
  (PolicyDraft.ofSettings settings).build

end Retention
