/-!
# Readers

A reader takes something off the front of a text, or fails. A failure keeps the text that was
left where reading stopped, and notes what was being read there, innermost first. An
alternative is tried only after a failure that is not committed.
-/

namespace Retention

/-! ## Failures -/

/-- What a text could have gone on with. -/
inductive Expectation
  | word (text : String)
  | mark (c : Char)
  | part (name : String)
deriving DecidableEq

/-- What a failure met on its way out. -/
inductive Note
  | within (part : String)
  | expected (what : Expectation)
deriving DecidableEq

structure Failure where
  rest : List Char
  committed : Bool
  notes : List Note
deriving DecidableEq

abbrev Reader := StateT (List Char) (Except Failure)

namespace Reader

variable {α β : Type}

/-! ## One reader after another -/

theorem pure_apply (a : α) (text : List Char) : (pure a : Reader α) text = .ok (a, text) := rfl

theorem bind_apply (first : Reader α) (next : α → Reader β) (text : List Char) :
    (first >>= next) text = match first text with
      | .ok (a, rest) => next a rest
      | .error failure => .error failure := by
  simp only [bind, StateT.bind, Except.bind]
  cases first text <;> rfl

theorem bind_eq_ok_iff {first : Reader α} {next : α → Reader β} {text rest : List Char} {b : β} :
    (first >>= next) text = .ok (b, rest) ↔
      ∃ a between, first text = .ok (a, between) ∧ next a between = .ok (b, rest) := by
  rw [bind_apply]
  rcases first text with _ | ⟨a, between⟩
  · simp
  · constructor
    · intro h
      exact ⟨a, between, rfl, h⟩
    · rintro ⟨_, _, h, h'⟩
      cases h
      exact h'

theorem bind_eq_error_iff {first : Reader α} {next : α → Reader β} {text : List Char}
    {failure : Failure} :
    (first >>= next) text = .error failure ↔
      first text = .error failure ∨
        ∃ a between, first text = .ok (a, between) ∧ next a between = .error failure := by
  rw [bind_apply]
  rcases first text with _ | ⟨a, between⟩
  · simp
  · constructor
    · intro h
      exact .inr ⟨a, between, rfl, h⟩
    · rintro (h | ⟨_, _, h, h'⟩) <;> cases h
      exact h'

/-! ## Characters -/

/-- Fails where the text stands. -/
def fail : Reader α := fun text => .error ⟨text, false, []⟩

def satisfy (p : Char → Bool) : Reader Char
  | [] => .error ⟨[], false, []⟩
  | c :: rest => if p c then .ok (c, rest) else .error ⟨c :: rest, false, []⟩

theorem satisfy_eq_ok_iff {p : Char → Bool} {text rest : List Char} {c : Char} :
    satisfy p text = .ok (c, rest) ↔ text = c :: rest ∧ p c := by
  rcases text with _ | ⟨d, text⟩
  · simp [satisfy]
  · simp only [satisfy]
    split <;> simp <;> grind

/-- All characters of a class, possibly none. -/
def many (p : Char → Bool) : Reader (List Char) := fun text =>
  .ok (text.takeWhile p, text.dropWhile p)

theorem many_apply (p : Char → Bool) (text : List Char) :
    many p text = .ok (text.takeWhile p, text.dropWhile p) := rfl

/-- All characters of a class, at least one. -/
def many1 (p : Char → Bool) : Reader (List Char) := do
  let c ← satisfy p
  let rest ← many p
  pure (c :: rest)

theorem many1_eq_ok_iff {p : Char → Bool} {text rest found : List Char} :
    many1 p text = .ok (found, rest) ↔
      found = text.takeWhile p ∧ rest = text.dropWhile p ∧ found ≠ [] := by
  simp only [many1, bind_eq_ok_iff, satisfy_eq_ok_iff, many_apply, pure_apply]
  constructor
  · rintro ⟨c, _, ⟨rfl, hc⟩, _, _, h, h'⟩
    simp only [Except.ok.injEq, Prod.mk.injEq] at h h'
    obtain ⟨rfl, rfl⟩ := h
    obtain ⟨rfl, rfl⟩ := h'
    simp [hc]
  · rintro ⟨rfl, rfl, h⟩
    rcases text with _ | ⟨c, text⟩
    · simp at h
    · have hc : p c := by
        by_cases hc : p c
        · exact hc
        · simp [hc] at h
      exact ⟨c, text, ⟨rfl, hc⟩, _, _, rfl, by simp [hc]⟩

/-- A fixed text. -/
def exactly (word : List Char) : Reader Unit := fun text =>
  if word.isPrefixOf text then .ok ((), text.drop word.length) else .error ⟨text, false, []⟩

theorem exactly_eq_ok_iff {word text rest : List Char} :
    exactly word text = .ok ((), rest) ↔ text = word ++ rest := by
  simp only [exactly]
  split
  · rename_i h
    obtain ⟨tail, rfl⟩ := List.isPrefixOf_iff_prefix.1 h
    simp
  · rename_i h
    simp only [reduceCtorEq, false_iff]
    rintro rfl
    exact h (List.isPrefixOf_iff_prefix.2 (List.prefix_append _ _))

/-! ## Choices -/

/-- The first reader, or the second one if the first fails without being committed. -/
def either (first second : Reader α) : Reader α := fun text =>
  match first text with
  | .ok result => .ok result
  | .error failure => if failure.committed then .error failure else second text

theorem either_eq_ok_iff {first second : Reader α} {text : List Char} {result : α × List Char} :
    either first second text = .ok result ↔
      first text = .ok result ∨
        (∃ failure, first text = .error failure ∧ failure.committed = false) ∧
          second text = .ok result := by
  simp only [either]
  rcases first text with failure | _
  · cases h : failure.committed <;> simp [h]
  · simp

def optional (reader : Reader α) : Reader (Option α) := fun text =>
  match reader text with
  | .ok (a, rest) => .ok (some a, rest)
  | .error failure => if failure.committed then .error failure else .ok (none, text)

/-- No alternative is tried after a failure in here. -/
def commit (reader : Reader α) : Reader α := fun text =>
  match reader text with
  | .ok result => .ok result
  | .error failure => .error { failure with committed := true }

@[simp] theorem commit_eq_ok_iff {reader : Reader α} {text : List Char} {result : α × List Char} :
    commit reader text = .ok result ↔ reader text = .ok result := by
  simp only [commit]
  rcases reader text with _ | _ <;> simp

def noting (note : Note) (reader : Reader α) : Reader α := fun text =>
  match reader text with
  | .ok result => .ok result
  | .error failure => .error { failure with notes := failure.notes ++ [note] }

@[simp] theorem noting_eq_ok_iff {note : Note} {reader : Reader α} {text : List Char}
    {result : α × List Char} :
    noting note reader text = .ok result ↔ reader text = .ok result := by
  simp only [noting]
  rcases reader text with _ | _ <;> simp

/-! ## Repetition -/

/-- At most `n` steps, for as long as they can be taken. -/
def steps (step : α → Reader α) : Nat → α → Reader α
  | 0, a => pure a
  | n + 1, a => fun text =>
    match step a text with
    | .ok (b, rest) => steps step n b rest
    | .error failure => if failure.committed then .error failure else .ok (a, text)

/-- Takes steps for as long as they can be taken. A step takes something off the text, so
there is one step for each character at most. -/
def chain (step : α → Reader α) (a : α) : Reader α := fun text =>
  steps step (text.length + 1) a text

/-! ## Whole texts -/

/-- Fails where something is left over. -/
def complete (reader : Reader α) (text : List Char) : Except Failure α :=
  match reader text with
  | .ok (a, []) => .ok a
  | .ok (_, rest) => .error ⟨rest, false, []⟩
  | .error failure => .error failure

theorem complete_eq_ok_iff {reader : Reader α} {text : List Char} {a : α} :
    complete reader text = .ok a ↔ reader text = .ok (a, []) := by
  simp only [complete]
  rcases reader text with _ | ⟨b, _ | ⟨c, rest⟩⟩ <;> simp

end Reader

end Retention
