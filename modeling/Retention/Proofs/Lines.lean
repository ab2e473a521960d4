import Retention.RuleSet

/-!
# Numbered lines

A text is split where its lines end. A line carries its own number, so numbers grow from line to
line, and the lines of a block of a document are lines of the text in the order of the text.
-/

namespace Retention

/-! ## Splitting -/

theorem splitLines_cons {c : Char} {rest : List Char} (hc : c ≠ '\n')
    (hrest : c = '\r' → rest.head? ≠ some '\n') :
    splitLines (c :: rest) = match splitLines rest with
      | [] => [[c]]
      | line :: lines => (c :: line) :: lines := by
  refine splitLines.eq_4 c rest hc ?_
  rintro tail hreturn rfl
  exact hrest hreturn rfl

theorem splitLines_of_newline_notMem {line : List Char} (hne : line ≠ []) (h : '\n' ∉ line) :
    splitLines line = [line] := by
  induction line with
  | nil => exact absurd rfl hne
  | cons c line ih =>
    rw [List.mem_cons, not_or] at h
    have hhead : line.head? ≠ some '\n' := fun hn => h.2 (List.mem_of_mem_head? hn)
    rw [splitLines_cons (Ne.symm h.1) fun _ => hhead]
    cases line with
    | nil => rfl
    | cons d line => rw [ih (List.cons_ne_nil _ _) h.2]

/-- A line ends at a line feed, and then does not end in a carriage return itself. -/
theorem splitLines_append_newline {line : List Char} (h : '\n' ∉ line)
    (hlast : line.getLast? ≠ some '\r') (rest : List Char) :
    splitLines (line ++ '\n' :: rest) = line :: splitLines rest := by
  induction line with
  | nil => rw [List.nil_append, splitLines]
  | cons c line ih =>
    rw [List.mem_cons, not_or] at h
    have hend : line.getLast? ≠ some '\r' := by
      intro hl
      rw [List.getLast?_cons, hl] at hlast
      exact hlast rfl
    have hhead : c = '\r' → (line ++ '\n' :: rest).head? ≠ some '\n' := by
      rintro rfl
      cases line with
      | nil => exact absurd rfl hlast
      | cons d line =>
        rw [List.cons_append, List.head?_cons, Ne, Option.some.injEq]
        rintro rfl
        exact h.2 List.mem_cons_self
    rw [List.cons_append, splitLines_cons (Ne.symm h.1) hhead, ih h.2 hend]

theorem splitLines_append_return {line : List Char} (h : '\n' ∉ line) (rest : List Char) :
    splitLines (line ++ '\r' :: '\n' :: rest) = line :: splitLines rest := by
  induction line with
  | nil => rw [List.nil_append, splitLines]
  | cons c line ih =>
    rw [List.mem_cons, not_or] at h
    have hhead : c = '\r' → (line ++ '\r' :: '\n' :: rest).head? ≠ some '\n' := by
      intro _
      cases line with
      | nil => simp
      | cons d line =>
        rw [List.cons_append, List.head?_cons, Ne, Option.some.injEq]
        rintro rfl
        exact h.2 List.mem_cons_self
    rw [List.cons_append, splitLines_cons (Ne.symm h.1) hhead, ih h.2]

/-- A line without the carriage return that a line feed behind it would take along. -/
def withoutReturn (line : List Char) : List Char :=
  if line.getLast? = some '\r' then line.dropLast else line

theorem splitLines_append_feed {line : List Char} (h : '\n' ∉ line) (rest : List Char) :
    splitLines (line ++ '\n' :: rest) = withoutReturn line :: splitLines rest := by
  unfold withoutReturn
  split
  · rename_i hlast
    obtain ⟨front, rfl⟩ := List.getLast?_eq_some_iff.1 hlast
    have hfront : '\n' ∉ front := fun hn => h (List.mem_append_left _ hn)
    rw [List.dropLast_concat, List.append_assoc]
    exact splitLines_append_return hfront rest
  · rename_i hlast
    exact splitLines_append_newline h hlast rest

theorem trim_append_blank {c : Char} (hc : isBlank c) (text : List Char) :
    trim (text ++ [c]) = trim text := by
  unfold trim trimStart trimEnd
  rw [List.dropWhile_append]
  split
  · rename_i hnil
    rw [List.isEmpty_iff] at hnil
    simp [hnil, hc]
  · simp [hc]

theorem trim_withoutReturn (line : List Char) : trim (withoutReturn line) = trim line := by
  unfold withoutReturn
  split
  · rename_i hlast
    obtain ⟨front, rfl⟩ := List.getLast?_eq_some_iff.1 hlast
    have hreturn : isBlank '\r' := by decide
    rw [List.dropLast_concat, trim_append_blank hreturn]
  · rfl

/-! ## Numbers -/

namespace Line

theorem getElem?_numbered (start : Nat) (texts : List (List Char)) (i : Nat) :
    (numbered start texts)[i]? = texts[i]?.map fun text => ⟨start + i, String.ofList text⟩ := by
  induction texts generalizing start i with
  | nil => simp [numbered]
  | cons text rest ih =>
    cases i with
    | zero => simp [numbered]
    | succ i =>
      rw [numbered, List.getElem?_cons_succ, ih, List.getElem?_cons_succ,
        show start + 1 + i = start + (i + 1) by omega]

theorem start_le_of_mem_numbered {start : Nat} {texts : List (List Char)} {line : Line}
    (h : line ∈ numbered start texts) : start ≤ line.number := by
  obtain ⟨i, hi⟩ := List.mem_iff_getElem?.1 h
  rw [getElem?_numbered, Option.map_eq_some_iff] at hi
  obtain ⟨text, -, rfl⟩ := hi
  exact Nat.le_add_right start i

theorem numbered_pairwise (start : Nat) (texts : List (List Char)) :
    (numbered start texts).Pairwise fun a b => a.number < b.number := by
  induction texts generalizing start with
  | nil => exact List.Pairwise.nil
  | cons text rest ih =>
    rw [numbered, List.pairwise_cons]
    exact ⟨fun line hline => start_le_of_mem_numbered hline, ih (start + 1)⟩

theorem ofText_pairwise (text : String) :
    (ofText text).Pairwise fun a b => a.number < b.number :=
  numbered_pairwise 1 (splitLines text.toList)

/-- A line of a text is the line of that number. -/
theorem getElem?_splitLines_of_mem {text : String} {line : Line} (h : line ∈ ofText text) :
    1 ≤ line.number ∧ (splitLines text.toList)[line.number - 1]? = some line.chars := by
  obtain ⟨i, hi⟩ := List.mem_iff_getElem?.1 h
  rw [ofText, getElem?_numbered, Option.map_eq_some_iff] at hi
  obtain ⟨chars, hchars, rfl⟩ := hi
  refine ⟨Nat.le_add_right 1 i, ?_⟩
  simpa [Line.chars] using hchars

end Line

/-! ## Blocks of a document -/

namespace Document

theorem ofLines_of_no_headers {lines : List Line} (h : ∀ line ∈ lines, line.header? = none) :
    ofLines lines = ⟨lines, []⟩ := by
  induction lines with
  | nil => rfl
  | cons line rest ih =>
    rw [List.forall_mem_cons] at h
    rw [ofLines_cons_of_no_header h.1, ih h.2]

theorem preamble_sublist (lines : List Line) : (ofLines lines).preamble.Sublist lines := by
  induction lines with
  | nil => exact List.Sublist.slnil
  | cons line rest ih =>
    cases h : line.header? with
    | some name =>
      rw [ofLines_cons_of_header h]
      exact List.nil_sublist _
    | none =>
      rw [ofLines_cons_of_no_header h]
      exact ih.cons_cons line

theorem section_sublist {lines : List Line} {found : Section}
    (h : found ∈ (ofLines lines).sections) : found.lines.Sublist lines := by
  induction lines with
  | nil => simp [ofLines] at h
  | cons line rest ih =>
    cases hl : line.header? with
    | some name =>
      rw [ofLines_cons_of_header hl, List.mem_cons] at h
      rcases h with rfl | h
      · exact (preamble_sublist rest).cons line
      · exact (ih h).cons line
    | none =>
      rw [ofLines_cons_of_no_header hl] at h
      exact (ih h).cons line

theorem ruleLines_sublist (text : String) : (parse text).ruleLines.Sublist (Line.ofText text) := by
  unfold ruleLines ruleBlock?
  split
  · rename_i block h
    split at h
    · rename_i found hfound
      cases h
      exact section_sublist (List.mem_of_find?_eq_some hfound)
    · split at h <;> cases h
      exact preamble_sublist _
  · exact List.nil_sublist _

end Document

end Retention
