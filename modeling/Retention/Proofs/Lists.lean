import Mathlib.Data.List.Infix

/-!
# Facts on lists

Facts that hold of all lists: of what a partial function takes from a list, of pairs and of the
places of a list, of look-ups by name, and of texts that are joined or taken apart.
-/

namespace Retention

/-! ## What is taken from a list -/

section

variable {α β : Type}

theorem filterMap_toList (take : α → Option β) (found : Option α) :
    found.toList.filterMap take = (found.bind take).toList := by
  cases found with
  | none => rfl
  | some a => cases h : take a <;> simp [h]

variable {f g : α → Option β}

theorem filterMap_sublist_filterMap (h : ∀ a b, f a = some b → g a = some b) (l : List α) :
    (l.filterMap f).Sublist (l.filterMap g) := by
  have hfilter : l.filterMap f = (l.filter fun a => (f a).isSome).filterMap g := by
    rw [List.filterMap_filter]
    apply List.filterMap_congr
    intro a _
    cases hf : f a with
    | none => simp
    | some b => simp [h a b hf]
  rw [hfilter]
  exact List.filter_sublist.filterMap g

/-- What gives less gives the same only where it gives the same of each. -/
theorem filterMap_eq_filterMap_iff (h : ∀ a b, f a = some b → g a = some b) (l : List α) :
    l.filterMap f = l.filterMap g ↔ ∀ a ∈ l, f a = g a := by
  refine ⟨fun heq => ?_, List.filterMap_congr⟩
  induction l with
  | nil => exact List.forall_mem_nil _
  | cons a l ih =>
    rw [List.forall_mem_cons]
    cases hf : f a with
    | some b =>
      rw [List.filterMap_cons_some hf, List.filterMap_cons_some (h a b hf), List.cons.injEq] at heq
      exact ⟨(h a b hf).symm, ih heq.2⟩
    | none =>
      cases hg : g a with
      | none =>
        rw [List.filterMap_cons_none hf, List.filterMap_cons_none hg] at heq
        exact ⟨rfl, ih heq⟩
      | some b =>
        rw [List.filterMap_cons_none hf, List.filterMap_cons_some hg] at heq
        -- The right side would be longer than the list that it holds.
        have hlength := (filterMap_sublist_filterMap h l).length_le
        rw [heq, List.length_cons] at hlength
        omega

/-- Of names that do not repeat, only one has a part. -/
theorem flatMap_of_nodup {names : List String} (hnodup : names.Nodup) {part : String → List β}
    {name : String} (hpart : ∀ other, other ≠ name → part other = []) :
    names.flatMap part = if name ∈ names then part name else [] := by
  induction names with
  | nil => rfl
  | cons other rest ih =>
    rw [List.nodup_cons] at hnodup
    rw [List.flatMap_cons, ih hnodup.2]
    by_cases h : other = name
    · subst h
      simp [hnodup.1]
    · simp [hpart other h, Ne.symm h]

end

/-! ## Equality by a test -/

section

variable {α : Type} {same : α → α → Bool} {l m : List α}

theorem isEqv_self (h : ∀ a ∈ l, same a a) : l.isEqv l same := by
  simp [List.isEqv_eq_decide, h]

theorem length_eq_of_isEqv (h : l.isEqv m same) : l.length = m.length := by
  rw [List.isEqv_eq_decide] at h
  split at h
  · assumption
  · cases h

end

/-! ## Places of a list -/

section

variable {α β : Type} {as : List α} {bs : List β}

theorem filterMap_range_getElem? (l : List α) :
    (List.range l.length).filterMap (l[·]?) = l := by
  induction l with
  | nil => rfl
  | cons a rest ih =>
    rw [List.length_cons, List.range_succ_eq_map, List.filterMap_cons, List.filterMap_map]
    exact congrArg (a :: ·) ih

theorem getElem?_zip_of_lt {i : Nat} (h : i < min as.length bs.length) :
    ∃ a b, as[i]? = some a ∧ bs[i]? = some b ∧ (as.zip bs)[i]? = some (a, b) := by
  rw [Nat.lt_min] at h
  have ha : as[i]? = some as[i] := List.getElem?_eq_getElem h.1
  have hb : bs[i]? = some bs[i] := List.getElem?_eq_getElem h.2
  exact ⟨_, _, ha, hb, List.getElem?_zip_eq_some.2 ⟨ha, hb⟩⟩

theorem countP_zip_eq_countP_range {p : α × β → Bool} {test : Nat → Bool}
    (h : ∀ i a b, as[i]? = some a → bs[i]? = some b → p (a, b) = test i) :
    (as.zip bs).countP p = (List.range (min as.length bs.length)).countP test := by
  have hcount : (as.zip bs).countP p =
      ((List.range (as.zip bs).length).filterMap ((as.zip bs)[·]?)).countP p := by
    rw [filterMap_range_getElem?]
  rw [hcount, List.countP_filterMap, List.length_zip]
  refine List.countP_congr fun i hi => ?_
  obtain ⟨a, b, ha, hb, hzip⟩ := getElem?_zip_of_lt (List.mem_range.1 hi)
  rw [hzip, ← h i a b ha hb]
  rfl

/-- What two lists hold at the same positions, in another order of the positions. -/
theorem zip_filterMap_getElem? {order : List Nat}
    (h : ∀ i ∈ order, i < min as.length bs.length) :
    (order.filterMap (as[·]?)).zip (order.filterMap (bs[·]?)) =
      order.filterMap ((as.zip bs)[·]?) := by
  induction order with
  | nil => rfl
  | cons i rest ih =>
    rw [List.forall_mem_cons] at h
    obtain ⟨a, b, ha, hb, hzip⟩ := getElem?_zip_of_lt h.1
    rw [List.filterMap_cons_some ha, List.filterMap_cons_some hb, List.filterMap_cons_some hzip,
      List.zip_cons_cons, ih h.2]

theorem zip_filterMap_perm {order : List Nat}
    (h : order.Perm (List.range (min as.length bs.length))) :
    ((order.filterMap (as[·]?)).zip (order.filterMap (bs[·]?))).Perm (as.zip bs) := by
  have hlt : ∀ i ∈ order, i < min as.length bs.length :=
    fun i hi => List.mem_range.1 (h.mem_iff.1 hi)
  have hperm := h.filterMap ((as.zip bs)[·]?)
  rwa [← List.length_zip, filterMap_range_getElem?, ← zip_filterMap_getElem? hlt] at hperm

theorem zip_flatMap {parts : List (List α × List β)}
    (h : ∀ part ∈ parts, part.1.length = part.2.length) :
    (parts.flatMap Prod.fst).zip (parts.flatMap Prod.snd) =
      parts.flatMap fun part => part.1.zip part.2 := by
  induction parts with
  | nil => rfl
  | cons part rest ih =>
    rw [List.forall_mem_cons] at h
    rw [List.flatMap_cons, List.flatMap_cons, List.flatMap_cons, List.zip_append h.1, ih h.2]

end

/-- Both parts of a run of numbers are runs. -/
theorem eq_range'_of_append {start count : Nat} {front back : List Nat}
    (h : List.range' start count = front ++ back) :
    front = List.range' start front.length ∧
      back = List.range' (start + front.length) back.length := by
  obtain ⟨length, -, rfl, rfl⟩ := List.range'_eq_append_iff.1 h
  simp

/-! ## Look-ups by name -/

section

variable {ι α : Type} [BEq ι] [LawfulBEq ι] {entries : List (ι × α)} {name : ι} {value : α}

theorem lookup_filter_fst (p : ι → Bool) (entries : List (ι × α)) (name : ι) :
    (entries.filter fun entry => p entry.1).lookup name =
      if p name then entries.lookup name else none := by
  induction entries with
  | nil => simp
  | cons entry rest ih =>
    obtain ⟨other, value⟩ := entry
    by_cases hname : name = other
    · subst hname
      by_cases hp : p name <;> simp [hp, ih]
    · have hne : (name == other) = false := beq_eq_false_iff_ne.2 hname
      by_cases hp : p other <;> simp [hp, ih, List.lookup_cons, hne]

theorem lookup_of_mem (hnodup : (entries.map Prod.fst).Nodup) (h : (name, value) ∈ entries) :
    entries.lookup name = some value := by
  obtain ⟨before, after, rfl⟩ := List.append_of_mem h
  refine List.lookup_eq_some_iff.2 ⟨before, after, rfl, fun entry hentry => ?_⟩
  rw [List.map_append, List.map_cons, List.nodup_append] at hnodup
  have hne := hnodup.2.2 entry.1 (List.mem_map_of_mem hentry) name List.mem_cons_self
  exact bne_iff_ne.2 (Ne.symm hne)

theorem mem_of_lookup (h : entries.lookup name = some value) : (name, value) ∈ entries := by
  obtain ⟨before, after, rfl, -⟩ := List.lookup_eq_some_iff.1 h
  simp

end

/-! ## Texts -/

theorem newline_notMem_of_all {p : Char → Bool} (hp : p '\n' = false) {text : List Char}
    (h : text.all p) : '\n' ∉ text := by
  intro hmem
  rw [List.all_eq_true.1 h _ hmem] at hp
  cases hp

theorem slashes_of_append {before after : List Char} {c : Char} (hc : c ≠ '/')
    (h : ['/', '/'] <:+: before ++ c :: after) :
    ['/', '/'] <:+: before ∨ ['/', '/'] <:+: after := by
  induction before with
  | nil =>
    rw [List.nil_append, List.infix_cons_iff] at h
    rcases h with h | h
    · exact absurd (List.cons_prefix_cons.1 h).1.symm hc
    · exact .inr h
  | cons d before ih =>
    rw [List.cons_append, List.infix_cons_iff] at h
    rcases h with h | h
    · obtain ⟨rfl, hnext⟩ := List.cons_prefix_cons.1 h
      cases before with
      | nil => exact absurd (List.cons_prefix_cons.1 hnext).1.symm hc
      | cons d before =>
        obtain ⟨rfl, -⟩ := List.cons_prefix_cons.1 hnext
        exact .inl ⟨[], before, rfl⟩
    · exact (ih h).imp_left List.infix_cons

/-! ## Joined texts -/

theorem join_cons_cons (line next : List Char) (rest : List (List Char)) :
    ['\n'].intercalate (line :: next :: rest) =
      line ++ '\n' :: ['\n'].intercalate (next :: rest) := by
  rw [List.intercalate_cons_cons]
  simp

theorem notMem_intercalate {c : Char} {separator : String} {parts : List String}
    (hseparator : c ∉ separator.toList) (hparts : ∀ part ∈ parts, c ∉ part.toList) :
    c ∉ (separator.intercalate parts).toList := by
  induction parts with
  | nil => simp
  | cons part rest ih =>
    rw [List.forall_mem_cons] at hparts
    cases rest with
    | nil => simpa using hparts.1
    | cons next rest =>
      rw [String.intercalate_cons_cons]
      simp only [String.toList_append, List.mem_append, not_or]
      exact ⟨⟨hparts.1, hseparator⟩, ih hparts.2⟩

theorem intercalate_cons_ne_empty {part : String} (hpart : part ≠ "") (separator : String)
    (rest : List String) : separator.intercalate (part :: rest) ≠ "" := by
  cases rest with
  | nil => simpa using hpart
  | cons next rest =>
    rw [String.intercalate_cons_cons]
    simp [hpart]

end Retention
