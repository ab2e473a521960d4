import Retention.Proofs.Grammar.Failures
import Retention.Proofs.Grammar.Writable

/-!
# Where a quoted text ends

A quote with an even number of backslashes in front of it closes the text that it stands in. A
quoted text is read to the first such quote, whatever follows, and is refused for good if there
is none. Backslashes in front of the backslashes and quotes of a text keep it together.
-/

namespace Retention

/-! ## Backslashes in front of a quote -/

/-- How many backslashes the text ends in. -/
def slashRun (text : List Char) : Nat := (text.reverse.takeWhile (· == '\\')).length

theorem slashRun_le_length (text : List Char) : slashRun text ≤ text.length := by
  rw [← List.length_reverse]
  exact (List.takeWhile_prefix _).length_le

/-- The run reaches back to the first character where all others are backslashes. -/
theorem slashRun_cons (c : Char) (text : List Char) :
    slashRun (c :: text) =
      if c = '\\' ∧ slashRun text = text.length then text.length + 1 else slashRun text := by
  unfold slashRun
  rw [List.reverse_cons, List.takeWhile_append, List.length_reverse]
  by_cases hall : (text.reverse.takeWhile (· == '\\')).length = text.length
  · by_cases hc : c = '\\'
    · simp [hall, hc]
    · simp [hall, hc]
  · simp [hall]

theorem slashRun_cons_of_ne {c : Char} (hc : c ≠ '\\') (text : List Char) :
    slashRun (c :: text) = slashRun text := by
  simp [slashRun_cons, hc]

/-- Two characters that belong together do not change whether the number is even. -/
theorem slashRun_pair (c : Char) (text : List Char) :
    slashRun ('\\' :: c :: text) % 2 = slashRun text % 2 := by
  have hle := slashRun_le_length text
  by_cases hc : c = '\\'
  · simp only [slashRun_cons, hc, true_and, List.length_cons]
    split_ifs <;> omega
  · have hne : slashRun text ≠ (c :: text).length := by
      rw [List.length_cons]
      omega
    rw [slashRun_cons, slashRun_cons_of_ne hc, if_neg fun h => hne h.2]

/-! ## Closing quotes -/

/-- A quote between two parts of a text closes the first part. -/
def Closes (quote : Char) (text body rest : List Char) : Prop :=
  text = body ++ quote :: rest ∧ slashRun body % 2 = 0

/-- The first quote that closes. -/
def ClosesFirst (quote : Char) (text body rest : List Char) : Prop :=
  Closes quote text body rest ∧
    ∀ other behind, Closes quote text other behind → body.length ≤ other.length

/-- A text between quotes with what the pairs mean. -/
def unescaped : List Char → List Char
  | '\\' :: c :: rest => pairText c ++ unescaped rest
  | c :: rest => c :: unescaped rest
  | [] => []

section

variable {quote c : Char} {text body rest : List Char}

theorem closes_plain_iff (hc : c ≠ quote) (hslash : c ≠ '\\') :
    Closes quote (c :: text) body rest ↔
      ∃ more, body = c :: more ∧ Closes quote text more rest := by
  unfold Closes
  cases body with
  | nil => simp [hc]
  | cons d more =>
    simp only [List.cons_append, List.cons.injEq]
    constructor
    · rintro ⟨⟨rfl, htext⟩, heven⟩
      rw [slashRun_cons_of_ne hslash] at heven
      exact ⟨more, ⟨rfl, rfl⟩, htext, heven⟩
    · rintro ⟨_, ⟨rfl, rfl⟩, htext, heven⟩
      rw [slashRun_cons_of_ne hslash]
      exact ⟨⟨rfl, htext⟩, heven⟩

/-- A quote behind a single backslash does not close. -/
theorem closes_pair_iff (hquote : quote ≠ '\\') : Closes quote ('\\' :: c :: text) body rest ↔
    ∃ more, body = '\\' :: c :: more ∧ Closes quote text more rest := by
  unfold Closes
  rcases body with _ | ⟨d, _ | ⟨e, more⟩⟩
  · simp [hquote.symm]
  · have hodd : slashRun ['\\'] % 2 ≠ 0 := by decide
    constructor
    · rintro ⟨htext, heven⟩
      simp only [List.cons_append, List.cons.injEq] at htext
      rw [← htext.1] at heven
      exact absurd heven hodd
    · rintro ⟨_, hbody, -⟩
      simp at hbody
  · simp only [List.cons_append, List.cons.injEq]
    constructor
    · rintro ⟨⟨rfl, rfl, htext⟩, heven⟩
      rw [slashRun_pair] at heven
      exact ⟨more, ⟨rfl, rfl, rfl⟩, htext, heven⟩
    · rintro ⟨_, ⟨rfl, rfl, rfl⟩, htext, heven⟩
      rw [slashRun_pair]
      exact ⟨⟨rfl, rfl, htext⟩, heven⟩

theorem closesFirst_plain (hc : c ≠ quote) (hslash : c ≠ '\\')
    (h : ClosesFirst quote text body rest) : ClosesFirst quote (c :: text) (c :: body) rest := by
  refine ⟨(closes_plain_iff hc hslash).2 ⟨body, rfl, h.1⟩, fun other behind hother => ?_⟩
  obtain ⟨more, rfl, hmore⟩ := (closes_plain_iff hc hslash).1 hother
  have hle := h.2 more behind hmore
  simpa using hle

theorem closesFirst_pair (hquote : quote ≠ '\\') (h : ClosesFirst quote text body rest) :
    ClosesFirst quote ('\\' :: c :: text) ('\\' :: c :: body) rest := by
  refine ⟨(closes_pair_iff hquote).2 ⟨body, rfl, h.1⟩, fun other behind hother => ?_⟩
  obtain ⟨more, rfl, hmore⟩ := (closes_pair_iff hquote).1 hother
  have hle := h.2 more behind hmore
  simpa using hle

/-- There is one first quote. -/
theorem ClosesFirst.unique {other behind : List Char} (h : ClosesFirst quote text body rest)
    (h' : ClosesFirst quote text other behind) : body = other ∧ rest = behind := by
  have hlength : body.length = other.length :=
    Nat.le_antisymm (h.2 other behind h'.1) (h'.2 body rest h.1)
  obtain ⟨rfl, htail⟩ := List.append_inj (h.1.1.symm.trans h'.1.1) hlength
  exact ⟨rfl, (List.cons.inj htail).2⟩

end

/-! ## What is read between quotes -/

theorem unescaped_plain {c : Char} (hslash : c ≠ '\\') (rest : List Char) :
    unescaped (c :: rest) = c :: unescaped rest :=
  unescaped.eq_2 c rest fun _ _ h => absurd h hslash

/-- What is spelled between quotes ends at the first quote that closes. -/
theorem QuotedBody.closesFirst {quote : Char} (hquote : quote ≠ '\\') {body content : List Char}
    (h : QuotedBody quote body content) (rest : List Char) :
    ClosesFirst quote (body ++ quote :: rest) body rest ∧ content = unescaped body := by
  induction h with
  | nil => exact ⟨⟨⟨rfl, rfl⟩, fun _ _ _ => Nat.zero_le _⟩, rfl⟩
  | plain hc hslash _ ih =>
    exact ⟨closesFirst_plain hc hslash ih.1, by rw [unescaped_plain hslash, ih.2]⟩
  | pair c _ ih => exact ⟨closesFirst_pair hquote ih.1, by rw [unescaped, ih.2]⟩

namespace Reader

/-- Where some quote closes the text is read. -/
theorem exists_ok_of_closes {quote : Char} (hquote : quote ≠ '\\') {text body rest : List Char}
    (h : Closes quote text body rest) : ∃ read, quotedBody quote text = .ok read := by
  induction text using quotedBody.induct quote generalizing body with
  | case1 => simp [Closes] at h
  | case2 =>
    unfold Closes at h
    rcases body with _ | ⟨d, body⟩ <;> simp [hquote.symm] at h
  | case3 c text ih =>
    obtain ⟨more, -, hmore⟩ := (closes_pair_iff hquote).1 h
    obtain ⟨⟨content, behind⟩, hread⟩ := ih hmore
    exact ⟨_, quotedBody_pair.2 ⟨content, hread, rfl⟩⟩
  | case4 text => exact ⟨_, quotedBody_quote hquote text⟩
  | case5 c text hend hpair hc ih =>
    have hslash := ne_slash_of_not_pair hend hpair
    obtain ⟨more, -, hmore⟩ := (closes_plain_iff hc hslash).1 h
    obtain ⟨⟨content, behind⟩, hread⟩ := ih hmore
    exact ⟨_, (quotedBody_plain hslash hc).2 ⟨content, hread, rfl⟩⟩

theorem quotedBody_eq_ok_iff_closesFirst {quote : Char} (hquote : quote ≠ '\\')
    {text content rest : List Char} : quotedBody quote text = .ok (content, rest) ↔
      ∃ body, ClosesFirst quote text body rest ∧ content = unescaped body := by
  constructor
  · intro h
    obtain ⟨body, hbody, rfl⟩ := (quotedBody_iff hquote).1 h
    exact ⟨body, hbody.closesFirst hquote rest⟩
  · rintro ⟨body, hfirst, rfl⟩
    obtain ⟨⟨content, behind⟩, hread⟩ := exists_ok_of_closes hquote hfirst.1
    obtain ⟨other, hother, rfl⟩ := (quotedBody_iff hquote).1 hread
    obtain ⟨hfirst', rfl⟩ := hother.closesFirst hquote behind
    obtain ⟨rfl, rfl⟩ := hfirst.unique hfirst'
    exact hread

/-! ## Quoted texts -/

section

variable {quote : Char} {text rest : List Char}

theorem quoted_cons_eq_ok_iff {s : String} (hquote : isQuote quote) :
    quoted (quote :: text) = .ok (s, rest) ↔
      ∃ body, ClosesFirst quote text body rest ∧ s = String.ofList (unescaped body) := by
  have hbody : ∀ content, quotedBody quote text = .ok (content, rest) ↔
      ∃ body, ClosesFirst quote text body rest ∧ content = unescaped body := fun _ =>
    quotedBody_eq_ok_iff_closesFirst (ne_slash_of_isQuote hquote)
  unfold quoted
  simp only [bind_eq_ok_iff, satisfy_eq_ok_iff, pure_apply, Except.ok.injEq, Prod.mk.injEq]
  constructor
  · rintro ⟨_, _, ⟨⟨⟩, -⟩, content, _, hread, rfl, rfl⟩
    obtain ⟨body, hfirst, rfl⟩ := (hbody content).1 hread
    exact ⟨body, hfirst, rfl⟩
  · rintro ⟨body, hfirst, rfl⟩
    exact ⟨quote, text, ⟨rfl, hquote⟩, _, rest, (hbody _).2 ⟨body, hfirst, rfl⟩, rfl, rfl⟩

theorem exists_quoted_cons_eq_ok_iff (hquote : isQuote quote) :
    (∃ read, quoted (quote :: text) = .ok read) ↔ ∃ body rest, Closes quote text body rest := by
  constructor
  · rintro ⟨⟨s, rest⟩, hread⟩
    obtain ⟨body, hfirst, -⟩ := (quoted_cons_eq_ok_iff hquote).1 hread
    exact ⟨body, rest, hfirst.1⟩
  · rintro ⟨body, rest, hcloses⟩
    have hne := ne_slash_of_isQuote hquote
    obtain ⟨⟨content, behind⟩, hread⟩ := exists_ok_of_closes hne hcloses
    obtain ⟨first, hfirst⟩ := (quotedBody_eq_ok_iff_closesFirst hne).1 hread
    exact ⟨(_, behind), (quoted_cons_eq_ok_iff hquote).2 ⟨first, hfirst.1, rfl⟩⟩

/-- A quoted text that does not end is refused for good. -/
theorem committed_of_quoted_cons {failure : Failure} (hquote : isQuote quote)
    (h : quoted (quote :: text) = .error failure) : failure.committed := by
  have hsatisfy : satisfy isQuote (quote :: text) = .ok (quote, text) :=
    satisfy_eq_ok_iff.2 ⟨rfl, hquote⟩
  rcases bind_eq_error_iff.1 h with h | ⟨_, _, hread, h⟩
  · rw [hsatisfy] at h
    cases h
  · rw [hsatisfy] at hread
    cases hread
    rcases bind_eq_error_iff.1 h with h | ⟨_, _, -, h⟩
    · exact (failsWith_quotedBody quote text failure h).1
    · cases h

/-- After a committed failure the other alternatives are not tried. -/
theorem noting_either_of_committed {α : Type} {first second : Reader α} {note : Note}
    {gap : List Char} {failure : Failure} (hgap : gap.all isSpace)
    (hstart : startsWith isSpace text = false) (hfails : first text = .error failure)
    (hcommitted : failure.committed) :
    (do spaces; noting note (either first second)) (gap ++ text) =
      .error { failure with notes := failure.notes ++ [note] } := by
  have hdrop : text.dropWhile isSpace = text := by
    cases text with
    | nil => rfl
    | cons c text =>
      rw [startsWith_cons] at hstart
      simp [hstart]
  rw [spaces_bind, List.dropWhile_append_of_pos (List.all_eq_true.1 hgap), hdrop]
  simp [noting, either, hfails, hcommitted]

end

/-- The backslashes and quotes of a text, each behind a backslash. -/
def slashed (quote : Char) (text : List Char) : List Char := text.flatMap (slashChar quote)

theorem quotedBody_slashed {quote : Char} (hquote : isQuote quote) (text : List Char) :
    QuotedBody quote (slashed quote text) text :=
  quotedBody_flatMap fun c _ => spellsChar_slashChar hquote c

/-- A quoted text is read to its first quote behind an even number of backslashes. Where there is
none it is refused for good, as an operand and as a label. So a text with its backslashes and
quotes escaped is read back, whatever follows. -/
theorem quoted_ends_at_first_closing_quote {quote : Char} (hquote : isQuote quote)
    (text : List Char) :
    (∀ s rest, quoted (quote :: text) = .ok (s, rest) ↔
      ∃ body, ClosesFirst quote text body rest ∧ s = String.ofList (unescaped body)) ∧
    ((∃ read, quoted (quote :: text) = .ok read) ↔ ∃ body rest, Closes quote text body rest) ∧
    ((∀ body rest, ¬ Closes quote text body rest) → ∃ failure, failure.committed ∧
      quoted (quote :: text) = .error failure ∧ ∀ gap, gap.all isSpace →
        operand (gap ++ quote :: text) =
          .error { failure with notes := failure.notes ++ [.expected (.part "operand")] } ∧
        label (gap ++ quote :: text) =
          .error { failure with notes := failure.notes ++ [.expected (.part "label")] }) ∧
    ∀ (s : String) rest,
      quoted (quote :: (slashed quote s.toList ++ quote :: rest)) = .ok (s, rest) := by
  refine ⟨fun s rest => quoted_cons_eq_ok_iff hquote, exists_quoted_cons_eq_ok_iff hquote,
    fun hopen => ?_, fun s rest => ?_⟩
  · have hno : ¬ ∃ read, quoted (quote :: text) = .ok read := by
      rw [exists_quoted_cons_eq_ok_iff hquote]
      rintro ⟨body, rest, hcloses⟩
      exact hopen body rest hcloses
    have hstart : startsWith isSpace (quote :: text) = false := by
      rw [startsWith_cons]
      exact isSpace_eq_false (p := isQuote) rfl rfl quote hquote
    cases hread : quoted (quote :: text) with
    | ok read => exact absurd ⟨read, hread⟩ hno
    | error failure =>
      have hcommitted := committed_of_quoted_cons hquote hread
      refine ⟨failure, hcommitted, rfl, fun gap hgap => ⟨?_, ?_⟩⟩
      · exact noting_either_of_committed hgap hstart (bind_eq_error_iff.2 (.inl hread)) hcommitted
      · exact noting_either_of_committed hgap hstart (bind_eq_error_iff.2 (.inl hread)) hcommitted
  · have hbody := quotedBody_slashed hquote s.toList
    refine quoted_iff.2 ⟨quote, _, s.toList, hquote, hbody, (String.ofList_toList).symm, ?_⟩
    simp [Token.quoted]

/-- Three backslashes and one stand in front of quotes that do not close. -/
theorem quoted_ends_at_first_closing_quote_of_apostrophes :
    let closed := "it\\\\\\'s \\q' and more'".toList
    let unclosed := "it\\'s".toList
    isQuote '\'' ∧ quoted ('\'' :: closed) = .ok ("it\\'s \\q", " and more'".toList) ∧
      (∃ body, ClosesFirst '\'' closed body " and more'".toList ∧
        "it\\'s \\q" = String.ofList (unescaped body)) ∧
      ∃ failure, failure.committed ∧ quoted ('\'' :: unclosed) = .error failure := by
  intro closed unclosed
  have hquote : isQuote '\'' := by decide
  have hread : quoted ('\'' :: closed) = .ok ("it\\'s \\q", " and more'".toList) := by
    decide +kernel
  have hfails : ∀ read, quoted ('\'' :: unclosed) ≠ .ok read := by
    rw [show quoted ('\'' :: unclosed) = .error ⟨[], true, [.expected (.mark '\'')]⟩ by
      decide +kernel]
    exact fun _ h => nomatch h
  obtain ⟨hok, -, -⟩ := quoted_ends_at_first_closing_quote hquote closed
  obtain ⟨-, hexists, hcut, -⟩ := quoted_ends_at_first_closing_quote hquote unclosed
  have hopen : ∀ body rest, ¬ Closes '\'' unclosed body rest := by
    intro body rest hcloses
    obtain ⟨read, hread⟩ := hexists.2 ⟨body, rest, hcloses⟩
    exact hfails read hread
  obtain ⟨failure, hcommitted, hread', -⟩ := hcut hopen
  exact ⟨hquote, hread, (hok _ _).1 hread, failure, hcommitted, hread'⟩

end Reader

end Retention
