import Retention.Proofs.Grammar.Spelling
import Retention.Proofs.Lists

/-!
# Reading tokens

Each reader of a token succeeds exactly on a text that starts with a spelling of the token, and
leaves what follows. An alternative is tried because the one before it declines.
-/

namespace Retention.Reader

variable {α β : Type}

/-! ## Readers that decline -/

/-- Failing so that an alternative is tried. -/
def Declines (reader : Reader α) (text : List Char) : Prop :=
  ∃ failure, reader text = .error failure ∧ failure.committed = false

theorem ne_ok_of_declines {reader : Reader α} {text : List Char} (h : Declines reader text)
    (result : α × List Char) : reader text ≠ .ok result := by
  obtain ⟨failure, hf, -⟩ := h
  simp [hf]

theorem declines_fail (text : List Char) : Declines (fail : Reader α) text := ⟨_, rfl, rfl⟩

theorem declines_satisfy {p : Char → Bool} {text : List Char} (h : startsWith p text = false) :
    Declines (satisfy p) text := by
  cases text with
  | nil => exact ⟨_, rfl, rfl⟩
  | cons c rest =>
    rw [startsWith_cons] at h
    exact ⟨⟨c :: rest, false, []⟩, by simp [satisfy, h], rfl⟩

theorem declines_bind {first : Reader α} {next : α → Reader β} {text : List Char}
    (h : Declines first text) : Declines (first >>= next) text := by
  obtain ⟨failure, hf, hc⟩ := h
  exact ⟨failure, bind_eq_error_iff.2 (.inl hf), hc⟩

theorem declines_bind_of_ok {first : Reader α} {next : α → Reader β} {text between : List Char}
    {a : α} (h : first text = .ok (a, between)) (hn : Declines (next a) between) :
    Declines (first >>= next) text := by
  obtain ⟨failure, hf, hc⟩ := hn
  exact ⟨failure, bind_eq_error_iff.2 (.inr ⟨a, between, h, hf⟩), hc⟩

theorem declines_many1 {p : Char → Bool} {text : List Char} (h : startsWith p text = false) :
    Declines (many1 p) text :=
  declines_bind (declines_satisfy h)

theorem declines_exactly {word text : List Char} (h : ¬ word <+: text) :
    Declines (exactly word) text := by
  refine ⟨⟨text, false, []⟩, ?_, rfl⟩
  unfold exactly
  rw [if_neg]
  rwa [List.isPrefixOf_iff_prefix]

theorem declines_exactly_iff {word text : List Char} :
    Declines (exactly word) text ↔ ¬ word <+: text := by
  constructor
  · rintro h ⟨rest, rfl⟩
    exact ne_ok_of_declines h _ (exactly_eq_ok_iff.2 rfl)
  · exact declines_exactly

theorem singleton_prefix_iff {c : Char} {text : List Char} :
    [c] <+: text ↔ startsWith (· == c) text := by
  cases text with
  | nil => simp [startsWith]
  | cons d rest => simp [List.cons_prefix_cons, @eq_comm _ c]

theorem declines_noting {note : Note} {reader : Reader α} {text : List Char}
    (h : Declines reader text) : Declines (noting note reader) text := by
  obtain ⟨failure, hf, hc⟩ := h
  exact ⟨{ failure with notes := failure.notes ++ [note] }, by simp [noting, hf], hc⟩

theorem declines_either {first second : Reader α} {text : List Char} (h : Declines first text)
    (h' : Declines second text) : Declines (either first second) text := by
  obtain ⟨failure, hf, hc⟩ := h
  obtain ⟨failure', hf', hc'⟩ := h'
  exact ⟨failure', by simp [either, hf, hc, hf'], hc'⟩

theorem either_eq_of_declines {first : Reader α} {text : List Char} (h : Declines first text)
    (second : Reader α) : either first second text = second text := by
  obtain ⟨failure, hf, hc⟩ := h
  simp [either, hf, hc]

theorem either_eq_of_ok {first : Reader α} {text : List Char} {result : α × List Char}
    (h : first text = .ok result) (second : Reader α) :
    either first second text = .ok result := by
  simp [either, h]

theorem optional_eq_ok_iff {reader : Reader α} {text rest : List Char} {found : Option α} :
    optional reader text = .ok (found, rest) ↔
      (∃ a, found = some a ∧ reader text = .ok (a, rest)) ∨
        (found = none ∧ rest = text ∧ Declines reader text) := by
  unfold optional Declines
  rcases reader text with failure | ⟨a, after⟩
  · cases h : failure.committed
    · simp [h, @eq_comm _ none, @eq_comm _ text]
    · simp [h]
  · simp only [Except.ok.injEq, Prod.mk.injEq, reduceCtorEq, false_and, exists_false, and_false,
      or_false]
    constructor
    · rintro ⟨rfl, rfl⟩
      exact ⟨a, rfl, rfl, rfl⟩
    · rintro ⟨_, rfl, rfl, rfl⟩
      exact ⟨rfl, rfl⟩

/-! ## Runs of characters -/

theorem takeWhile_eq_and_dropWhile_eq_iff {p : Char → Bool} {text found rest : List Char} :
    (found = text.takeWhile p ∧ rest = text.dropWhile p) ↔
      text = found ++ rest ∧ found.all p ∧ startsWith p rest = false := by
  constructor
  · rintro ⟨rfl, rfl⟩
    refine ⟨(List.takeWhile_append_dropWhile).symm, List.all_takeWhile, ?_⟩
    induction text with
    | nil => rfl
    | cons c text ih =>
      rw [List.dropWhile_cons]
      split
      · exact ih
      · rename_i hc
        simpa using hc
  · rintro ⟨rfl, hall, hstart⟩
    have hin : ∀ c ∈ found, p c = true := List.all_eq_true.1 hall
    have hrest : rest.takeWhile p = [] ∧ rest.dropWhile p = rest := by
      cases rest with
      | nil => exact ⟨rfl, rfl⟩
      | cons c rest => rw [startsWith_cons] at hstart; simp [hstart]
    rw [List.takeWhile_append_of_pos hin, List.dropWhile_append_of_pos hin, hrest.1, hrest.2]
    simp

theorem many_iff {p : Char → Bool} {text rest found : List Char} :
    many p text = .ok (found, rest) ↔
      text = found ++ rest ∧ found.all p ∧ startsWith p rest = false := by
  rw [← takeWhile_eq_and_dropWhile_eq_iff, many_apply]
  simp [eq_comm]

theorem many1_iff {p : Char → Bool} {text rest found : List Char} :
    many1 p text = .ok (found, rest) ↔
      text = found ++ rest ∧ found ≠ [] ∧ found.all p ∧ startsWith p rest = false := by
  rw [many1_eq_ok_iff, ← and_assoc, takeWhile_eq_and_dropWhile_eq_iff]
  constructor
  · rintro ⟨⟨h1, h2, h3⟩, h4⟩
    exact ⟨h1, h4, h2, h3⟩
  · rintro ⟨h1, h4, h2, h3⟩
    exact ⟨⟨h1, h2, h3⟩, h4⟩

theorem declines_many1_iff {p : Char → Bool} {text : List Char} :
    Declines (many1 p) text ↔ startsWith p text = false := by
  constructor
  · intro h
    cases text with
    | nil => rfl
    | cons c rest =>
      rw [startsWith_cons, Bool.eq_false_iff]
      intro hc
      exact ne_ok_of_declines h _ (many1_eq_ok_iff.2 ⟨rfl, rfl, by simp [hc]⟩)
  · exact declines_many1

/-! ## Spaces -/

theorem spaces_bind (reader : Reader α) (text : List Char) :
    (do spaces; reader) text = reader (text.dropWhile isSpace) := rfl

theorem spaces_iff {text rest : List Char} :
    spaces text = .ok ((), rest) ↔ text.dropWhile isSpace = rest := by
  rw [show spaces text = .ok ((), text.dropWhile isSpace) from rfl]
  simp

/-- A token that starts with a character that is no space. -/
def Solid (token : Token) : Prop := token.text ≠ [] ∧ startsWith isSpace token.text = false

theorem spaced_iff_of_solid {token : Token} (h : Solid token) {text rest : List Char} :
    Spaced [token] text rest ↔
      token.goesOn rest = false ∧ text.dropWhile isSpace = token.text ++ rest := by
  rw [spaced_singleton_iff]
  constructor
  · rintro ⟨gap, hgap, hends, rfl⟩
    obtain ⟨hne, hstart⟩ := h
    obtain ⟨c, word, hword⟩ := List.exists_cons_of_ne_nil hne
    rw [hword, startsWith_cons] at hstart
    rw [hword, List.append_assoc, List.dropWhile_append_of_pos (List.all_eq_true.1 hgap)]
    exact ⟨hends, by simp [hstart]⟩
  · rintro ⟨hends, h⟩
    refine ⟨text.takeWhile isSpace, List.all_takeWhile, hends, ?_⟩
    rw [List.append_assoc, ← h, List.takeWhile_append_dropWhile]

/-! ## Words -/

theorem word_iff {text w rest : List Char} :
    word text = .ok (w, rest) ↔
      text = w ++ rest ∧ isFieldName w ∧ startsWith isNameChar rest = false := by
  unfold word
  simp only [bind_eq_ok_iff, satisfy_eq_ok_iff, many_iff, pure_apply, Except.ok.injEq,
    Prod.mk.injEq]
  constructor
  · rintro ⟨c, _, ⟨rfl, hc⟩, more, _, ⟨rfl, hmore, hrest⟩, rfl, rfl⟩
    exact ⟨rfl, by simp [isFieldName, hc, hmore], hrest⟩
  · rintro ⟨rfl, hw, hrest⟩
    cases w with
    | nil => simp [isFieldName] at hw
    | cons c more =>
      simp only [isFieldName, Bool.and_eq_true] at hw
      exact ⟨c, more ++ rest, ⟨rfl, hw.1⟩, more, rest, ⟨rfl, hw.2, hrest⟩, rfl, rfl⟩

theorem declines_word {text : List Char} (h : startsWith isWordStart text = false) :
    Declines word text :=
  declines_bind (declines_satisfy h)

theorem startsWith_isWordStart_of_isFieldName {w : List Char} (h : isFieldName w)
    (rest : List Char) : startsWith isWordStart (w ++ rest) := by
  cases w with
  | nil => simp [isFieldName] at h
  | cons c more =>
    simp only [isFieldName, Bool.and_eq_true] at h
    simpa using h.1

theorem solid_word {w : List Char} (h : isFieldName w) : Solid (.word w) := by
  cases w with
  | nil => simp [isFieldName] at h
  | cons c more =>
    simp only [isFieldName, Bool.and_eq_true] at h
    exact ⟨List.cons_ne_nil _ _, isSpace_eq_false rfl rfl c h.1⟩

/-! ## Keywords -/

theorem isKeyword_iff {name : String} {w : List Char} :
    isKeyword name w ↔ w ∈ [name.toList, name.toList.map Char.toLower] := by
  simp [isKeyword]

theorem isFieldName_of_isKeyword {name : String} (hname : name ∈ reservedWords) {w : List Char}
    (h : isKeyword name w) : isFieldName w := by
  have hall : ∀ a ∈ reservedWords, ∀ w ∈ [a.toList, a.toList.map Char.toLower], isFieldName w := by
    decide
  exact hall name hname w (isKeyword_iff.1 h)

/-- No word is two keywords. -/
theorem eq_of_isKeyword {name other : String} (hname : name ∈ reservedWords)
    (hother : other ∈ reservedWords) {w : List Char} (h : isKeyword name w)
    (h' : isKeyword other w) : name = other := by
  have hall : ∀ a ∈ reservedWords, ∀ b ∈ reservedWords,
      ∀ w ∈ [a.toList, a.toList.map Char.toLower], isKeyword b w → a = b := by
    decide
  exact hall name hname other hother w (isKeyword_iff.1 h) h'

theorem isReserved_of_isKeyword {name : String} (hname : name ∈ reservedWords) {w : List Char}
    (h : isKeyword name w) : isReserved w :=
  List.any_eq_true.2 ⟨name, hname, h⟩

theorem keyword_iff {name : String} (hname : name ∈ reservedWords) {text rest : List Char} :
    keyword name text = .ok ((), rest) ↔ ∃ w, isKeyword name w ∧ Spaced [.word w] text rest := by
  unfold keyword
  rw [spaces_bind]
  simp only [bind_eq_ok_iff, word_iff]
  constructor
  · rintro ⟨w, _, ⟨htext, hw, hrest⟩, h⟩
    split at h
    · rename_i hk
      cases h
      exact ⟨w, hk, (spaced_iff_of_solid (solid_word hw)).2 ⟨hrest, htext⟩⟩
    · cases h
  · rintro ⟨w, hk, h⟩
    have hw := isFieldName_of_isKeyword hname hk
    obtain ⟨hrest, htext⟩ := (spaced_iff_of_solid (solid_word hw)).1 h
    exact ⟨w, rest, ⟨htext, hw, hrest⟩, by rw [if_pos hk]; rfl⟩

/-- A keyword is refused where another keyword stands. -/
theorem declines_keyword_of_keyword {name other : String} (hname : name ∈ reservedWords)
    (hother : other ∈ reservedWords) (hne : name ≠ other) {w text rest : List Char}
    (hk : isKeyword other w) (h : Spaced [.word w] text rest) : Declines (keyword name) text := by
  have hw := isFieldName_of_isKeyword hother hk
  have hno : ¬ isKeyword name w := fun h' => hne (eq_of_isKeyword hname hother h' hk)
  obtain ⟨hrest, htext⟩ := (spaced_iff_of_solid (solid_word hw)).1 h
  unfold Declines keyword
  rw [spaces_bind]
  refine declines_bind_of_ok (a := w) (word_iff.2 ⟨htext, hw, hrest⟩) ?_
  rw [if_neg hno]
  exact declines_fail rest

theorem declines_keyword_of_no_word {name : String} {text : List Char}
    (h : startsWith isWordStart (text.dropWhile isSpace) = false) :
    Declines (keyword name) text := by
  unfold Declines keyword
  rw [spaces_bind]
  exact declines_bind (declines_word h)

/-! ## Quoted texts -/

theorem bind_front_iff {found : Except Failure (List Char × List Char)}
    {front text rest : List Char} :
    (found >>= fun result => pure (front ++ result.1, result.2)) =
        (.ok (text, rest) : Except Failure (List Char × List Char)) ↔
      ∃ more, found = .ok (more, rest) ∧ text = front ++ more := by
  rcases found with _ | ⟨more, after⟩
  · simp [bind, Except.bind]
  · simp only [bind, Except.bind, pure, Except.pure, Except.ok.injEq, Prod.mk.injEq]
    constructor
    · rintro ⟨rfl, rfl⟩
      exact ⟨more, ⟨rfl, rfl⟩, rfl⟩
    · rintro ⟨_, ⟨rfl, rfl⟩, rfl⟩
      exact ⟨rfl, rfl⟩

theorem unescape_eq_pairText (c : Char) : unescape c = pairText c := by
  have hlisted : ∀ pair ∈ escapePairs, unescape pair.1 = pairText pair.1 := by decide
  cases h : escapePairs.lookup c with
  | some meant => exact hlisted (c, meant) (mem_of_lookup h)
  | none =>
    have hother : c ≠ '"' ∧ c ≠ '\'' ∧ c ≠ '\\' ∧ c ≠ 'n' ∧ c ≠ 't' := by
      simpa [List.lookup_eq_none_iff, escapePairs] using h
    simp [unescape, pairText, h, hother]

theorem quotedBody_pair {quote c : Char} {input text rest : List Char} :
    quotedBody quote ('\\' :: c :: input) = .ok (text, rest) ↔
      ∃ more, quotedBody quote input = .ok (more, rest) ∧ text = pairText c ++ more := by
  rw [quotedBody.eq_3, unescape_eq_pairText]
  exact bind_front_iff

theorem quotedBody_cons {quote c : Char} (hslash : c ≠ '\\') (input : List Char) :
    quotedBody quote (c :: input) = if c = quote then .ok ([], input)
      else quotedBody quote input >>= fun result => pure ([c] ++ result.1, result.2) :=
  quotedBody.eq_4 _ _ _ (fun h => absurd h hslash) (fun _ _ h => absurd h hslash)

theorem quotedBody_plain {quote c : Char} {input text rest : List Char} (hslash : c ≠ '\\')
    (hc : c ≠ quote) :
    quotedBody quote (c :: input) = .ok (text, rest) ↔
      ∃ more, quotedBody quote input = .ok (more, rest) ∧ text = c :: more := by
  rw [quotedBody_cons hslash, if_neg hc]
  exact bind_front_iff

theorem quotedBody_quote {quote : Char} (hquote : quote ≠ '\\') (rest : List Char) :
    quotedBody quote (quote :: rest) = .ok ([], rest) := by
  rw [quotedBody_cons hquote, if_pos rfl]

/-- A character that is read on its own is no backslash. -/
theorem ne_slash_of_not_pair {c : Char} {rest : List Char} (hend : c = '\\' → rest = [] → False)
    (hpair : ∀ d more, c = '\\' → rest = d :: more → False) : c ≠ '\\' := by
  intro hslash
  cases rest with
  | nil => exact hend hslash rfl
  | cons d more => exact hpair d more hslash rfl

/-- A quoted text ends at its first quote that no backslash escapes. -/
theorem quotedBody_iff {quote : Char} (hquote : quote ≠ '\\') {input text rest : List Char} :
    quotedBody quote input = .ok (text, rest) ↔
      ∃ body, QuotedBody quote body text ∧ input = body ++ quote :: rest := by
  constructor
  · intro h
    induction input using quotedBody.induct quote generalizing text with
    | case1 => cases h
    | case2 => cases h
    | case3 c input ih =>
      obtain ⟨more, hmore, rfl⟩ := quotedBody_pair.1 h
      obtain ⟨body, hbody, rfl⟩ := ih hmore
      exact ⟨_, hbody.pair c, rfl⟩
    | case4 input =>
      rw [quotedBody_quote hquote] at h
      cases h
      exact ⟨[], .nil, rfl⟩
    | case5 c input hend hpair hc ih =>
      have hslash := ne_slash_of_not_pair hend hpair
      obtain ⟨more, hmore, rfl⟩ := (quotedBody_plain hslash hc).1 h
      obtain ⟨body, hbody, rfl⟩ := ih hmore
      exact ⟨_, hbody.plain hc hslash, rfl⟩
  · rintro ⟨body, hbody, rfl⟩
    induction hbody with
    | nil => exact quotedBody_quote hquote rest
    | plain hc hslash _ ih => exact (quotedBody_plain hslash hc).2 ⟨_, ih, rfl⟩
    | pair c _ ih => exact quotedBody_pair.2 ⟨_, ih, rfl⟩

theorem ne_slash_of_isQuote {quote : Char} (h : isQuote quote) : quote ≠ '\\' := by
  rintro rfl
  exact absurd h (by decide)

theorem quoted_iff {text rest : List Char} {s : String} :
    quoted text = .ok (s, rest) ↔ ∃ quote body content, isQuote quote ∧
      QuotedBody quote body content ∧ s = String.ofList content ∧
      text = (Token.quoted quote body).text ++ rest := by
  unfold quoted
  simp only [bind_eq_ok_iff, satisfy_eq_ok_iff, pure_apply, Except.ok.injEq, Prod.mk.injEq]
  constructor
  · rintro ⟨quote, _, ⟨rfl, hquote⟩, content, _, hbody, rfl, rfl⟩
    obtain ⟨body, hspelled, rfl⟩ := (quotedBody_iff (ne_slash_of_isQuote hquote)).1 hbody
    exact ⟨quote, body, content, hquote, hspelled, rfl, by simp [Token.quoted]⟩
  · rintro ⟨quote, body, content, hquote, hbody, rfl, rfl⟩
    refine ⟨quote, body ++ quote :: rest, ⟨by simp [Token.quoted], hquote⟩, content, rest, ?_, rfl,
      rfl⟩
    exact (quotedBody_iff (ne_slash_of_isQuote hquote)).2 ⟨body, hbody, rfl⟩

theorem declines_quoted {text : List Char} (h : startsWith isQuote text = false) :
    Declines quoted text :=
  declines_bind (declines_satisfy h)

theorem solid_quoted {quote : Char} (h : isQuote quote) (body : List Char) :
    Solid (.quoted quote body) := by
  refine ⟨by simp [Token.quoted], ?_⟩
  simp only [isQuote, decide_eq_true_eq] at h
  rcases h with rfl | rfl <;> rfl

end Retention.Reader
