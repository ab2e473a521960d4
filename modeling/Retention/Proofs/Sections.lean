import Mathlib.Data.List.Nodup
import Retention.Proofs.Lines
import Retention.Proofs.Lists

/-!
# How a text is divided

A document has the lines of its text in their order: the preamble, and then each header line with
its section below it. No line is lost, and each stands in the block that the nearest header above
it opens.
-/

namespace Retention

/-! ## Header lines -/

def Line.isHeader (line : Line) : Bool := line.header?.isSome

def headerLines (lines : List Line) : List Line := lines.filter Line.isHeader

/-- The nearest header line above a line. -/
def opener? (lines : List Line) (line : Line) : Option Line :=
  (lines.filter fun above => above.isHeader && above.number < line.number).getLast?

/-! ## Lines of a text -/

namespace Line

theorem map_chars_numbered (start : Nat) (texts : List (List Char)) :
    (numbered start texts).map chars = texts := by
  induction texts generalizing start with
  | nil => rfl
  | cons text rest ih => rw [numbered, List.map_cons, ih, chars, String.toList_ofList]

theorem map_number_numbered (start : Nat) (texts : List (List Char)) :
    (numbered start texts).map number = List.range' start (numbered start texts).length := by
  induction texts generalizing start with
  | nil => rfl
  | cons text rest ih => rw [numbered, List.map_cons, ih, List.length_cons, List.range'_succ]

end Line

namespace Document

/-- The lines of the preamble and of each section. -/
def blocks (document : Document) : List (List Line) :=
  document.preamble :: document.sections.map Section.lines

/-- Each section with the header line that opens it. -/
def opened (document : Document) (lines : List Line) : List (Line × Section) :=
  (headerLines lines).zip document.sections

/-- The document is made of the lines, divided at the header lines. -/
structure Divides (document : Document) (lines : List Line) : Prop where
  named : List.Forall₂ (fun header found => header.header? = some found.name) (headerLines lines)
    document.sections
  ordered : lines = document.preamble ++
    (document.opened lines).flatMap fun below => below.1 :: below.2.lines
  plain : ∀ block ∈ document.blocks, ∀ line ∈ block, line.isHeader = false

theorem divides_ofLines (lines : List Line) : (ofLines lines).Divides lines := by
  induction lines with
  | nil => exact ⟨.nil, rfl, by simp [blocks, ofLines]⟩
  | cons line rest ih =>
    obtain ⟨hnamed, hordered, hplain⟩ := ih
    unfold blocks at hplain
    rw [List.forall_mem_cons] at hplain
    cases h : line.header? with
    | some name =>
      have hheader : line.isHeader = true := by rw [Line.isHeader, h]; rfl
      have hlines : headerLines (line :: rest) = line :: headerLines rest :=
        List.filter_cons_of_pos hheader
      rw [ofLines_cons_of_header h]
      refine ⟨?_, ?_, ?_⟩
      · rw [hlines]
        exact .cons h hnamed
      · unfold opened at hordered ⊢
        rw [hlines, List.zip_cons_cons, List.flatMap_cons, List.nil_append, List.cons_append,
          ← hordered]
      · simpa [blocks] using hplain
    | none =>
      have hheader : line.isHeader = false := by rw [Line.isHeader, h]; rfl
      have hlines : headerLines (line :: rest) = headerLines rest :=
        List.filter_cons_of_neg (by simp [hheader])
      rw [ofLines_cons_of_no_header h]
      refine ⟨?_, ?_, ?_⟩
      · rw [hlines]
        exact hnamed
      · unfold opened at hordered ⊢
        rw [hlines, List.cons_append, ← hordered]
      · unfold blocks
        rw [List.forall_mem_cons, List.forall_mem_cons]
        exact ⟨⟨hheader, hplain.1⟩, hplain.2⟩

namespace Divides

variable {document : Document} {lines : List Line}

theorem length_sections (h : document.Divides lines) :
    (headerLines lines).length = document.sections.length :=
  h.named.length_eq

theorem map_fst_opened (h : document.Divides lines) :
    (document.opened lines).map Prod.fst = headerLines lines :=
  List.map_fst_zip (Nat.le_of_eq h.length_sections)

theorem map_snd_opened (h : document.Divides lines) :
    (document.opened lines).map Prod.snd = document.sections :=
  List.map_snd_zip (Nat.le_of_eq h.length_sections.symm)

theorem fst_mem_headerLines (h : document.Divides lines) {below : Line × Section}
    (hbelow : below ∈ document.opened lines) : below.1 ∈ headerLines lines := by
  rw [← h.map_fst_opened]
  exact List.mem_map_of_mem hbelow

theorem plain_of_mem_opened (h : document.Divides lines) {below : Line × Section}
    (hbelow : below ∈ document.opened lines) : ∀ line ∈ below.2.lines, line.isHeader = false := by
  have hmem : below.2 ∈ document.sections := by
    rw [← h.map_snd_opened]
    exact List.mem_map_of_mem hbelow
  exact h.plain _ (List.mem_cons_of_mem _ (List.mem_map_of_mem hmem))

/-- A header line stands right above its section. -/
theorem exists_split_of_mem_opened (h : document.Divides lines) {below : Line × Section}
    (hbelow : below ∈ document.opened lines) :
    ∃ before after, lines = before ++ below.1 :: (below.2.lines ++ after) := by
  obtain ⟨front, back, hsplit⟩ := List.append_of_mem hbelow
  have hordered := h.ordered
  rw [hsplit, List.flatMap_append, List.flatMap_cons, List.cons_append, ← List.append_assoc]
    at hordered
  exact ⟨_, _, hordered⟩

/-- The lines that are no headers are those of the blocks, each once and in order. -/
theorem flatten_blocks (h : document.Divides lines) :
    document.blocks.flatten = lines.filter (!·.isHeader) := by
  have hpreamble : document.preamble.filter (!·.isHeader) = document.preamble := by
    rw [List.filter_eq_self]
    intro line hline
    simp [h.plain _ List.mem_cons_self line hline]
  have hsection : ∀ below ∈ document.opened lines,
      (below.1 :: below.2.lines).filter (!·.isHeader) = below.2.lines := by
    intro below hbelow
    have hheader := (List.mem_filter.1 (h.fst_mem_headerLines hbelow)).2
    have hplain : below.2.lines.filter (!·.isHeader) = below.2.lines := by
      rw [List.filter_eq_self]
      intro line hline
      simp [h.plain_of_mem_opened hbelow line hline]
    simp [hheader, hplain]
  rw [h.ordered, List.filter_append, List.filter_flatMap, hpreamble,
    List.flatMap_congr hsection, blocks, List.flatten_cons, ← h.map_snd_opened, List.map_map]
  rfl

/-! ## The block of a line -/

/-- A line with a greater number is not above. -/
theorem filter_above_eq_nil {line : Line} {others : List Line}
    (h : ∀ other ∈ others, other.isHeader = true → line.number ≤ other.number) :
    others.filter (fun above => above.isHeader && above.number < line.number) = [] := by
  rw [List.filter_eq_nil_iff]
  intro other hother hup
  rw [Bool.and_eq_true, decide_eq_true_eq] at hup
  have hle := h other hother hup.1
  omega

theorem opener?_of_mem_preamble (h : document.Divides lines)
    (hsorted : lines.Pairwise fun a b => a.number < b.number) {line : Line}
    (hline : line ∈ document.preamble) : opener? lines line = none := by
  have hordered := h.ordered
  rw [opener?, List.getLast?_eq_none_iff]
  refine filter_above_eq_nil fun other hother hheader => ?_
  rw [hordered] at hsorted hother
  rcases List.mem_append.1 hother with hother | hother
  · rw [h.plain _ List.mem_cons_self other hother] at hheader
    cases hheader
  · exact Nat.le_of_lt ((List.pairwise_append.1 hsorted).2.2 line hline other hother)

theorem opener?_of_mem_section (h : document.Divides lines)
    (hsorted : lines.Pairwise fun a b => a.number < b.number) {below : Line × Section}
    (hbelow : below ∈ document.opened lines) {line : Line} (hline : line ∈ below.2.lines) :
    opener? lines line = some below.1 := by
  obtain ⟨before, after, hsplit⟩ := h.exists_split_of_mem_opened hbelow
  have hheader := (List.mem_filter.1 (h.fst_mem_headerLines hbelow)).2
  rw [hsplit, List.pairwise_append, List.pairwise_cons, List.pairwise_append] at hsorted
  obtain ⟨-, ⟨hfirst, -, -, hbehind⟩, -⟩ := hsorted
  have hup : below.1.number < line.number := hfirst line (List.mem_append_left after hline)
  -- Between the header and the line stand no headers, and what follows has greater numbers.
  have hrest : (below.2.lines ++ after).filter
      (fun above => above.isHeader && above.number < line.number) = [] := by
    refine filter_above_eq_nil fun other hother hother' => ?_
    rcases List.mem_append.1 hother with hother | hother
    · rw [h.plain_of_mem_opened hbelow other hother] at hother'
      cases hother'
    · exact Nat.le_of_lt (hbehind line hline other hother)
  rw [opener?, hsplit, List.filter_append, List.filter_cons_of_pos (by simp [hheader, hup]), hrest,
    List.getLast?_concat]

theorem exists_block_of_mem (h : document.Divides lines) {line : Line} (hline : line ∈ lines)
    (hplain : line.isHeader = false) :
    line ∈ document.preamble ∨ ∃ below ∈ document.opened lines, line ∈ below.2.lines := by
  have hmem : line ∈ document.blocks.flatten := by
    rw [h.flatten_blocks]
    simp [hline, hplain]
  rw [blocks, List.flatten_cons, List.mem_append] at hmem
  rcases hmem with hmem | hmem
  · exact .inl hmem
  · rw [← h.map_snd_opened, List.map_map, List.mem_flatten] at hmem
    obtain ⟨block, hblock, hmem⟩ := hmem
    obtain ⟨below, hbelow, rfl⟩ := List.mem_map.1 hblock
    exact .inr ⟨below, hbelow, hmem⟩

/-- Where numbers grow, no two sections have one header line. -/
theorem eq_of_fst_eq (h : document.Divides lines)
    (hsorted : lines.Pairwise fun a b => a.number < b.number) {below other : Line × Section}
    (hbelow : below ∈ document.opened lines) (hother : other ∈ document.opened lines)
    (hfst : below.1 = other.1) : below = other := by
  have hnodup : ((document.opened lines).map Prod.fst).Nodup := by
    rw [h.map_fst_opened]
    refine (hsorted.imp fun {a b} hlt => ?_).filter _
    rintro rfl
    exact Nat.lt_irrefl _ hlt
  exact List.inj_on_of_nodup_map hnodup hbelow hother hfst

theorem mem_block_iff (h : document.Divides lines)
    (hsorted : lines.Pairwise fun a b => a.number < b.number) {line : Line} (hline : line ∈ lines)
    (hplain : line.isHeader = false) :
    (line ∈ document.preamble ↔ opener? lines line = none) ∧
      ∀ below ∈ document.opened lines,
        (line ∈ below.2.lines ↔ opener? lines line = some below.1) := by
  have hblock := h.exists_block_of_mem hline hplain
  refine ⟨⟨h.opener?_of_mem_preamble hsorted, fun hopener => ?_⟩, fun below hbelow =>
    ⟨h.opener?_of_mem_section hsorted hbelow, fun hopener => ?_⟩⟩
  · rcases hblock with hblock | ⟨below, hbelow, hblock⟩
    · exact hblock
    · rw [h.opener?_of_mem_section hsorted hbelow hblock] at hopener
      cases hopener
  · rcases hblock with hblock | ⟨other, hother, hblock⟩
    · rw [h.opener?_of_mem_preamble hsorted hblock] at hopener
      cases hopener
    · rw [h.opener?_of_mem_section hsorted hother hblock, Option.some.injEq] at hopener
      rw [← h.eq_of_fst_eq hsorted hother hbelow hopener]
      exact hblock

/-! ## The numbers of a block -/

theorem map_number_preamble (h : document.Divides lines)
    (hnumbers : lines.map Line.number = List.range' 1 lines.length) :
    document.preamble.map Line.number = List.range' 1 document.preamble.length := by
  have hordered := congrArg (List.map Line.number) h.ordered
  rw [hnumbers, List.map_append] at hordered
  simpa using (eq_range'_of_append hordered).1

theorem map_number_section (h : document.Divides lines)
    (hnumbers : lines.map Line.number = List.range' 1 lines.length) {below : Line × Section}
    (hbelow : below ∈ document.opened lines) :
    below.2.lines.map Line.number =
      List.range' (below.1.number + 1) below.2.lines.length := by
  obtain ⟨before, after, hsplit⟩ := h.exists_split_of_mem_opened hbelow
  have hordered := congrArg (List.map Line.number) hsplit
  rw [hnumbers, List.map_append, List.map_cons, List.map_append] at hordered
  have hbehind := (eq_range'_of_append hordered).2
  rw [List.length_cons, List.range'_succ, List.cons.injEq] at hbehind
  obtain ⟨hheader, hbehind⟩ := hbehind
  rw [← hheader, eq_comm] at hbehind
  simpa using (eq_range'_of_append hbehind).1

end Divides

/-! ## Sections by name -/

theorem section?_eq_some_iff {document : Document} {name : String} {found : Section} :
    document.section? name = some found ↔
      sameIgnoringCase found.name.toList name.toList = true ∧
        ∃ before after, document.sections = before ++ found :: after ∧
          ∀ other ∈ before, sameIgnoringCase other.name.toList name.toList = false := by
  rw [section?, List.find?_eq_some_iff_append]
  simp only [Bool.not_eq_true']

/-! ## The document of a text -/

/-- A document has the lines of its text, numbered from one and unchanged. Each line that is no
header stands in one block: in the section of the nearest header above it, or in the preamble if
there is none. The sections follow one another as their headers do, with the header lines between
them, and the first one of a name is the one found by that name. -/
theorem parse_divides (text : String) :
    let lines := Line.ofText text
    let document := parse text
    lines.map Line.chars = splitLines text.toList ∧
      lines.map Line.number = List.range' 1 lines.length ∧
      document.Divides lines ∧
      document.blocks.flatten = lines.filter (!·.isHeader) ∧
      (∀ line ∈ lines, line.isHeader = false →
        (line ∈ document.preamble ↔ opener? lines line = none) ∧
          ∀ below ∈ document.opened lines,
            (line ∈ below.2.lines ↔ opener? lines line = some below.1)) ∧
      document.preamble.map Line.number = List.range' 1 document.preamble.length ∧
      (∀ below ∈ document.opened lines, below.2.lines.map Line.number =
        List.range' (below.1.number + 1) below.2.lines.length) ∧
      ∀ name found, document.section? name = some found ↔
        sameIgnoringCase found.name.toList name.toList = true ∧
          ∃ before after, document.sections = before ++ found :: after ∧
            ∀ other ∈ before, sameIgnoringCase other.name.toList name.toList = false := by
  intro lines document
  have hdivides : document.Divides lines := divides_ofLines lines
  have hsorted := Line.ofText_pairwise text
  have hnumbers : lines.map Line.number = List.range' 1 lines.length := Line.map_number_numbered 1 _
  exact ⟨Line.map_chars_numbered 1 _, hnumbers, hdivides, hdivides.flatten_blocks,
    fun line hline hplain => hdivides.mem_block_iff hsorted hline hplain,
    hdivides.map_number_preamble hnumbers,
    fun below hbelow => hdivides.map_number_section hnumbers hbelow,
    fun name found => section?_eq_some_iff⟩

end Document

end Retention
