import Retention.Proofs.Accounting
import Retention.Proofs.Lists
import Retention.Proofs.Policy.Draft

/-!
# The blocks that are read

Of a document only the rule block and the policy block are read. The rule set is that of the rule
block as a text of its own, with line numbers counted from the top of the document.
-/

namespace Retention

/-! ## Blocks -/

/-- Lines in a row, and how many lines of the text stand above them. -/
structure Block where
  above : Nat
  lines : List (List Char)

def isPlain (line : List Char) : Bool := (headerName? line).isNone

/-- Whether a line is a header of the given name, in any case. -/
def opensSection (name : String) (line : List Char) : Bool :=
  (headerName? line).any fun found => sameIgnoringCase found.toList name.toList

namespace Block

/-- The lines above the first header. -/
def top (lines : List (List Char)) : Block := ⟨0, lines.takeWhile isPlain⟩

/-- The lines from the first header of a name to the header after it. -/
def under? (name : String) (lines : List (List Char)) : Option Block :=
  (lines.findIdx? (opensSection name)).map fun i =>
    ⟨i + 1, (lines.drop (i + 1)).takeWhile isPlain⟩

/-- The block that the rules stand in. -/
def ofRules (lines : List (List Char)) : Block :=
  (under? Document.rulesName lines).getD (top lines)

/-- The lines as the whole text numbers them. -/
def numbered (block : Block) : List Line := Line.numbered (block.above + 1) block.lines

/-- The lines with a line feed between each two. -/
def text (block : Block) : String := String.ofList (['\n'].intercalate block.lines)

theorem under?_cons (name : String) (line : List Char) (rest : List (List Char)) :
    under? name (line :: rest) =
      if opensSection name line then some ⟨1, rest.takeWhile isPlain⟩
      else (under? name rest).map fun block => ⟨block.above + 1, block.lines⟩ := by
  unfold under?
  rw [List.findIdx?_cons]
  split
  · rfl
  · simp [Function.comp_def]

theorem newline_notMem_ofRules (text : List Char) :
    ∀ line ∈ (ofRules (splitLines text)).lines, '\n' ∉ line := by
  intro line hline
  apply newline_notMem_of_mem_splitLines text
  unfold ofRules under? top at hline
  cases hfind : (splitLines text).findIdx? (opensSection Document.rulesName) with
  | none =>
    rw [hfind] at hline
    exact (List.takeWhile_sublist _).subset hline
  | some i =>
    rw [hfind] at hline
    exact List.mem_of_mem_drop ((List.takeWhile_sublist _).subset hline)

end Block

/-- The policy of a block, the standard policy if there is none. -/
def Policy.ofBlock : Option Block → Policy
  | some block => .ofLines block.numbered
  | none => .standard

/-! ## The blocks of a document -/

namespace Document

theorem header?_mk (number : Nat) (text : List Char) :
    (Line.mk number (String.ofList text)).header? = headerName? text := by
  simp [Line.header?, Line.chars]

theorem preamble_numbered (start : Nat) (texts : List (List Char)) :
    (ofLines (Line.numbered start texts)).preamble =
      Line.numbered start (texts.takeWhile isPlain) := by
  induction texts generalizing start with
  | nil => rfl
  | cons text rest ih =>
    unfold Line.numbered
    cases h : headerName? text with
    | some name =>
      rw [ofLines_cons_of_header ((header?_mk start text).trans h)]
      simp [isPlain, h]
    | none =>
      rw [ofLines_cons_of_no_header ((header?_mk start text).trans h), ih]
      simp [isPlain, h]

theorem section?_numbered (name : String) (start : Nat) (texts : List (List Char)) :
    ((ofLines (Line.numbered start texts)).section? name).map Section.lines =
      (Block.under? name texts).map fun block =>
        Line.numbered (start + block.above) block.lines := by
  induction texts generalizing start with
  | nil => rfl
  | cons text rest ih =>
    have ih := ih (start + 1)
    unfold section? at ih ⊢
    rw [Line.numbered, Block.under?_cons]
    cases h : headerName? text with
    | some found =>
      rw [ofLines_cons_of_header ((header?_mk start text).trans h), preamble_numbered]
      simp only [List.find?_cons, opensSection, h, Option.any_some]
      cases hsame : sameIgnoringCase found.toList name.toList with
      | true => simp
      | false => simp [ih, Nat.add_assoc, Nat.add_comm 1, Function.comp_def]
    | none =>
      rw [ofLines_cons_of_no_header ((header?_mk start text).trans h)]
      simp only [opensSection, h, Option.any_none]
      simp [ih, Nat.add_assoc, Nat.add_comm 1, Function.comp_def]

theorem lines_section? (name text : String) :
    ((parse text).section? name).map Section.lines =
      (Block.under? name (splitLines text.toList)).map Block.numbered := by
  unfold parse Line.ofText
  rw [section?_numbered]
  refine congrArg (fun f => Option.map f _) (funext fun block => ?_)
  rw [Block.numbered, Nat.add_comm]

end Document

/-! ## The policy block -/

theorem policy_parse_eq_ofBlock (text : String) : Policy.parse text =
    .ofBlock (Block.under? Document.policyName (splitLines text.toList)) := by
  have hlines := Document.lines_section? Document.policyName text
  unfold Policy.parse Document.policyLines Document.policyBlock?
  cases hfound : (Document.parse text).section? Document.policyName with
  | none =>
    rw [hfound, Option.map_none, eq_comm, Option.map_eq_none_iff] at hlines
    rw [hlines]
    exact policy_ofLines_nil
  | some found =>
    rw [hfound, Option.map_some, eq_comm, Option.map_eq_some_iff] at hlines
    obtain ⟨block, hblock, hnumbered⟩ := hlines
    rw [hblock]
    exact congrArg Policy.ofLines hnumbered.symm

/-- What a policy block says does not depend on where it stands. -/
theorem readLines_numbered (start : Nat) (texts : List (List Char)) :
    PolicyEntry.readLines (Line.numbered start texts) =
      texts.filterMap fun text => PolicyEntry.readLine? ⟨0, String.ofList text⟩ := by
  induction texts generalizing start with
  | nil => rfl
  | cons text rest ih =>
    unfold PolicyEntry.readLines at ih ⊢
    rw [Line.numbered, List.filterMap_cons, List.filterMap_cons, ih]
    rfl

theorem ofBlock_congr {a b : Option Block} (h : a.map Block.lines = b.map Block.lines) :
    Policy.ofBlock a = Policy.ofBlock b := by
  cases a with
  | none => cases b with
    | none => rfl
    | some b => cases h
  | some a => cases b with
    | none => cases h
    | some b =>
      rw [Option.map_some, Option.map_some, Option.some.injEq] at h
      unfold Policy.ofBlock Policy.ofLines Block.numbered
      simp only [readLines_numbered, h]

/-! ## The rule block -/

theorem readRuleLine?_of_blank {line : Line} (h : line.isBlank) : readRuleLine? line = none := by
  unfold readRuleLine?
  rw [if_pos]
  exact .inl ((trim_eq_nil_iff line.chars).2 h)

theorem readRuleLines_of_blank {lines : List Line} (h : lines.all Line.isBlank) :
    readRuleLines lines = [] := by
  unfold readRuleLines
  rw [List.filterMap_eq_nil_iff]
  intro line hline
  exact readRuleLine?_of_blank (List.all_eq_true.1 h line hline)

/-- The lines of the rule block are read. Where no rule block is found they are blank, and they are
left out. -/
theorem ruleLines_eq_or (text : String) :
    let block := Block.ofRules (splitLines text.toList)
    (Document.parse text).ruleLines = block.numbered ∨
      (Document.parse text).ruleLines = [] ∧ block.numbered.all Line.isBlank := by
  intro block
  have hlines := Document.lines_section? Document.rulesName text
  unfold Document.ruleLines Document.ruleBlock?
  cases hfound : (Document.parse text).section? Document.rulesName with
  | some found =>
    rw [hfound, Option.map_some, eq_comm, Option.map_eq_some_iff] at hlines
    obtain ⟨under, hunder, hnumbered⟩ := hlines
    have hblock : block = under := by
      simp [block, Block.ofRules, hunder]
    rw [hblock, hnumbered]
    exact .inl rfl
  | none =>
    rw [hfound, Option.map_none, eq_comm, Option.map_eq_none_iff] at hlines
    have hblock : block = Block.top (splitLines text.toList) := by
      simp [block, Block.ofRules, hlines]
    have htop : (Document.parse text).preamble = block.numbered := by
      rw [hblock]
      exact Document.preamble_numbered 1 _
    rw [← htop]
    by_cases hblank : (Document.parse text).hasHeaders ∧
        (Document.parse text).preamble.all Line.isBlank
    · rw [if_pos hblank]
      exact .inr ⟨rfl, hblank.2⟩
    · rw [if_neg hblank]
      exact .inl rfl

theorem readRuleLines_ruleLines (text : String) : readRuleLines (Document.parse text).ruleLines =
    readRuleLines (Block.ofRules (splitLines text.toList)).numbered := by
  rcases ruleLines_eq_or text with h | ⟨h, hblank⟩
  · rw [h]
  · rw [h, readRuleLines_of_blank hblank]
    rfl

/-! ## A block as a text of its own -/

theorem readRuleLine?_congr {number : Nat} {a b : List Char} (h : trim a = trim b) :
    readRuleLine? ⟨number, String.ofList a⟩ = readRuleLine? ⟨number, String.ofList b⟩ := by
  unfold readRuleLine? Line.trimmed Line.chars
  simp only [String.toList_ofList, h]

theorem readRuleLines_cons (line : Line) (rest : List Line) :
    readRuleLines (line :: rest) = (readRuleLine? line).toList ++ readRuleLines rest := by
  unfold readRuleLines
  rw [List.filterMap_cons]
  cases readRuleLine? line <;> rfl

/-- Lines that are joined and split again may lose a carriage return at their ends and an empty
last line, which does not matter to a reader that trims and leaves out blank lines. -/
theorem filterMap_splitLines_join {α : Type} {read : Line → Option α}
    (hblank : ∀ number, read ⟨number, ""⟩ = none)
    (htrim : ∀ number a b, trim a = trim b →
      read ⟨number, String.ofList a⟩ = read ⟨number, String.ofList b⟩)
    {lines : List (List Char)} (h : ∀ line ∈ lines, '\n' ∉ line) (start : Nat) :
    (Line.numbered start (splitLines (['\n'].intercalate lines))).filterMap read =
      (Line.numbered start lines).filterMap read := by
  induction lines generalizing start with
  | nil => rfl
  | cons line rest ih =>
    rw [List.forall_mem_cons] at h
    cases rest with
    | nil =>
      rw [List.intercalate_singleton]
      by_cases hnil : line = []
      · -- The empty last line is lost, and nothing was read from it.
        rw [hnil, splitLines, Line.numbered, Line.numbered, Line.numbered, List.filterMap_nil,
          List.filterMap_cons_none (hblank start), List.filterMap_nil]
      · rw [splitLines_of_newline_notMem hnil h.1]
    | cons next rest =>
      rw [join_cons_cons, splitLines_append_feed h.1, Line.numbered, Line.numbered,
        List.filterMap_cons, List.filterMap_cons, ih h.2, htrim start _ _ (trim_withoutReturn line)]

theorem exists_mem_of_mem_splitLines_join {lines : List (List Char)}
    (h : ∀ line ∈ lines, '\n' ∉ line) {line : List Char}
    (hline : line ∈ splitLines (['\n'].intercalate lines)) :
    ∃ other ∈ lines, trim line = trim other := by
  induction lines with
  | nil => cases hline
  | cons first rest ih =>
    rw [List.forall_mem_cons] at h
    cases rest with
    | nil =>
      rw [List.intercalate_singleton] at hline
      by_cases hnil : first = []
      · rw [hnil] at hline
        cases hline
      · rw [splitLines_of_newline_notMem hnil h.1, List.mem_singleton] at hline
        exact ⟨first, List.mem_cons_self, by rw [hline]⟩
    | cons next rest =>
      rw [join_cons_cons, splitLines_append_feed h.1, List.mem_cons] at hline
      rcases hline with rfl | hline
      · exact ⟨first, List.mem_cons_self, trim_withoutReturn first⟩
      · obtain ⟨other, hother, htrim⟩ := ih h.2 hline
        exact ⟨other, List.mem_cons_of_mem first hother, htrim⟩

theorem readRuleLines_splitLines_join {lines : List (List Char)}
    (h : ∀ line ∈ lines, '\n' ∉ line) (start : Nat) :
    readRuleLines (Line.numbered start (splitLines (['\n'].intercalate lines))) =
      readRuleLines (Line.numbered start lines) := by
  unfold readRuleLines
  refine filterMap_splitLines_join (fun _ => rfl) ?_ h start
  exact fun _ _ _ => readRuleLine?_congr

/-! ## Lines counted from further up -/

def PlacedRule.shift (n : Nat) (placed : PlacedRule) : PlacedRule :=
  { placed with line := placed.line + n }

def Entry.shift (n : Nat) : Entry → Entry
  | .rule placed => .rule (placed.shift n)
  | .malformed bad => .malformed { bad with line := bad.line + n }

def DiagnosticKind.shift (n : Nat) : DiagnosticKind → DiagnosticKind
  | .skipped reason => .skipped reason
  | .unreachable fallbackLine => .unreachable (fallbackLine + n)

def Diagnostic.shift (n : Nat) (diagnostic : Diagnostic) : Diagnostic :=
  { diagnostic with line := diagnostic.line + n, kind := diagnostic.kind.shift n }

def Verdict.shift (n : Nat) : Verdict → Verdict
  | .runs placed => .runs (placed.shift n)
  | .noted diagnostic => .noted (diagnostic.shift n)

/-- The rule set with every line number greater by `n`. -/
def RuleSet.shift (n : Nat) (set : RuleSet) : RuleSet where
  rules := set.rules.map (PlacedRule.shift n)
  policy := set.policy
  diagnostics := set.diagnostics.map (Diagnostic.shift n)

theorem shift_shift (m n : Nat) (set : RuleSet) :
    (set.shift m).shift n = set.shift (m + n) := by
  have hkind : ∀ kind : DiagnosticKind, (kind.shift m).shift n = kind.shift (m + n) := by
    intro kind
    cases kind <;> simp [DiagnosticKind.shift, Nat.add_assoc]
  simp [RuleSet.shift, PlacedRule.shift, Diagnostic.shift, Function.comp_def, hkind, Nat.add_assoc]

theorem readRuleLine?_shift (n number : Nat) (text : String) :
    readRuleLine? ⟨number + n, text⟩ = (readRuleLine? ⟨number, text⟩).map (Entry.shift n) := by
  have htrimmed : (Line.mk (number + n) text).trimmed = (Line.mk number text).trimmed := rfl
  unfold readRuleLine?
  rw [htrimmed]
  split
  · rfl
  · unfold readRuleText
    simp only [Option.map_some, Option.some.injEq]
    split <;> rfl

theorem readRuleLines_shift (n start : Nat) (texts : List (List Char)) :
    readRuleLines (Line.numbered (start + n) texts) =
      (readRuleLines (Line.numbered start texts)).map (Entry.shift n) := by
  induction texts generalizing start with
  | nil => rfl
  | cons text rest ih =>
    have ih := ih (start + 1)
    rw [Nat.add_right_comm] at ih
    rw [Line.numbered, Line.numbered, readRuleLines_cons, readRuleLines_cons, ih,
      readRuleLine?_shift, List.map_append]
    cases readRuleLine? ⟨start, String.ofList text⟩ <;> rfl

theorem verdict_shift (policy : Policy) (n : Nat) (above : Option Nat) (entry : Entry) :
    verdict policy (above.map (· + n)) (entry.shift n) = (verdict policy above entry).shift n := by
  cases entry with
  | malformed bad => rfl
  | rule placed =>
    have hlabel : (placed.shift n).label = placed.label := rfl
    unfold Entry.shift verdict
    simp only [hlabel]
    split
    · cases above <;> rfl
    · rfl

theorem returnLine?_shift (policy : Policy) (n : Nat) (entry : Entry) :
    (entry.shift n).returnLine? policy = (entry.returnLine? policy).map (· + n) := by
  cases entry with
  | malformed bad => rfl
  | rule placed =>
    have hlabel : (placed.shift n).label = placed.label := rfl
    have hfallback : (placed.shift n).isFallback = placed.isFallback := rfl
    unfold Entry.shift Entry.returnLine?
    simp only [hlabel, hfallback]
    split <;> rfl

theorem verdicts_shift (policy : Policy) (n : Nat) (above : Option Nat) (entries : List Entry) :
    verdicts policy (above.map (· + n)) (entries.map (Entry.shift n)) =
      (verdicts policy above entries).map (Verdict.shift n) := by
  induction entries generalizing above with
  | nil => rfl
  | cons entry rest ih =>
    rw [List.map_cons, verdicts_cons, verdicts_cons, List.map_cons, verdict_shift,
      returnLine?_shift, ← Option.map_or, ih]

theorem ofVerdicts_shift (policy : Policy) (n : Nat) (found : List Verdict) :
    RuleSet.ofVerdicts policy (found.map (Verdict.shift n)) =
      (RuleSet.ofVerdicts policy found).shift n := by
  induction found with
  | nil => rfl
  | cons v rest ih =>
    cases v with
    | runs placed => simp [Verdict.shift, ih, RuleSet.shift]
    | noted diagnostic => simp [Verdict.shift, ih, RuleSet.shift]

/-- Entries further down give the same rules and diagnostics further down. -/
theorem ofEntries_shift (policy : Policy) (n : Nat) (entries : List Entry) :
    RuleSet.ofEntries policy (entries.map (Entry.shift n)) =
      (RuleSet.ofEntries policy entries).shift n := by
  unfold RuleSet.ofEntries
  have h := verdicts_shift policy n none entries
  rw [Option.map_none] at h
  rw [h, ofVerdicts_shift]

/-! ## Documents -/

theorem entries_ofDocument (text : String) : Entry.ofDocument (Document.parse text) =
    (Entry.ofRuleText (Block.ofRules (splitLines text.toList)).text).map
      (Entry.shift (Block.ofRules (splitLines text.toList)).above) := by
  have hjoin := readRuleLines_splitLines_join (Block.newline_notMem_ofRules text.toList) 1
  unfold Entry.ofDocument Entry.ofRuleText Line.ofText Block.text
  rw [readRuleLines_ruleLines, String.toList_ofList, hjoin, ← readRuleLines_shift, Block.numbered,
    Nat.add_comm]

theorem compile_eq_shift (text : String) : RuleSet.compile text =
    (RuleSet.ofRuleText (Block.ofRules (splitLines text.toList)).text
      (.ofBlock (Block.under? Document.policyName (splitLines text.toList)))).shift
        (Block.ofRules (splitLines text.toList)).above := by
  unfold RuleSet.ofRuleText
  rw [← ofEntries_shift, ← entries_ofDocument, ← policy_parse_eq_ofBlock]
  rfl

/-- A document has the rule set of its rule block under the policy of its policy block, with lines
counted from the top of the document. Documents with the same two blocks have the same rule set up
to the lines above the rule block. -/
theorem compile_eq_shift_ofRuleText (text : String) :
    let lines := splitLines text.toList
    RuleSet.compile text = (RuleSet.ofRuleText (Block.ofRules lines).text
      (.ofBlock (Block.under? Document.policyName lines))).shift (Block.ofRules lines).above ∧
    ∀ other : String, let others := splitLines other.toList
      (Block.ofRules others).lines = (Block.ofRules lines).lines →
      (Block.under? Document.policyName others).map Block.lines =
        (Block.under? Document.policyName lines).map Block.lines →
      (RuleSet.compile other).shift (Block.ofRules lines).above =
        (RuleSet.compile text).shift (Block.ofRules others).above := by
  intro lines
  refine ⟨compile_eq_shift text, fun other => ?_⟩
  intro others hrules hpolicy
  have htext : (Block.ofRules others).text = (Block.ofRules lines).text :=
    congrArg (fun block => String.ofList (['\n'].intercalate block)) hrules
  rw [compile_eq_shift other, compile_eq_shift text, shift_shift, shift_shift, Nat.add_comm,
    ofBlock_congr hpolicy, htext]

/-- The longer document has rules above its rule block, in a section of another name, and in a
second rule block. -/
theorem compile_eq_shift_ofRuleText_of_two_documents :
    let text := "[RULES]\nRETURN BIG"
    let other := "RETURN SMALL\n[NOTES]\nRETURN SMALL\n" ++
      "[rules]\r\nRETURN BIG\r\n[RULES]\nRETURN SMALL"
    let lines := splitLines text.toList
    let others := splitLines other.toList
    (Block.ofRules others).lines = (Block.ofRules lines).lines ∧
      (Block.under? Document.policyName others).map Block.lines =
        (Block.under? Document.policyName lines).map Block.lines ∧
      RuleSet.compile text = (RuleSet.ofRuleText (Block.ofRules lines).text
        (.ofBlock (Block.under? Document.policyName lines))).shift 1 ∧
      (RuleSet.compile other).shift 1 = (RuleSet.compile text).shift 4 := by
  intro text other lines others
  have habove : (Block.ofRules lines).above = 1 := by decide
  have habove' : (Block.ofRules others).above = 4 := by decide
  have hrules : (Block.ofRules others).lines = (Block.ofRules lines).lines := by decide
  have hpolicy : (Block.under? Document.policyName others).map Block.lines =
      (Block.under? Document.policyName lines).map Block.lines := by decide
  obtain ⟨hself, hothers⟩ := compile_eq_shift_ofRuleText text
  rw [← habove, ← habove']
  exact ⟨hrules, hpolicy, hself, hothers other hrules hpolicy⟩

end Retention
