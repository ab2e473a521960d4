import Retention.Text.Blank

/-!
# Lines

A line ends at a line feed, and a carriage return right before the line feed is part of the
line end. The last line may lack a line feed and is then kept as it is. Lines are numbered
from one.
-/

namespace Retention

def splitLines : List Char → List (List Char)
  | [] => []
  | '\n' :: rest => [] :: splitLines rest
  | '\r' :: '\n' :: rest => [] :: splitLines rest
  | c :: rest =>
    match splitLines rest with
    | [] => [[c]]
    | line :: lines => (c :: line) :: lines

theorem newline_notMem_of_mem_splitLines (text : List Char) :
    ∀ line ∈ splitLines text, '\n' ∉ line := by
  fun_induction splitLines text with
  | case1 => simp
  | case2 _ ih => simpa using ih
  | case3 _ ih => simpa using ih
  | case4 c rest hc _ h ih => simpa using fun h' => hc h'.symm
  | case5 c rest hc _ line lines h ih =>
    rw [h] at ih
    simp only [List.mem_cons, forall_eq_or_imp, not_or] at ih ⊢
    exact ⟨⟨fun h' => hc h'.symm, ih.1⟩, ih.2⟩

/-! ## Numbered lines -/

structure Line where
  number : Nat
  text : String
deriving DecidableEq

namespace Line

def chars (line : Line) : List Char := line.text.toList

def isBlank (line : Line) : Bool := isBlankText line.chars

/-- The text without the blanks at its ends. -/
def trimmed (line : Line) : List Char := trim line.chars

/-- The lines of a text, the first one numbered `start`. -/
def numbered : Nat → List (List Char) → List Line
  | _, [] => []
  | start, text :: rest => ⟨start, String.ofList text⟩ :: numbered (start + 1) rest

def ofText (text : String) : List Line := numbered 1 (splitLines text.toList)

/-- The characters of some lines, with a line feed between each two. -/
def join (lines : List Line) : List Char := ['\n'].intercalate (lines.map chars)

end Line

end Retention
