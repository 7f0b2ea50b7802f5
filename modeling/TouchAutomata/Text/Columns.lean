/-!
# Text in columns

Cells of a fixed least width, counted in characters; a cell that is too narrow for its text is
as wide as the text. A text that must not exceed a width is cut and ends in three dots.
-/

set_option autoImplicit false

namespace TouchAutomata.Text

/-- As many blanks as a text lacks to a width. -/
def blanks (width : Nat) (s : String) : String :=
  String.ofList (List.replicate (width - s.length) ' ')

/-- The text at the left of a cell. -/
def alignLeft (width : Nat) (s : String) : String := s ++ blanks width s

/-- The text at the right of a cell. -/
def alignRight (width : Nat) (s : String) : String := blanks width s ++ s

/-- The text itself if it has at most `width` characters, else its beginning and three dots. -/
def abbreviate (width : Nat) (s : String) : String :=
  if s.length > width then String.ofList (s.toList.take (width - 3)) ++ "..." else s

/-- A horizontal rule, 80 characters wide. -/
def rule (c : Char) : String := String.ofList (List.replicate 80 c)

/-- Each line followed by a line feed. -/
def lines (ls : List String) : String := String.join (ls.map (· ++ "\n"))

end TouchAutomata.Text
