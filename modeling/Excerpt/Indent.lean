import Excerpt.Lexeme
/-!
# Indentation

The depth of a line is read off the run of spaces, or of tabs, that it starts with. It is one at
the left margin, and a bare line, which holds nothing after that run, has no depth of its own.
-/
namespace Excerpt.Indent

/-- The number of levels that the leading run of a line makes up: one for each full `width` of
spaces, or one for each tab. A run of the other kind behind it counts for nothing. -/
def level (width : Nat) (line : Text) : Nat :=
  (line.takeWhile (· = ' ')).length / width + (line.takeWhile (· = '\t')).length

/-- A line without its leading run of spaces or of tabs. -/
def afterRun (line : Text) : Text :=
  if line.head? = some ' ' then line.dropWhile (· = ' ') else line.dropWhile (· = '\t')

/-- Whether only carriage returns and form feeds stand between the leading run of a line and its
end. -/
def isBare (line : Text) : Bool :=
  match (afterRun line).dropWhile Shape.isControl with
  | [] => true
  | c :: _ => c == '\n'

def depth? (width : Nat) (line : Text) : Option Nat :=
  if isBare line then none else some (1 + level width line)

end Excerpt.Indent
