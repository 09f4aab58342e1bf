import Excerpt.Keywords
/-!
# Lexemes

A text is cut into lexemes, whose first character decides their shape: runs of spaces or of tabs,
words, comments, string literals and single characters. Every character belongs to one lexeme
(`flatten_scan`) and no lexeme reaches past the newline of its line.
-/
namespace Excerpt

/-- The shape of a lexeme. -/
inductive Shape where
  | spaces
  | tabs
  | control
  | newline
  | colon
  | openParen
  | closeParen
  | atSign
  | word
  | comment
  | string
  | other
  deriving DecidableEq, Repr

namespace Shape

/-- The characters other than spaces and tabs that separate lexemes without being one to report:
carriage return and form feed. -/
def isControl (c : Char) : Bool := c == '\r' || c == '\x0c'

/-- The characters that start a word: ASCII letters and the underscore. -/
def startsWord (c : Char) : Bool := c.isAlpha || c == '_'

def continuesWord (c : Char) : Bool := c.isAlphanum || c == '_'

def ofChar (c : Char) : Shape :=
  if c = ' ' then .spaces
  else if c = '\t' then .tabs
  else if isControl c then .control
  else if c = '\n' then .newline
  else if c = ':' then .colon
  else if c = '(' then .openParen
  else if c = ')' then .closeParen
  else if c = '@' then .atSign
  else if startsWord c then .word
  else if c = '#' then .comment
  else if c = '"' ∨ c = '\'' then .string
  else .other

end Shape

/-- A piece of text with its shape. -/
structure Lexeme where
  shape : Shape
  text : Text
  deriving DecidableEq, Repr

namespace Lexeme

/-- Cuts a text after the quote that closes a string literal. A backslash takes the next character
of the line with it; without a closing quote the literal ends with its line. -/
def splitString (quote : Char) : Text → Text × Text
  | [] => ([], [])
  | '\\' :: c :: rest =>
    if c = '\n' then (['\\'], c :: rest)
    else ('\\' :: c :: (splitString quote rest).1, (splitString quote rest).2)
  | c :: rest =>
    if c = '\n' then ([], c :: rest)
    else if c = quote then ([c], rest)
    else (c :: (splitString quote rest).1, (splitString quote rest).2)

/-- Cuts what follows the first character `c` of a lexeme where that lexeme ends. -/
def splitAfter (c : Char) (rest : Text) : Text × Text :=
  match Shape.ofChar c with
  | .spaces => (rest.takeWhile (· = ' '), rest.dropWhile (· = ' '))
  | .tabs => (rest.takeWhile (· = '\t'), rest.dropWhile (· = '\t'))
  | .word => (rest.takeWhile Shape.continuesWord, rest.dropWhile Shape.continuesWord)
  | .comment => (rest.takeWhile (· ≠ '\n'), rest.dropWhile (· ≠ '\n'))
  | .string => splitString c rest
  | _ => ([], rest)

theorem splitString_append (quote : Char) (text : Text) :
    (splitString quote text).1 ++ (splitString quote text).2 = text := by
  fun_induction splitString quote text <;> simp_all

theorem splitAfter_append (c : Char) (rest : Text) :
    (splitAfter c rest).1 ++ (splitAfter c rest).2 = rest := by
  unfold splitAfter
  split <;> simp [splitString_append]

private theorem length_splitAfter_le (c : Char) (rest : Text) :
    (splitAfter c rest).2.length ≤ rest.length := by
  have := congrArg List.length (splitAfter_append c rest)
  simp only [List.length_append] at this
  omega

def scan : Text → List Lexeme
  | [] => []
  | c :: rest =>
    ⟨Shape.ofChar c, c :: (splitAfter c rest).1⟩ :: scan (splitAfter c rest).2
termination_by text => text.length
decreasing_by
  have := length_splitAfter_le c rest
  simp only [List.length_cons]
  omega

/-- Joining the lexemes of a text gives the text back. -/
theorem flatten_scan (text : Text) : ((scan text).map Lexeme.text).flatten = text := by
  fun_induction scan text with
  | case1 => rfl
  | case2 c rest ih => simp [ih, splitAfter_append]

/-- The kind of the token that a lexeme stands for. The table decides on words and on `@`, and
the blanks between tokens stand for none. -/
def kind? (keywords : Keywords) (lexeme : Lexeme) : Option Kind :=
  match lexeme.shape with
  | .spaces | .tabs | .control => none
  | .newline => some .newline
  | .colon => some .colon
  | .openParen => some .openParen
  | .closeParen => some .closeParen
  | .atSign | .word => some (keywords.classify lexeme.text)
  | .comment | .string | .other => some .ignored

end Lexeme

end Excerpt
