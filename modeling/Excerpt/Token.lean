import Excerpt.Indent
import Excerpt.Text.Lines
import Excerpt.Text.Quoted
/-!
# Tokens

A row is a line with its depth, and the tokens of a row are its lexemes with the blanks left out,
each at its place. A token knows its line and column, counted from one, its depth, which is that of
its row, and the bytes it covers.
-/
namespace Excerpt

/-- A line of a source with its depth and that of the row before it. -/
structure Row where
  line : Line
  previous : Nat
  depth : Nat
  deriving DecidableEq, Repr

/-- The rows of consecutive lines. A bare line keeps the depth of the row before it. -/
def Row.place (width : Nat) : Nat → List Line → List Row
  | _, [] => []
  | previous, line :: rest =>
    let depth := (Indent.depth? width line.text).getD previous
    ⟨line, previous, depth⟩ :: Row.place width depth rest

/-- A token at its place in a source. -/
structure Token where
  kind : Kind
  literal : Text
  line : Nat
  column : Nat
  depth : Nat
  start : Nat
  stop : Nat
  deriving DecidableEq, Repr

namespace Token

def span (token : Token) : Span := ⟨token.start, token.stop⟩

def is (token : Token) (kind : Kind) (literal : Text) : Bool :=
  token.kind == kind && token.literal == literal

/-- Whether a token ends the block that `anchor` opens: it stands on another line, no deeper than
the anchor, and is no newline. -/
def endsBlock (anchor token : Token) : Bool :=
  token.kind != .newline && decide (token.depth ≤ anchor.depth) && token.line != anchor.line

/-- The tokens of consecutive lexemes of a row, the first of which starts `offset` bytes into the
line. -/
def place (keywords : Keywords) (row : Row) : Nat → List Lexeme → List Token
  | _, [] => []
  | offset, lexeme :: rest =>
    let next := offset + Text.byteLength lexeme.text
    match lexeme.kind? keywords with
    | none => place keywords row next rest
    | some kind =>
      { kind, literal := lexeme.text, line := row.line.number, column := offset + 1,
        depth := row.depth, start := row.line.start + offset, stop := row.line.start + next } ::
        place keywords row next rest

def ofRow (keywords : Keywords) (row : Row) : List Token :=
  place keywords row 0 (Lexeme.scan row.line.text)

def endOf (source : Text) : Token where
  kind := .endOfInput
  literal := []
  line := 1 + source.count '\n'
  column := Text.byteLength (Text.unfinishedLine source) + 1
  depth := 1
  start := Text.byteLength source
  stop := Text.byteLength source

def describe (token : Token) : Text :=
  token.kind.name ++ " ".toList ++ Text.quoted token.literal ++ " ".toList ++
    Text.decimal token.line ++ ":".toList ++ Text.decimal token.column ++ " depth=".toList ++
    Text.decimal token.depth ++ " [".toList ++ Text.decimal token.start ++ "..".toList ++
    Text.decimal token.stop ++ ")".toList

end Token

end Excerpt
