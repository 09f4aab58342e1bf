import Excerpt.Boundary
import Excerpt.Error
/-!
# Listings

A listing is a source laid out for search: its lines, its tokens and the boundaries of its blocks.
Each line is read on its own; all that one line passes on to the next is its depth.
-/
namespace Excerpt

/-- A source with its lines, tokens and block boundaries. -/
structure Listing where
  source : Text
  lines : List Line
  tokens : List Token
  boundaries : List Boundary
  deriving DecidableEq, Repr

namespace Listing

def linesOf (source : Text) : List Line :=
  Line.place 1 0 (Text.splitLines source)

/-- The rows of a source. The margin has depth one. -/
def rowsOf (width : Nat) (source : Text) : List Row :=
  Row.place width 1 (linesOf source)

def lastDepth (width : Nat) (source : Text) : Nat :=
  ((rowsOf width source).getLast?.map Row.depth).getD 1

/-- The tokens of a source: those of its rows, and the one at its end. -/
def tokensOf (dialect : Dialect) (source : Text) : List Token :=
  (rowsOf dialect.indentWidth source).flatMap (Token.ofRow dialect.keywords) ++
    [Token.endOf source]

/-- The boundaries of a source: those at its rows, and those that close at its end what is still
open there. -/
def boundariesOf (width : Nat) (source : Text) : List Boundary :=
  (rowsOf width source).flatMap Boundary.ofRow ++
    Boundary.between (Token.endOf source).line (lastDepth width source) 1

def read (dialect : Dialect) (source : Text) : Listing where
  source := source
  lines := linesOf source
  tokens := tokensOf dialect source
  boundaries := boundariesOf dialect.indentWidth source

/-- Lays out a source, if a level of indentation is at least one space wide. -/
def ofSource (dialect : Dialect) (source : Text) : Except Error Listing :=
  if dialect.indentWidth = 0 then .error (.invalidIndentWidth dialect.indentWidth)
  else .ok (read dialect source)

/-- The token with an index counted from zero. -/
def tokenAt (listing : Listing) (index : Nat) : Except Error Token :=
  match listing.tokens[index]? with
  | some token => .ok token
  | none => .error (.outOfRange .tokens index listing.tokens.length)

def lineAt (listing : Listing) (index : Nat) : Except Error Line :=
  match listing.lines[index]? with
  | some line => .ok line
  | none => .error (.outOfRange .lines index listing.lines.length)

def definitionTokens (listing : Listing) : List Nat :=
  (listing.tokens.zipIdx.filter (·.1.kind.isDefinition)).map (·.2)

def tokenTexts (listing : Listing) : List Text :=
  listing.tokens.map fun token => Text.slice listing.source token.span

end Listing

end Excerpt
