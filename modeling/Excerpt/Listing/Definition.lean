import Excerpt.Listing.Search
import Excerpt.Text.Blank
/-!
# The extent of a definition

The block of a definition starts at its keyword and stops at the first token behind the defined
name that is on another line and no deeper than the keyword. Newlines end no block, so blank lines
may stand inside one.

The decorators of a definition are the lines right above it that hold, after nothing but blanks, an
`@` in the column of the keyword. Going up, the first line that is none ends them.
-/
namespace Excerpt.Listing

/-! ### Blocks -/

def isIdentifierAt (listing : Listing) (index : Nat) : Bool :=
  listing.tokens[index]?.any (·.kind == .identifier)

def blockEnd? (listing : Listing) (anchor : Token) (index : Nat) : Option Token :=
  (listing.tokens.drop index).find? anchor.endsBlock

/-- The bytes of the block that the definition at `index` opens. Where nothing ends the block it
reaches to the end of the source. -/
def blockSpan (listing : Listing) (index : Nat) : Except Error Span := do
  let keyword ← listing.tokenAt index
  if keyword.kind.isDefinition && listing.isIdentifierAt (index + 1) then
    let stop := (listing.blockEnd? keyword (index + 2)).map Token.start
    return ⟨keyword.start, stop.getD (Text.byteLength listing.source)⟩
  else
    throw (.notFound keyword.kind keyword.literal)

/-- The line of the first token of a kind and literal, and the line of the token that ends a block
opened there, or again the first line if none does. -/
def blockLines (listing : Listing) (kind : Kind) (literal : Text) : Except Error (Nat × Nat) := do
  let (anchor, index) ← listing.findFirst kind literal
  let last := (listing.blockEnd? anchor (index + 1)).map Token.line
  return (anchor.line, last.getD anchor.line)

/-! ### Decorators -/

/-- Whether a line holds an `@` at a column, counted in bytes from one, after nothing but blanks. -/
def isDecoratorLine (column : Nat) (line : Text) : Bool :=
  match Text.splitAtByte? (column - 1) line with
  | some (indent, rest) => indent.all Text.isBlank && rest.head? == some '@'
  | none => false

/-- The number of decorator lines right above the line with an index counted from zero. -/
def decoratorCount (listing : Listing) (column index : Nat) : Nat :=
  ((listing.lines.take index).reverse.takeWhile fun line =>
    isDecoratorLine column line.text).length

/-- The bytes of the decorator lines above the token at `index`: from the start of the first of
them to the start of the token's own line. -/
def decoratorSpan (listing : Listing) (index : Nat) : Except Error Span := do
  let keyword ← listing.tokenAt index
  let own := keyword.line - 1
  let first ← listing.lineAt (own - listing.decoratorCount keyword.column own)
  let last ← listing.lineAt own
  return ⟨first.start, last.start⟩

def decorators (listing : Listing) (index : Nat) : Except Error Text :=
  (listing.decoratorSpan index).map (Text.slice listing.source)

/-! ### Both together -/

/-- The bytes of the definition at `index`, with its decorators if they are wanted. -/
def definitionSpan (listing : Listing) (decorated : Bool) (index : Nat) : Except Error Span := do
  let block ← listing.blockSpan index
  if decorated then
    let above ← listing.decoratorSpan index
    return if above.start < above.stop then ⟨above.start, block.stop⟩ else block
  else
    return block

def definitionText (listing : Listing) (decorated : Bool) (index : Nat) : Except Error Text :=
  (listing.definitionSpan decorated index).map (Text.slice listing.source)

end Excerpt.Listing
