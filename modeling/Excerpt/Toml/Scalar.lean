import Excerpt.Toml.Value
/-!
# TOML strings and numbers

A string is read in two steps: its raw content is cut off at the closing quotes, and the escapes in
it are then decoded. Numbers are integers in decimal, or in hexadecimal, octal or binary after
`0x`, `0o` and `0b`, with underscores between digits.
-/
namespace Excerpt.Toml

/-- A tab or any other character that is no control character. -/
def isVisible (c : Char) : Bool :=
  c == '\t' || (0x20 ≤ c.toNat && c.toNat != 0x7F)

def isGap (c : Char) : Bool := c == ' ' || c == '\t'

def digit? (base : Nat) (c : Char) : Option Nat :=
  let value :=
    if '0' ≤ c ∧ c ≤ '9' then c.toNat - '0'.toNat
    else if 'a' ≤ c ∧ c ≤ 'f' then c.toNat - 'a'.toNat + 10
    else if 'A' ≤ c ∧ c ≤ 'F' then c.toNat - 'A'.toNat + 10
    else 16
  if value < base then some value else none

/-! ### Strings -/

def scalar? (digits : Text) : Option Char := do
  let values ← digits.mapM (digit? 16)
  let code := values.foldl (fun total value => 16 * total + value) 0
  if code.isValidChar then some (Char.ofNat code) else none

/-- The character with the code point that the first `count` characters of a text give. -/
def leadingScalar? (count : Nat) (text : Text) : Option Char :=
  if (text.take count).length = count then scalar? (text.take count) else none

/-- The number of characters that blanks and line ends take up at the start of a text. -/
def fillLength : Text → Nat
  | [] => 0
  | c :: rest =>
    if isGap c || c == '\n' || (c == '\r' && rest.head? == some '\n') then fillLength rest + 1
    else 0

/-- Whether a text goes on with a line end, after nothing but spaces and tabs. -/
def endsLine (text : Text) : Bool :=
  match text.dropWhile isGap with
  | '\n' :: _ => true
  | '\r' :: '\n' :: _ => true
  | _ => false

/-- What an escape stands for, and how many characters it takes up behind its backslash. A
backslash at the end of a line, where that is allowed, stands for nothing and takes up all blanks
and line ends that follow. -/
def escape? (multiline : Bool) (text : Text) : Option (Text × Nat) :=
  if multiline && endsLine text then some ([], fillLength text)
  else match text with
    | 'b' :: _ => some (['\x08'], 1)
    | 't' :: _ => some (['\t'], 1)
    | 'n' :: _ => some (['\n'], 1)
    | 'f' :: _ => some (['\x0c'], 1)
    | 'r' :: _ => some (['\r'], 1)
    | 'e' :: _ => some (['\x1b'], 1)
    | '"' :: _ => some (['"'], 1)
    | '\\' :: _ => some (['\\'], 1)
    | 'x' :: rest => (leadingScalar? 2 rest).map fun c => ([c], 3)
    | 'u' :: rest => (leadingScalar? 4 rest).map fun c => ([c], 5)
    | 'U' :: rest => (leadingScalar? 8 rest).map fun c => ([c], 9)
    | _ => none

/-- Decodes the escapes of a raw content, the first `skip` characters of which are done with. -/
def unescape (multiline : Bool) : Nat → Text → Option Text
  | _, [] => some []
  | skip + 1, _ :: rest => unescape multiline skip rest
  | 0, c :: rest =>
    if c = '\\' then do
      let (meaning, length) ← escape? multiline rest
      return meaning ++ (← unescape multiline length rest)
    else (unescape multiline 0 rest).map (c :: ·)

def splitQuoted (quote : Char) (escapes : Bool) : Text → Option (Text × Text)
  | [] => none
  | [c] => if c = quote then some ([], []) else none
  | c :: d :: rest =>
    if c = quote then some ([], d :: rest)
    else if escapes && c == '\\' then
      (splitQuoted quote escapes rest).map fun cut => (c :: d :: cut.1, cut.2)
    else (splitQuoted quote escapes (d :: rest)).map fun cut => (c :: cut.1, cut.2)

/-- Cuts a text at the three quotes that close a string over several lines. One or two more quotes
right before them belong to the content. -/
def splitTripleQuoted (quote : Char) (escapes : Bool) : Text → Option (Text × Text)
  | [] => none
  | [_] => none
  | c :: d :: rest =>
    let run := ((c :: d :: rest).takeWhile (· = quote)).length
    if 3 ≤ run then
      if run ≤ 5 then some (List.replicate (run - 3) quote, (c :: d :: rest).drop run) else none
    else if escapes && c == '\\' then
      (splitTripleQuoted quote escapes rest).map fun cut => (c :: d :: cut.1, cut.2)
    else (splitTripleQuoted quote escapes (d :: rest)).map fun cut => (c :: cut.1, cut.2)

def isFreeText : Text → Bool
  | [] => true
  | c :: rest =>
    (isVisible c || c == '\n' || (c == '\r' && rest.head? == some '\n')) && isFreeText rest

def dropLineEnd : Text → Text
  | '\n' :: rest => rest
  | '\r' :: '\n' :: rest => rest
  | text => text

/-- Reads the rest of a string on one line, after its opening quote. Double quotes allow escapes
and single quotes do not. -/
def readQuoted (quote : Char) (text : Text) : Option (Text × Text) := do
  let escapes := quote == '"'
  let (raw, rest) ← splitQuoted quote escapes text
  if raw.all isVisible then
    let content ← if escapes then unescape false 0 raw else some raw
    return (content, rest)
  else none

def readTripleQuoted (quote : Char) (text : Text) : Option (Text × Text) := do
  let escapes := quote == '"'
  let (raw, rest) ← splitTripleQuoted quote escapes text
  if isFreeText raw then
    let raw := dropLineEnd raw
    let content ← if escapes then unescape true 0 raw else some raw
    return (content, rest)
  else none

/-! ### Numbers -/

/-- The value of digits with single underscores between them. The flag tells whether the character
before was a digit. -/
def readDigits (base : Nat) : Bool → Nat → Text → Option Nat
  | true, total, [] => some total
  | false, _, [] => none
  | afterDigit, total, c :: rest =>
    if c = '_' then
      if afterDigit then readDigits base false total rest else none
    else do
      let value ← digit? base c
      readDigits base true (base * total + value) rest

/-- The value of a decimal number without a sign; only zero itself starts with a zero. -/
def readDecimal (text : Text) : Option Nat :=
  if text.head? = some '0' ∧ text ≠ ['0'] then none else readDigits 10 false 0 text

def readInteger : Text → Option Int
  | '+' :: rest => (readDecimal rest).map Int.ofNat
  | '-' :: rest => (readDecimal rest).map fun n => -(Int.ofNat n)
  | '0' :: 'x' :: rest => (readDigits 16 false 0 rest).map Int.ofNat
  | '0' :: 'o' :: rest => (readDigits 8 false 0 rest).map Int.ofNat
  | '0' :: 'b' :: rest => (readDigits 2 false 0 rest).map Int.ofNat
  | text => (readDecimal text).map Int.ofNat

def readBare (text : Text) : Option Value :=
  if text = "true".toList then some (.boolean true)
  else if text = "false".toList then some (.boolean false)
  else (readInteger text).map .integer

end Excerpt.Toml
