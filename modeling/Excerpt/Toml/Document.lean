import Excerpt.Toml.Scalar
/-!
# TOML documents

A document is read statement by statement. Numbers other than integers, dates and arrays with
elements are refused, since no settings hold them. The reader counts its steps down from the
length of the text, which no document exceeds because every step takes up a character.
-/
namespace Excerpt.Toml

/-- A text without the spaces and tabs it starts with. -/
def skipGap (text : Text) : Text := text.dropWhile isGap

/-- A text without the blanks, line ends and comments it starts with. The flag tells whether a
comment is being passed over. -/
def skipFill : Bool → Text → Text
  | _, [] => []
  | comment, c :: rest =>
    if c == '\n' || (c == '\r' && rest.head? == some '\n') then skipFill false rest
    else if comment then
      if isVisible c then skipFill true rest else c :: rest
    else if isGap c then skipFill false rest
    else if c == '#' then skipFill true rest
    else c :: rest

def finishLine (text : Text) : Option Text :=
  let text := skipGap text
  let text := if text.head? = some '#' then text.dropWhile isVisible else text
  match text with
  | [] => some []
  | '\n' :: rest => some rest
  | '\r' :: '\n' :: rest => some rest
  | _ => none

def isBareKey (c : Char) : Bool := c.isAlphanum || c == '_' || c == '-'

def isBareValue (c : Char) : Bool := isBareKey c || c == '+' || c == '.' || c == ':'

def readStep : Text → Option (Text × Text)
  | '"' :: rest => readQuoted '"' rest
  | '\x27' :: rest => readQuoted '\x27' rest
  | text =>
    if text.takeWhile isBareKey = [] then none
    else some (text.takeWhile isBareKey, text.dropWhile isBareKey)

/-- Reads a key, with blanks allowed around its dots and behind it. -/
def readKey : Nat → Text → Option (Key × Text)
  | 0, _ => none
  | fuel + 1, text => do
    let (step, rest) ← readStep text
    match skipGap rest with
    | '.' :: rest => do
      let (key, rest) ← readKey fuel (skipGap rest)
      return ({ key with path := step :: key.path }, rest)
    | rest => return (⟨[], step⟩, rest)

mutual

def readValue : Nat → Text → Option (Value × Text)
  | 0, _ => none
  | fuel + 1, text =>
    match text with
    | '"' :: '"' :: '"' :: rest =>
      (readTripleQuoted '"' rest).map fun read => (.text read.1, read.2)
    | '"' :: rest => (readQuoted '"' rest).map fun read => (.text read.1, read.2)
    | '\x27' :: '\x27' :: '\x27' :: rest =>
      (readTripleQuoted '\x27' rest).map fun read => (.text read.1, read.2)
    | '\x27' :: rest => (readQuoted '\x27' rest).map fun read => (.text read.1, read.2)
    | '[' :: rest =>
      match skipFill false rest with
      | ']' :: rest => some (.emptyArray, rest)
      | _ => none
    | '\x7b' :: rest => do
      let (pairs, rest) ← readPairs fuel (skipFill false rest)
      return (.table .inline (← Entries.ofPairs pairs), rest)
    | text =>
      (readBare (text.takeWhile isBareValue)).map fun value => (value, text.dropWhile isBareValue)

/-- Reads the keys and values of an inline table up to its closing brace. A comma may follow the
last of them. -/
def readPairs : Nat → Text → Option (List (Key × Value) × Text)
  | 0, _ => none
  | fuel + 1, text =>
    match text with
    | '\x7d' :: rest => some ([], rest)
    | text => do
      let (key, rest) ← readKey text.length text
      match skipFill false rest with
      | '=' :: rest => do
        let (value, rest) ← readValue fuel (skipFill false rest)
        match skipFill false rest with
        | '\x7d' :: rest => return ([(key, value)], rest)
        | ',' :: rest => do
          let (pairs, rest) ← readPairs fuel (skipFill false rest)
          return ((key, value) :: pairs, rest)
        | _ => none
      | _ => none

end

/-- Reads a header, after its opening bracket, up to the end of its line. -/
def readHeader (text : Text) : Option (Statement × Text) := do
  let (key, rest) ← readKey text.length (skipGap text)
  match rest with
  | ']' :: rest => return (.header key, ← finishLine rest)
  | _ => none

def readEntry (text : Text) : Option (Statement × Text) := do
  let (key, rest) ← readKey text.length text
  match rest with
  | '=' :: rest => do
    let (value, rest) ← readValue rest.length (skipGap rest)
    return (.entry key value, ← finishLine rest)
  | _ => none

def readStatements : Nat → Text → Option (List Statement)
  | 0, text => if text = [] then some [] else none
  | fuel + 1, text =>
    match skipFill false text with
    | [] => some []
    | '[' :: rest => do
      let (statement, rest) ← readHeader rest
      return statement :: (← readStatements fuel rest)
    | text => do
      let (statement, rest) ← readEntry text
      return statement :: (← readStatements fuel rest)

/-- A text without the byte order mark it starts with. -/
def dropMark (text : Text) : Text :=
  if text.head? = some '\uFEFF' then text.tail else text

def read (text : Text) : Option Entries := do
  let text := dropMark text
  Entries.ofStatements (← readStatements text.length text)

end Excerpt.Toml
