import Excerpt.Text.Bytes
/-!
# TOML tables

Values are those that settings can hold: texts, integers, booleans, tables and the empty array. A
table remembers how it came about, because that decides what may still be added to it: a table with
a header of its own is not declared twice, one that dotted keys have built grows by dotted keys
only, and an inline table is complete where it stands.
-/
namespace Excerpt.Toml

/-- How a table came about. -/
inductive Origin where
  /-- By a header that names it. -/
  | header
  /-- By a header that names a table within it. -/
  | implied
  /-- By a dotted key that leads through it. -/
  | dotted
  /-- Between braces, as a value. -/
  | inline
  deriving DecidableEq, Repr

/-- A value of a settings document. -/
inductive Value where
  | text (content : Text)
  | integer (number : Int)
  | boolean (truth : Bool)
  | emptyArray
  | table (origin : Origin) (entries : List (Text × Value))

/-- The entries of a table, in the order in which they were made. -/
abbrev Entries := List (Text × Value)

/-- A key as written: the steps that lead to a table, and the last one, which names an entry. -/
structure Key where
  path : List Text
  last : Text
  deriving DecidableEq, Repr

namespace Entries

/-- Makes a new entry; a key is entered only once. -/
def add (key : Text) (value : Value) (entries : Entries) : Option Entries :=
  if (entries.lookup key).isSome then none else some (entries ++ [(key, value)])

def replace (key : Text) (value : Value) (entries : Entries) : Entries :=
  entries.map fun entry => if entry.1 = key then (key, value) else entry

/-- Whether a dotted key may lead through a table, in which steps of the key are left to go. -/
def admitsDotted (origin : Origin) (left : List Text) : Bool :=
  match origin with
  | .dotted => true
  | .implied => !left.isEmpty
  | .header | .inline => false

/-- Makes the entry of a dotted key, with the tables on the way to it. -/
def assign (last : Text) (value : Value) : List Text → Entries → Option Entries
  | [], entries => entries.add last value
  | step :: path, entries =>
    match entries.lookup step with
    | none => do
      let inner ← assign last value path []
      entries.add step (.table .dotted inner)
    | some (.table origin inner) =>
      if admitsDotted origin path then do
        let inner ← assign last value path inner
        return entries.replace step (.table origin inner)
      else none
    | some _ => none

/-- Declares the table that a header names, with the tables on the way to it. -/
def declare (last : Text) : List Text → Entries → Option Entries
  | [], entries =>
    match entries.lookup last with
    | none => entries.add last (.table .header [])
    | some (.table .implied inner) => some (entries.replace last (.table .header inner))
    | some _ => none
  | step :: path, entries =>
    match entries.lookup step with
    | none => do
      let inner ← declare last path []
      entries.add step (.table .implied inner)
    | some (.table .inline _) => none
    | some (.table origin inner) => do
      let inner ← declare last path inner
      return entries.replace step (.table origin inner)
    | some _ => none

def modifyAt (change : Entries → Option Entries) : List Text → Entries → Option Entries
  | [], entries => change entries
  | step :: path, entries =>
    match entries.lookup step with
    | some (.table origin inner) => do
      let inner ← modifyAt change path inner
      return entries.replace step (.table origin inner)
    | _ => none

def ofPairs (pairs : List (Key × Value)) : Option Entries :=
  pairs.foldlM (fun entries pair => assign pair.1.last pair.2 pair.1.path entries) []

end Entries

/-- A statement of a document. -/
inductive Statement where
  | header (key : Key)
  | entry (key : Key) (value : Value)

/-- A document being put together: its entries, and the path of the table that the last header
declared. -/
structure Assembly where
  entries : Entries
  current : List Text

namespace Assembly

def step (assembly : Assembly) : Statement → Option Assembly
  | .header key => do
    let entries ← Entries.declare key.last key.path assembly.entries
    return ⟨entries, key.path ++ [key.last]⟩
  | .entry key value => do
    let entries ←
      Entries.modifyAt (Entries.assign key.last value key.path) assembly.current assembly.entries
    return { assembly with entries }

end Assembly

/-- The entries of a document, if its statements agree with each other. -/
def Entries.ofStatements (statements : List Statement) : Option Entries :=
  (statements.foldlM Assembly.step ⟨[], []⟩).map Assembly.entries

end Excerpt.Toml
