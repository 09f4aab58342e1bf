import Excerpt.Snippet
/-!
# Directives

A directive is a line of a document that asks for a piece of a source. It names the path of the
source and then has flags: a class, a function, and whether decorators are wanted. A flag starts
with one or two dashes, and of two flags of one name the later one counts.
-/
namespace Excerpt

/-- A line that asks for a piece of a source. -/
structure Directive where
  path : Text
  className : Option Text := none
  functionName : Option Text := none
  decorators : Option Bool := none
  deriving DecidableEq, Repr

/-- A flag of a directive, with its value. -/
inductive Flag where
  | ofClass (name : Text)
  | ofFunction (name : Text)
  | decorators (wanted : Bool)
  deriving DecidableEq, Repr

/-- What follows `lead` in a text that starts with it. -/
def Text.after? (lead text : Text) : Option Text :=
  if lead.isPrefixOf text then some (text.drop lead.length) else none

namespace Flag

/-- The name of a flag and the value written behind an equals sign, if there is one. -/
def split (flag : Text) : Text × Option Text :=
  (flag.takeWhile (· ≠ '='), match flag.dropWhile (· ≠ '=') with
    | [] => none
    | _ :: value => some value)

def undash? (word : Text) : Option Text :=
  Text.after? "--".toList word <|> Text.after? "-".toList word

def named? (name : Text) : Option (Text → Flag) :=
  if name = "class".toList then some .ofClass
  else if name = "function".toList then some .ofFunction
  else none

/-- The truth value written behind a flag; a bare flag means yes. -/
def truth : Option Text → Except DirectiveFault Bool
  | none => .ok true
  | some value =>
    if value = "true".toList then .ok true
    else if value = "false".toList then .ok false
    else .error (.notBoolean value)

def unnamed (name : Text) (value : Option Text) : Except DirectiveFault Flag :=
  if name = "decorator".toList ∨ name = "decorators".toList then (truth value).map .decorators
  else .error (.unknownFlag name)

/-- Makes a flag of a name, which must not be empty. -/
def withName (make : Text → Flag) (name value : Text) : Except DirectiveFault Flag :=
  if value = [] then .error (.noValue name) else .ok (make value)

/-- Reads the flags of a directive. A flag that takes a name and has none behind an equals sign
takes the next word, whatever that is. -/
def parseAll : List Text → Except DirectiveFault (List Flag)
  | [] => .ok []
  | word :: rest =>
    match undash? word with
    | none => .error (.unexpectedArgument word)
    | some flag =>
      match named? (split flag).1, (split flag).2, rest with
      | none, value, rest => do
        let first ← unnamed (split flag).1 value
        return first :: (← parseAll rest)
      | some make, some value, rest => do
        let first ← withName make (split flag).1 value
        return first :: (← parseAll rest)
      | some _, none, [] => .error (.noValue (split flag).1)
      | some make, none, value :: rest => do
        let first ← withName make (split flag).1 value
        return first :: (← parseAll rest)

end Flag

namespace Directive

def opening : Text := "cinj\x7b".toList

/-- Whether a line is meant as a directive. -/
def isDirective (line : Text) : Bool := opening.isPrefixOf line

/-- Lets a flag count, in place of one of the same name before it. -/
def apply (directive : Directive) : Flag → Directive
  | .ofClass name => { directive with className := some name }
  | .ofFunction name => { directive with functionName := some name }
  | .decorators wanted => { directive with decorators := some wanted }

def ofFlags (path : Text) (flags : List Flag) : Directive :=
  flags.foldl apply { path }

def inner (line : Text) : Except DirectiveFault Text :=
  match Text.after? opening line with
  | none => .error .noOpening
  | some rest => if rest.getLast? = some '\x7d' then .ok rest.dropLast else .error .noClosing

def ofWords : List Text → Except DirectiveFault Directive
  | [] => .error .noPath
  | path :: rest => (Flag.parseAll rest).map (ofFlags path)

/-- Reads a directive; blanks at the end of the line count for nothing. -/
def parse (line : Text) : Except Error Directive :=
  let line := Text.trimEnd line
  ((inner line).bind fun text => ofWords (Text.words text)).mapError (.invalidDirective line)

def target? (directive : Directive) : Option Target :=
  match directive.functionName, directive.className with
  | some name, scope => some (.ofFunction name scope)
  | none, some name => some (.ofClass name)
  | none, none => none

end Directive

end Excerpt
