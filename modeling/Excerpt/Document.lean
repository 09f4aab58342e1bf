import Excerpt.Directive
import Excerpt.Extraction
import Excerpt.Settings
/-!
# Documents

A document is copied line by line, and each directive in it is replaced by the piece of source it
asks for, between code fences. The first directive that fails stops the whole document.
-/
namespace Excerpt

/-- A source that was loaded, with the name of its language, which may be empty. -/
structure Source where
  text : Text
  language : Text
  deriving DecidableEq, Repr

/-- Where sources come from: a path gives a source or an error. -/
abbrev Library := Text → Except Error Source

namespace Directive

/-- The piece of a source that a directive asks for. A directive without a target asks for all of
it, and then the source is not laid out. -/
def render (directive : Directive) (settings : Settings) (source : Text) : Run Text :=
  match directive.target? with
  | none => return source
  | some target =>
    extract settings.dialect source (directive.decorators.getD settings.decorators) target

end Directive

namespace Document

def fence : Text := "```".toList

/-- A snippet between code fences, which starts and ends on lines of its own. -/
def fenced (language snippet : Text) : Text :=
  fence ++ language ++ ['\n'] ++ snippet ++
    (if snippet.getLast? = some '\n' then [] else ['\n']) ++ fence ++ ['\n']

def injectDirective (library : Library) (settings : Settings) (number : Nat) (line : Text) :
    Run Text := do
  let directive ← Run.ofExcept (Directive.parse line)
  Run.request directive.path
  let source ← Run.ofExcept (library directive.path)
  let snippet ← directive.render settings source.text
  Run.note (.injected number directive.path (Text.byteLength snippet))
  return fenced source.language snippet

def injectLine (library : Library) (settings : Settings) (number : Nat) (line : Text) : Run Text :=
  if Directive.isDirective line then injectDirective library settings number line
  else return line

/-- What consecutive lines of a document become, the first of which has the given number. -/
def injectLines (library : Library) (settings : Settings) : Nat → List Text → Run Text
  | _, [] => return []
  | number, line :: rest => do
    let head ← injectLine library settings number line
    let tail ← injectLines library settings (number + 1) rest
    return head ++ tail

/-- Replaces every directive of a document. -/
def inject (library : Library) (settings : Settings) (document : Text) : Run Text :=
  injectLines library settings 1 (Text.splitLines document)

end Document

end Excerpt
