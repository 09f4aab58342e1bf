import Excerpt.Error
import Excerpt.Keywords
import Excerpt.Toml.Document
/-!
# Settings

Settings say how sources are read and whether decorators go with a definition. They are written in
TOML, with three keys that may each be left out:

* `indent_width`, an integer from zero to the largest of 64 bits,
* `decorators`, a truth value,
* `keywords`, a table from literals to kinds, which takes the place of the Python keywords.

Settings that are well formed are then checked: the indent width must not be zero, and a keyword
table must be able to mark both classes and functions.
-/
namespace Excerpt

/-- How sources are read and definitions are cut out. -/
structure Settings where
  indentWidth : Nat := 4
  decorators : Bool := true
  keywords : Option Keywords := none
  deriving DecidableEq

namespace Settings

def dialect (settings : Settings) : Dialect where
  indentWidth := settings.indentWidth
  keywords := settings.keywords.getD .python

/-! ### Decoding -/

def decodeIndentWidth? : Toml.Value → Option Nat
  | .integer (.ofNat number) => if number < UInt64.size then some number else none
  | _ => none

def decodeBoolean? : Toml.Value → Option Bool
  | .boolean truth => some truth
  | _ => none

/-- The kind that a value gives: its name, or a table whose one key is its name and holds nothing. -/
def decodeKind? : Toml.Value → Option Kind
  | .text name => Kind.ofName? name
  | .table _ [(name, .table _ [])] => Kind.ofName? name
  | .table _ [(name, .emptyArray)] => Kind.ofName? name
  | _ => none

def decodeKeywords? : Toml.Value → Option Keywords
  | .table _ entries => do
    let pairs ← entries.mapM fun entry => (decodeKind? entry.2).map (entry.1, ·)
    return Keywords.ofList pairs
  | _ => none

def decodeEntry? (settings : Settings) (key : Text) (value : Toml.Value) : Option Settings :=
  if key = "indent_width".toList then
    (decodeIndentWidth? value).map fun indentWidth => { settings with indentWidth }
  else if key = "decorators".toList then
    (decodeBoolean? value).map fun decorators => { settings with decorators }
  else if key = "keywords".toList then
    (decodeKeywords? value).map fun keywords => { settings with keywords := some keywords }
  else none

/-- The settings that the entries of a document give; what they leave out has its default. -/
def decode? (entries : Toml.Entries) : Option Settings :=
  entries.foldlM (fun settings entry => settings.decodeEntry? entry.1 entry.2) {}

/-! ### Checking -/

/-- Whether a keyword table can mark classes and functions. -/
def checkKeywords (keywords : Keywords) : Except Error Unit :=
  if keywords.isEmpty then .error (.invalidSettings .noKeywords)
  else if keywords.literalFor? .classKeyword = none then
    .error (.invalidSettings (.missingKeyword .classKeyword))
  else if keywords.literalFor? .functionKeyword = none then
    .error (.invalidSettings (.missingKeyword .functionKeyword))
  else .ok ()

def check (settings : Settings) : Except Error Settings := do
  if settings.indentWidth = 0 then
    throw (.invalidIndentWidth settings.indentWidth)
  match settings.keywords with
  | none => return settings
  | some keywords => do
    checkKeywords keywords
    return settings

def parse (document : Text) : Except Error Settings :=
  match (Toml.read document).bind decode? with
  | none => .error (.invalidSettings .malformed)
  | some settings => settings.check

end Settings

end Excerpt
