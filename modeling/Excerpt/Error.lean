import Excerpt.Kind
import Excerpt.Text.Quoted
/-!
# Errors

An error is a cause with what is known about it. Its wording, its code and the advice that goes
with it are functions of the cause.
-/
namespace Excerpt

/-- The two tables of a listing that are asked for an entry by its index. -/
inductive Table where
  | tokens
  | lines
  deriving DecidableEq, Repr

/-- What is wrong with settings. -/
inductive SettingsFault where
  /-- The text is no TOML document, or one with unknown keys or values of the wrong type. -/
  | malformed
  /-- The keyword table is there and has no entries. -/
  | noKeywords
  /-- The keyword table has entries, but none of a kind that definitions need. -/
  | missingKeyword (kind : Kind)
  deriving DecidableEq, Repr

/-- What is wrong with a directive. -/
inductive DirectiveFault where
  | noOpening
  | noClosing
  | noPath
  | unexpectedArgument (word : Text)
  | unknownFlag (name : Text)
  | noValue (name : Text)
  | notBoolean (value : Text)
  deriving DecidableEq, Repr

/-- Why a request cannot be answered. -/
inductive Error where
  | notFound (kind : Kind) (name : Text)
  | scopeNotFound (function scope : Text)
  | outOfRange (table : Table) (index length : Nat)
  | invalidIndentWidth (width : Nat)
  | invalidSettings (fault : SettingsFault)
  | invalidDirective (line : Text) (fault : DirectiveFault)
  | unavailable (path reason : Text)
  deriving DecidableEq, Repr

def Table.entryName : Table → Text
  | .tokens => "token".toList
  | .lines => "line".toList

def SettingsFault.message : SettingsFault → Text
  | .malformed => "not a valid settings document".toList
  | .noKeywords => "`[keywords]` must not be empty".toList
  | .missingKeyword kind => "`[keywords]` has no literal for ".toList ++ kind.name

def DirectiveFault.message : DirectiveFault → Text
  | .noOpening => "missing `cinj\x7b` prefix".toList
  | .noClosing => "missing closing `\x7d`".toList
  | .noPath => "missing source path".toList
  | .unexpectedArgument word => "unexpected argument ".toList ++ Text.ticked word
  | .unknownFlag name => "unknown flag ".toList ++ Text.ticked ('-' :: name)
  | .noValue name => "flag ".toList ++ Text.ticked ('-' :: name) ++ " needs a value".toList
  | .notBoolean value => Text.ticked value ++ " is not a boolean".toList

namespace Error

def message : Error → Text
  | notFound kind name =>
    "no ".toList ++ kind.name ++ " definition named ".toList ++ Text.ticked name
  | scopeNotFound function scope =>
    "function ".toList ++ Text.ticked function ++
      " is not preceded by a declaration of class ".toList ++ Text.ticked scope
  | outOfRange table index length =>
    table.entryName ++ " index ".toList ++ Text.decimal index ++
      " is out of range (length ".toList ++ Text.decimal length ++ ")".toList
  | invalidIndentWidth width =>
    "indent width must be at least 1, got ".toList ++ Text.decimal width
  | invalidSettings fault => "failed to parse config: ".toList ++ fault.message
  | invalidDirective line fault =>
    "invalid cinj directive: ".toList ++ Text.ticked line ++ ": ".toList ++ fault.message
  | unavailable path reason =>
    "failed to load source ".toList ++ Text.ticked path ++ ": ".toList ++ reason

/-- The code under which an error is documented. -/
def code : Error → Text
  | notFound .. => "cinj::not_found".toList
  | scopeNotFound .. => "cinj::scope_not_found".toList
  | outOfRange .. => "cinj::out_of_range".toList
  | invalidIndentWidth .. => "cinj::invalid_indent_width".toList
  | invalidSettings .. => "cinj::config_parse".toList
  | invalidDirective .. => "cinj::invalid_directive".toList
  | unavailable .. => "cinj::source".toList

/-- The advice that goes with an error, for those that have one. -/
def help? : Error → Option Text
  | notFound _ name =>
    some ("check that ".toList ++ Text.ticked name ++
      " is defined with `class` or `def`, not only referenced".toList)
  | scopeNotFound .. => some "drop the class argument or check the class name".toList
  | outOfRange .. => none
  | invalidIndentWidth .. => none
  | invalidSettings .. =>
    some ("check that the config is valid TOML with `indent_width`, `decorators` " ++
      "and `[keywords]`").toList
  | invalidDirective .. =>
    some ("directives look like `cinj\x7bpath/to/file.py -class Name " ++
      "-function name\x7d`").toList
  | unavailable .. => none

end Error

end Excerpt
