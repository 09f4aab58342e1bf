import Excerpt.Snippet
/-!
# The log

The log tells, in order, which block boundaries were crossed, which sources were laid out, which
definitions were extracted and which snippets were injected. An entry is data, and its wording a
function of it.
-/
namespace Excerpt

/-- An entry of the log. -/
inductive LogEntry where
  | boundary (crossed : Boundary)
  | listed (tokens lines : Nat)
  | extracted (snippet : Snippet)
  | injected (line : Nat) (path : Text) (bytes : Nat)
  deriving DecidableEq, Repr

def Boundary.describePlace (line depth : Nat) : Text :=
  " \x7b line: ".toList ++ Text.decimal line ++ ", depth: ".toList ++ Text.decimal depth ++
    " \x7d".toList

def Boundary.describe : Boundary → Text
  | .opening line depth => "Open".toList ++ describePlace line depth
  | .closing line depth => "Close".toList ++ describePlace line depth

/-- The wording of an extraction in the log, without the size of the snippet. -/
def Snippet.describe : Snippet → Text
  | .ofClass name _ => "class class=".toList ++ Text.quoted name
  | .ofFunction name _ => "function function=".toList ++ Text.quoted name
  | .ofMethod name scope scopeLine _ _ =>
    "class-scoped function function=".toList ++ Text.quoted name ++ " class=".toList ++
      Text.quoted scope ++ " class_line=".toList ++ Text.decimal scopeLine

def LogEntry.describe : LogEntry → Text
  | .boundary crossed => "TRACE block boundary event=".toList ++ crossed.describe
  | .listed tokens lines =>
    "DEBUG lexed source tokens=".toList ++ Text.decimal tokens ++ " lines=".toList ++
      Text.decimal lines
  | .extracted snippet =>
    "DEBUG extracted ".toList ++ snippet.describe ++ " bytes=".toList ++
      Text.decimal (Text.byteLength snippet.body)
  | .injected line path bytes =>
    "DEBUG injected snippet line=".toList ++ Text.decimal line ++ " path=".toList ++ path ++
      " bytes=".toList ++ Text.decimal bytes

end Excerpt
