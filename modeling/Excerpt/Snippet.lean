import Excerpt.Listing.Definition
/-!
# Snippets

A snippet is a definition cut out of a listing. It is one piece of the source, from the keyword, or
from the decorators above it, to the end of the block. A function looked up within a class comes
with the line that declares the class, and a mark between the two.
-/
namespace Excerpt

/-- A definition to look for. A function may be asked for within a class. -/
inductive Target where
  | ofClass (name : Text)
  | ofFunction (name : Text) (scope : Option Text)
  deriving DecidableEq, Repr

/-- A definition that was found. -/
inductive Snippet where
  | ofClass (name body : Text)
  | ofFunction (name body : Text)
  | ofMethod (name scope : Text) (scopeLine : Nat) (header body : Text)
  deriving DecidableEq, Repr

namespace Snippet

/-- The mark between the line of a class and a function that was looked up within it. -/
def separator : Text := "#----\n".toList

def body : Snippet → Text
  | ofClass _ body => body
  | ofFunction _ body => body
  | ofMethod _ _ _ _ body => body

def text : Snippet → Text
  | ofClass _ body => body
  | ofFunction _ body => body
  | ofMethod _ _ _ header body => header ++ separator ++ body

end Snippet

namespace Listing

def classSnippet (listing : Listing) (decorated : Bool) (name : Text) : Except Error Snippet :=
  match listing.definitions .classKeyword name with
  | [] => .error (.notFound .classKeyword name)
  | first :: _ => (listing.definitionText decorated first).map (.ofClass name)

/-- The first definition of a function that stands below a declaration of the class `scope`, by its
index, with the line of that declaration. -/
def method? (listing : Listing) (name scope : Text) : Option (Nat × Nat) :=
  (listing.definitionKeywords .functionKeyword name).findSome? fun (keyword, index) =>
    ((listing.definitionLines .classKeyword scope).find? (· < keyword.line)).map (index, ·)

/-- The first function of a name that stands below a declaration of the class `scope`, with the
line of that declaration. -/
def methodSnippet (listing : Listing) (decorated : Bool) (name scope : Text) :
    Except Error Snippet :=
  match listing.method? name scope with
  | none => .error (.scopeNotFound name scope)
  | some (index, scopeLine) => do
    let header ← listing.lineAt (scopeLine - 1)
    let body ← listing.definitionText decorated index
    return .ofMethod name scope scopeLine header.text body

/-- The first function of a name, or the first below a declaration of a class. An empty class name
asks for no class. -/
def functionSnippet (listing : Listing) (decorated : Bool) (name : Text) (scope : Option Text) :
    Except Error Snippet :=
  match listing.definitions .functionKeyword name with
  | [] => .error (.notFound .functionKeyword name)
  | first :: _ =>
    match scope.filter (· ≠ []) with
    | none => (listing.definitionText decorated first).map (.ofFunction name)
    | some scope => listing.methodSnippet decorated name scope

def snippet (listing : Listing) (decorated : Bool) : Target → Except Error Snippet
  | .ofClass name => listing.classSnippet decorated name
  | .ofFunction name scope => listing.functionSnippet decorated name scope

end Listing

end Excerpt
