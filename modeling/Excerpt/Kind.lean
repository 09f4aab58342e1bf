import Excerpt.Text.Bytes
/-!
# Kinds of token

Only what is needed to locate definitions is told apart; everything else is `ignored`.
-/
namespace Excerpt

/-- What a token is. -/
inductive Kind where
  | classKeyword
  | functionKeyword
  | identifier
  | colon
  | openParen
  | closeParen
  | newline
  | decorator
  | importKeyword
  | fromKeyword
  | endOfInput
  | ignored
  deriving DecidableEq, Repr

namespace Kind

def all : List Kind :=
  [.classKeyword, .functionKeyword, .identifier, .colon, .openParen, .closeParen, .newline,
    .decorator, .importKeyword, .fromKeyword, .endOfInput, .ignored]

/-- The name of a kind, as it is written in settings, messages and listings. -/
def name : Kind → Text
  | classKeyword => "CLASS".toList
  | functionKeyword => "FUNCTION".toList
  | identifier => "IDENT".toList
  | colon => "COLON".toList
  | openParen => "LPAREN".toList
  | closeParen => "RPAREN".toList
  | newline => "NEWLINE".toList
  | decorator => "DECORATOR".toList
  | importKeyword => "IMPORT".toList
  | fromKeyword => "FROM".toList
  | endOfInput => "EOF".toList
  | ignored => "IGNORE".toList

def ofName? (text : Text) : Option Kind :=
  all.find? (·.name == text)

/-- The keywords that open a block which can be extracted. -/
def isDefinition : Kind → Bool
  | classKeyword | functionKeyword => true
  | _ => false

theorem ne_newline_of_isDefinition {kind : Kind} (h : kind.isDefinition = true) :
    kind ≠ newline := by
  intro heq
  rw [heq] at h
  cases h

end Kind

end Excerpt
