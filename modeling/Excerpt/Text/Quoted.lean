import Excerpt.Text.Extending
import Excerpt.Text.Ignorable
import Excerpt.Text.Printable
/-!
# Written forms

Numbers are written in decimal. A quoted text stands between double quotes, with an escape for
every character that would be misread, or not be seen, if it were written as itself.
-/
namespace Excerpt.Text

def decimal (n : Nat) : Text := Nat.toDigits 10 n

/-- The escape of a character by its code point, in lower-case hexadecimal without padding. -/
def codePointEscape (c : Char) : Text :=
  "\\u\x7b".toList ++ Nat.toDigits 16 c.toNat ++ "\x7d".toList

def escape (c : Char) : Text :=
  if c = '\x00' then "\\0".toList
  else if c = '\t' then "\\t".toList
  else if c = '\n' then "\\n".toList
  else if c = '\r' then "\\r".toList
  else if c = '"' then "\\\"".toList
  else if c = '\\' then "\\\\".toList
  else if isExtending c || isIgnorable c || isUnprintable c then codePointEscape c
  else [c]

/-- A text between double quotes, with escapes for what cannot stand for itself. -/
def quoted (text : Text) : Text :=
  '"' :: (text.flatMap escape ++ ['"'])

def ticked (text : Text) : Text := "`".toList ++ text ++ "`".toList

end Excerpt.Text
