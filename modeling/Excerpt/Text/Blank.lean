import Excerpt.Text.Bytes
/-!
# Blanks and words

The blanks are the characters with the Unicode property `White_Space`. Words are the longest
pieces of a text without blanks.
-/
namespace Excerpt.Text

/-- The characters with the Unicode property `White_Space`. -/
def isBlank (c : Char) : Bool :=
  (9 ≤ c.toNat && c.toNat ≤ 13) || c.toNat == 0x20 || c.toNat == 0x85 || c.toNat == 0xA0 ||
    c.toNat == 0x1680 || (0x2000 ≤ c.toNat && c.toNat ≤ 0x200A) || c.toNat == 0x2028 ||
    c.toNat == 0x2029 || c.toNat == 0x202F || c.toNat == 0x205F || c.toNat == 0x3000

def trimEnd (text : Text) : Text :=
  (text.reverse.dropWhile isBlank).reverse

/-- The pieces of a text between its blanks, empty ones included. -/
def pieces : Text → List Text
  | [] => [[]]
  | c :: rest =>
    if isBlank c then [] :: pieces rest
    else match pieces rest with
      | [] => [[c]]
      | piece :: more => (c :: piece) :: more

/-- The words of a text: its nonempty pieces between blanks. -/
def words (text : Text) : List Text :=
  (pieces text).filter (· ≠ [])

end Excerpt.Text
