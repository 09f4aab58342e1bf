import Excerpt.Text.Bytes
/-!
# Lines

A text is cut after each of its newlines. Every line but the last ends with its newline, the last
one may lack it, and nothing follows a final newline. Joining the lines gives the text back.
-/
namespace Excerpt

namespace Text

/-- The lines of a text, each with the newline that ends it. -/
def splitLines : Text → List Text
  | [] => []
  | c :: rest =>
    if c = '\n' then [c] :: splitLines rest
    else match splitLines rest with
      | [] => [[c]]
      | line :: lines => (c :: line) :: lines

/-- The part of a text after its last newline. -/
def unfinishedLine (text : Text) : Text :=
  (text.reverse.takeWhile (· ≠ '\n')).reverse

@[simp] theorem flatten_splitLines (text : Text) : (splitLines text).flatten = text := by
  induction text with
  | nil => rfl
  | cons c rest ih =>
    rw [splitLines]
    split
    · simp [ih]
    · split
      · next h => rw [h] at ih; simp_all
      · next h => rw [h] at ih; simp_all

end Text

/-- A line of a source: its number counted from one, the byte at which it starts and its text. -/
structure Line where
  number : Nat
  start : Nat
  text : Text
  deriving DecidableEq, Repr

namespace Line

def stop (line : Line) : Nat := line.start + Text.byteLength line.text

def span (line : Line) : Span := ⟨line.start, line.stop⟩

/-- Numbers and places consecutive lines, the first of which has the given number and start. -/
def place : Nat → Nat → List Text → List Line
  | _, _, [] => []
  | number, start, text :: rest =>
    ⟨number, start, text⟩ :: place (number + 1) (start + Text.byteLength text) rest

@[simp] theorem map_text_place (number start : Nat) (texts : List Text) :
    (place number start texts).map Line.text = texts := by
  induction texts generalizing number start with
  | nil => rfl
  | cons text rest ih => simp [place, ih]

@[simp] theorem length_place (number start : Nat) (texts : List Text) :
    (place number start texts).length = texts.length := by
  induction texts generalizing number start with
  | nil => rfl
  | cons text rest ih => simp [place, ih]

end Line

end Excerpt
