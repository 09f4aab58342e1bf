/-!
# Texts and byte offsets

A text is the list of its characters. Positions in a text are counted in bytes of UTF-8, so a
character takes up one to four positions, and only some positions are character boundaries.
Cutting a text at a position loses nothing: `takeBytes_append_dropBytes`.
-/
namespace Excerpt

/-- A text is the sequence of its characters. -/
abbrev Text := List Char

/-- A half-open range of byte positions. -/
structure Span where
  start : Nat
  stop : Nat
  deriving DecidableEq, Repr

namespace Text

/-- The number of bytes that a text takes up in UTF-8. -/
def byteLength : Text → Nat
  | [] => 0
  | c :: rest => c.utf8Size + byteLength rest

/-- The shortest beginning of a text that covers its first `n` bytes. -/
def takeBytes : Nat → Text → Text
  | 0, _ => []
  | _ + 1, [] => []
  | n + 1, c :: rest => c :: takeBytes (n + 1 - c.utf8Size) rest

def dropBytes : Nat → Text → Text
  | 0, text => text
  | _ + 1, [] => []
  | n + 1, c :: rest => dropBytes (n + 1 - c.utf8Size) rest

/-- A position is a boundary of a text when some beginning of the text has that many bytes. -/
def IsBoundary (text : Text) (n : Nat) : Prop :=
  byteLength (takeBytes n text) = n

instance (text : Text) (n : Nat) : Decidable (IsBoundary text n) :=
  inferInstanceAs (Decidable (_ = _))

/-- Cuts a text in two at byte `n`, if that is one of its boundaries. -/
def splitAtByte? (n : Nat) (text : Text) : Option (Text × Text) :=
  if IsBoundary text n then some (takeBytes n text, dropBytes n text) else none

def slice (text : Text) (span : Span) : Text :=
  takeBytes (span.stop - span.start) (dropBytes span.start text)

@[simp] theorem byteLength_nil : byteLength [] = 0 := rfl

@[simp] theorem byteLength_cons (c : Char) (rest : Text) :
    byteLength (c :: rest) = c.utf8Size + byteLength rest := rfl

@[simp] theorem byteLength_append (a b : Text) :
    byteLength (a ++ b) = byteLength a + byteLength b := by
  induction a with
  | nil => simp
  | cons c rest ih => simp [ih, Nat.add_assoc]

theorem byteLength_replicate {c : Char} (hc : c.utf8Size = 1) (n : Nat) :
    byteLength (List.replicate n c) = n := by
  induction n with
  | zero => rfl
  | succ n ih => rw [List.replicate_succ, byteLength_cons, ih, hc, Nat.add_comm]

theorem byteLength_pos {text : Text} (h : text ≠ []) : 0 < byteLength text := by
  cases text with
  | nil => exact absurd rfl h
  | cons c rest =>
    have hc := c.utf8Size_pos
    rw [byteLength_cons]
    omega

@[simp] theorem takeBytes_zero (text : Text) : takeBytes 0 text = [] := by
  simp [takeBytes]

@[simp] theorem dropBytes_zero (text : Text) : dropBytes 0 text = text := by
  simp [dropBytes]

/-- The two halves of a cut make up the text again. -/
theorem takeBytes_append_dropBytes (n : Nat) (text : Text) :
    takeBytes n text ++ dropBytes n text = text := by
  induction text generalizing n with
  | nil => cases n <;> simp [takeBytes, dropBytes]
  | cons c rest ih => cases n <;> simp [takeBytes, dropBytes, ih]

private theorem takeBytes_byteLength_add (a b : Text) (n : Nat) :
    takeBytes (byteLength a + n) (a ++ b) = a ++ takeBytes n b := by
  induction a with
  | nil => simp
  | cons c rest ih =>
    obtain ⟨m, hm⟩ : ∃ m, c.utf8Size = m + 1 := ⟨c.utf8Size - 1, by have := c.utf8Size_pos; omega⟩
    have : byteLength (c :: rest) + n = m + byteLength rest + n + 1 := by
      simp [hm]; omega
    rw [this, List.cons_append, takeBytes]
    have : m + byteLength rest + n + 1 - c.utf8Size = byteLength rest + n := by omega
    rw [this, ih, List.cons_append]

private theorem dropBytes_byteLength_add (a b : Text) (n : Nat) :
    dropBytes (byteLength a + n) (a ++ b) = dropBytes n b := by
  induction a with
  | nil => simp
  | cons c rest ih =>
    obtain ⟨m, hm⟩ : ∃ m, c.utf8Size = m + 1 := ⟨c.utf8Size - 1, by have := c.utf8Size_pos; omega⟩
    have : byteLength (c :: rest) + n = m + byteLength rest + n + 1 := by
      simp [hm]; omega
    rw [this, List.cons_append, dropBytes]
    have : m + byteLength rest + n + 1 - c.utf8Size = byteLength rest + n := by omega
    rw [this, ih]

theorem takeBytes_byteLength (a b : Text) : takeBytes (byteLength a) (a ++ b) = a := by
  simpa using takeBytes_byteLength_add a b 0

theorem dropBytes_byteLength (a b : Text) : dropBytes (byteLength a) (a ++ b) = b := by
  simpa using dropBytes_byteLength_add a b 0

theorem slice_append (a b c : Text) :
    slice (a ++ b ++ c) ⟨byteLength a, byteLength a + byteLength b⟩ = b := by
  rw [slice, List.append_assoc, dropBytes_byteLength, Nat.add_sub_cancel_left, takeBytes_byteLength]

end Text

end Excerpt
