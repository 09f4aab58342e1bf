import Excerpt.Text.Order
import Mathlib.Data.List.Lex
import Mathlib.Tactic.SplitIfs
/-!
# The order of bytes

Texts are ordered as their bytes in UTF-8 are. The bytes of a character are a leading one, from a
range of its own for each number of bytes, and then digits to the base 64. So of two characters the
one with the smaller code point has the smaller byte where they first differ, and no character
begins another.
-/
namespace Excerpt

def Text.bytes (text : Text) : List UInt8 := text.flatMap String.utf8EncodeChar

def Text.BytesPrecede (first second : Text) : Prop :=
  List.Lex (· < ·) first.bytes second.bytes

/-! ### Codes of numbers -/

namespace Utf8

/-- Whether the codes of the numbers below a bound are ordered as the numbers are, whatever bytes
follow, and their leading bytes lie within a range. -/
structure IsOrdered (bound low high : Nat) (code : Nat → List UInt8) : Prop where
  lead : ∀ n < bound, ∃ byte rest, code n = byte :: rest ∧ low ≤ byte.toNat ∧ byte.toNat < high
  lex : ∀ m n, m < n → n < bound → ∀ behind after,
    List.Lex (· < ·) (code m ++ behind) (code n ++ after)

/-- The code of the numbers below `count` by one byte. -/
def single (count base n : Nat) : List UInt8 := [UInt8.ofNat (n % count + base)]

/-- The code with one more byte for the last digit to the base 64. -/
def trail (code : Nat → List UInt8) (n : Nat) : List UInt8 :=
  code (n / 64) ++ [UInt8.ofNat (n % 64 + 128)]

/-- The code that goes over to another one behind a number. -/
def join (last : Nat) (lower upper : Nat → List UInt8) (n : Nat) : List UInt8 :=
  if n ≤ last then lower n else upper n

/-- The code of the code points by one to four bytes. -/
def code : Nat → List UInt8 :=
  join 127 (single 128 0) <| join 2047 (trail (single 32 192)) <|
    join 65535 (trail (trail (single 16 224))) (trail (trail (trail (single 8 240))))

theorem isOrdered_single {count base low high : Nat} (hlow : low ≤ base)
    (hhigh : base + count ≤ high) (hbyte : high ≤ 256) :
    IsOrdered count low high (single count base) := by
  have hvalue : ∀ n < count, (UInt8.ofNat (n % count + base)).toNat = n + base := by
    intro n hn
    rw [UInt8.toNat_ofNat', Nat.mod_eq_of_lt hn, Nat.mod_eq_of_lt (by omega)]
  constructor
  case lead =>
    intro n hn
    refine ⟨_, _, rfl, ?_⟩
    rw [hvalue n hn]
    omega
  case lex =>
    intro m n hlt hn behind after
    apply List.Lex.rel
    rw [UInt8.lt_iff_toNat_lt, hvalue m (hlt.trans hn), hvalue n hn]
    omega

/-- Numbers are ordered by all of their digits but the last one, and where these agree by the last
one. -/
theorem IsOrdered.trail {bound low high : Nat} {code : Nat → List UInt8}
    (h : IsOrdered bound low high code) : IsOrdered (bound * 64) low high (trail code) := by
  constructor
  case lead =>
    intro n hn
    obtain ⟨byte, rest, hcode, hrange⟩ := h.lead (n / 64) (by omega)
    exact ⟨byte, rest ++ [UInt8.ofNat (n % 64 + 128)], by rw [Utf8.trail, hcode]; rfl, hrange⟩
  case lex =>
    intro m n hlt hn behind after
    rw [Utf8.trail, Utf8.trail, List.append_assoc, List.append_assoc]
    by_cases hfront : m / 64 = n / 64
    · rw [hfront]
      apply List.Lex.append_left
      apply List.Lex.rel
      rw [UInt8.lt_iff_toNat_lt, UInt8.toNat_ofNat', UInt8.toNat_ofNat']
      omega
    · exact h.lex _ _ (by omega) (by omega) _ _

theorem IsOrdered.join {last bound low middle high : Nat} {lower upper : Nat → List UInt8}
    (hlower : IsOrdered (last + 1) low middle lower) (hupper : IsOrdered bound middle high upper)
    (hlow : low ≤ middle) (hhigh : middle ≤ high) :
    IsOrdered bound low high (join last lower upper) := by
  constructor
  case lead =>
    intro n hn
    rw [Utf8.join]
    split
    · obtain ⟨byte, rest, hcode, hrange⟩ := hlower.lead n (by omega)
      exact ⟨byte, rest, hcode, by omega⟩
    · obtain ⟨byte, rest, hcode, hrange⟩ := hupper.lead n hn
      exact ⟨byte, rest, hcode, by omega⟩
  case lex =>
    intro m n hlt hn behind after
    rw [Utf8.join, Utf8.join]
    split_ifs with hm hn'
    · exact hlower.lex m n hlt (by omega) behind after
    · -- The numbers have codes of different kinds, and the leading bytes decide.
      obtain ⟨byte, rest, hcode, hrange⟩ := hlower.lead m (by omega)
      obtain ⟨other, more, hother, hrange'⟩ := hupper.lead n hn
      rw [hcode, hother]
      apply List.Lex.rel
      rw [UInt8.lt_iff_toNat_lt]
      omega
    · omega
    · exact hupper.lex m n hlt hn behind after

theorem isOrdered_code : IsOrdered (8 * 64 * 64 * 64) 0 256 code := by
  have hone : IsOrdered 128 0 192 (single 128 0) :=
    isOrdered_single (by decide) (by decide) (by decide)
  have htwo : IsOrdered (32 * 64) 192 224 (trail (single 32 192)) :=
    (isOrdered_single (by decide) (by decide) (by decide)).trail
  have hthree : IsOrdered (16 * 64 * 64) 224 240 (trail (trail (single 16 224))) :=
    (isOrdered_single (by decide) (by decide) (by decide)).trail.trail
  have hfour : IsOrdered (8 * 64 * 64 * 64) 240 256 (trail (trail (trail (single 8 240)))) :=
    (isOrdered_single (by decide) (by decide) (by decide)).trail.trail.trail
  have hwide : IsOrdered (8 * 64 * 64 * 64) 224 256
      (join 65535 (trail (trail (single 16 224))) (trail (trail (trail (single 8 240))))) :=
    hthree.join hfour (by decide) (by decide)
  exact hone.join (htwo.join hwide (by decide) (by decide)) (by decide) (by decide)

theorem utf8EncodeChar_eq (c : Char) : String.utf8EncodeChar c = code c.toNat := by
  have hvalue : c.val.toNat = c.toNat := rfl
  simp only [String.utf8EncodeChar, hvalue, code, join, trail, single, Nat.div_div_eq_div_mul]
  split_ifs with hone
  · rw [Nat.mod_eq_of_lt (Nat.lt_succ_of_le hone), Nat.add_zero]
  · rfl
  · rfl
  · rfl

theorem lex_utf8EncodeChar {c d : Char} (h : c.toNat < d.toNat) (behind after : List UInt8) :
    List.Lex (· < ·) (String.utf8EncodeChar c ++ behind) (String.utf8EncodeChar d ++ after) := by
  have hbound : d.toNat < 8 * 64 * 64 * 64 := by
    have hvalid : d.toNat.isValidChar := d.valid
    rw [Nat.isValidChar] at hvalid
    omega
  rw [utf8EncodeChar_eq, utf8EncodeChar_eq]
  exact isOrdered_code.lex _ _ h hbound behind after

end Utf8

/-! ### Texts -/

namespace Text

theorem bytesPrecede_of_precedes {first second : Text} (h : precedes first second = true) :
    first.BytesPrecede second := by
  induction first generalizing second with
  | nil =>
    cases second with
    | nil => simp [precedes] at h
    | cons d second =>
      obtain ⟨byte, rest, hbytes⟩ := List.exists_cons_of_ne_nil (@String.utf8EncodeChar_ne_nil d)
      rw [BytesPrecede, bytes, bytes, List.flatMap_cons, hbytes]
      exact List.Lex.nil
  | cons c first ih =>
    cases second with
    | nil => simp [precedes] at h
    | cons d second =>
      simp only [precedes, Bool.or_eq_true, decide_eq_true_eq, Bool.and_eq_true, beq_iff_eq] at h
      rcases h with hlt | ⟨rfl, hrest⟩
      · exact Utf8.lex_utf8EncodeChar hlt (bytes first) (bytes second)
      · exact (ih hrest).append_left _ (String.utf8EncodeChar c)

theorem BytesPrecede.irrefl (text : Text) : ¬ text.BytesPrecede text :=
  List.lex_irrefl UInt8.lt_irrefl text.bytes

theorem BytesPrecede.trans {first second third : Text} (h : first.BytesPrecede second)
    (h' : second.BytesPrecede third) : first.BytesPrecede third :=
  List.lex_trans UInt8.lt_trans h h'

/-- Texts are ordered as their bytes are. -/
theorem precedes_iff_bytesPrecede {first second : Text} :
    precedes first second = true ↔ first.BytesPrecede second := by
  refine ⟨bytesPrecede_of_precedes, ?_⟩
  intro h
  by_contra hnot
  rw [Bool.not_eq_true] at hnot
  have hne : first ≠ second := by
    rintro rfl
    exact BytesPrecede.irrefl first h
  exact BytesPrecede.irrefl first (h.trans (bytesPrecede_of_precedes (precedes_of_ne hnot hne)))

end Text

end Excerpt
