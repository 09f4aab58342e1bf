import Excerpt.Text.Bytes
/-!
# The order of texts

Texts are ordered character by character, by code point, and a text comes before those it begins.
This is also the order of their bytes in UTF-8.
-/
namespace Excerpt.Text

def precedes : Text → Text → Bool
  | _, [] => false
  | [], _ :: _ => true
  | c :: s, d :: t => decide (c.toNat < d.toNat) || (c == d && precedes s t)

@[simp] theorem precedes_irrefl (s : Text) : precedes s s = false := by
  induction s with
  | nil => rfl
  | cons c s ih => simp [precedes, ih]

theorem precedes_trans {s t u : Text} (hst : precedes s t) (htu : precedes t u) :
    precedes s u := by
  induction s generalizing t u with
  | nil =>
    cases u with
    | nil => simp [precedes] at htu
    | cons => rfl
  | cons c s ih =>
    cases t with
    | nil => simp [precedes] at hst
    | cons d t =>
      cases u with
      | nil => simp [precedes] at htu
      | cons e u =>
        simp only [precedes, Bool.or_eq_true, decide_eq_true_eq, Bool.and_eq_true, beq_iff_eq]
          at hst htu ⊢
        rcases hst with hlt | ⟨rfl, hst⟩
        · rcases htu with hlt' | ⟨rfl, _⟩
          · exact .inl (Nat.lt_trans hlt hlt')
          · exact .inl hlt
        · rcases htu with hlt' | ⟨rfl, htu⟩
          · exact .inl hlt'
          · exact .inr ⟨rfl, ih hst htu⟩

theorem precedes_of_ne {s t : Text} (hst : precedes s t = false) (hne : s ≠ t) :
    precedes t s := by
  induction s generalizing t with
  | nil =>
    cases t with
    | nil => exact absurd rfl hne
    | cons => simp [precedes] at hst
  | cons c s ih =>
    cases t with
    | nil => rfl
    | cons d t =>
      simp only [precedes, Bool.or_eq_false_iff, decide_eq_false_iff_not, Bool.and_eq_false_imp,
        beq_iff_eq] at hst
      simp only [precedes, Bool.or_eq_true, decide_eq_true_eq, Bool.and_eq_true, beq_iff_eq]
      by_cases hcd : c = d
      · subst hcd
        exact .inr ⟨rfl, ih (hst.2 rfl) (fun h => hne (h ▸ rfl))⟩
      · have : c.toNat ≠ d.toNat := fun h => hcd (Char.ext (UInt32.toNat_inj.1 h))
        exact .inl (by omega)

end Excerpt.Text
