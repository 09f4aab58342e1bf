import Excerpt.Proofs.TokenOrder
/-!
# Nested blocks

Of two blocks, the later one lies within the earlier one or starts behind it. The reason is that a
token which ends a block also ends every block that was opened inside.
-/
namespace Excerpt

def Span.IsWithin (inner outer : Span) : Prop :=
  outer.start ≤ inner.start ∧ inner.stop ≤ outer.stop

instance (inner outer : Span) : Decidable (inner.IsWithin outer) :=
  inferInstanceAs (Decidable (_ ∧ _))

namespace Token

/-- A token that ends a block ends the blocks inside, unless it is the one at the end of the text,
which may stand on the line of their keyword. -/
private theorem endsBlock_inner {source : Text} {outer inner last : Token}
    (hdef : inner.kind.isDefinition = true) (hinner : Precedes source outer inner)
    (hlast : Precedes source inner last) (hopen : outer.endsBlock inner = false)
    (hends : outer.endsBlock last = true) :
    inner.endsBlock last = true ∨ last = endOf source := by
  have hn := Kind.ne_newline_of_isDefinition hdef
  simp only [endsBlock, Bool.and_eq_true, bne_iff_ne, ne_eq, decide_eq_true_eq] at hends ⊢
  obtain ⟨⟨hkind, hdepth⟩, hline⟩ := hends
  have hplace : inner.line = outer.line ∨ outer.depth < inner.depth := by
    by_contra hnot
    rw [not_or, Nat.not_lt] at hnot
    simp [endsBlock, hn, hnot.1, hnot.2] at hopen
  rcases hplace with hsame | hdeeper
  · rcases hinner.depth_eq hsame.symm with heq | heq
    · exact .inl ⟨⟨hkind, by omega⟩, by omega⟩
    · rw [heq] at hdef
      cases hdef
  · by_cases hshared : inner.line = last.line
    · rcases hlast.depth_eq hshared with heq | heq
      · omega
      · exact .inr heq
    · exact .inl ⟨⟨hkind, by omega⟩, Ne.symm hshared⟩

namespace IsBlock

variable {dialect : Dialect} {source : Text}

/-- As stretches of tokens, two blocks are nested or apart. -/
theorem nested_or_apart {i j outerStop innerStop : Nat} {outer inner outerLast innerLast : Token}
    (houter : IsBlock (Listing.tokensOf dialect source) i outerStop outer outerLast)
    (hinner : IsBlock (Listing.tokensOf dialect source) j innerStop inner innerLast)
    (hij : i < j) : innerStop ≤ outerStop ∨ outerStop ≤ j := by
  by_cases hapart : outerStop ≤ j
  · exact .inr hapart
  · have hbound := (List.getElem?_eq_some_iff.1 hinner.last_eq).1
    left
    rcases houter.ends with hends | hend
    · have hopen := houter.inside j inner hij (by omega) hinner.first_eq
      have horder := precedes_of_lt hij houter.first_eq hinner.first_eq
      have hafter := precedes_of_lt (by omega) hinner.first_eq houter.last_eq
      rcases endsBlock_inner hinner.isDefinition horder hafter hopen hends with hboth | rfl
      · by_contra hlong
        have hinside := hinner.inside outerStop outerLast (by omega) (by omega) houter.last_eq
        rw [hboth] at hinside
        cases hinside
      · have hend := eq_last_of_endOf houter.last_eq
        omega
    · omega

end IsBlock

end Token

/-- Of two definitions, the block of the later one lies within that of the earlier one, or starts
where that has ended. -/
theorem Listing.blockSpan_laminar (dialect : Dialect) (hwidth : 1 ≤ dialect.indentWidth)
    (source : Text) {i j : Nat} (hij : i < j) {outer inner : Span}
    (houter : (do (← ofSource dialect source).blockSpan i) = .ok outer)
    (hinner : (do (← ofSource dialect source).blockSpan j) = .ok inner) :
    inner.IsWithin outer ∨ outer.stop ≤ inner.start := by
  rw [ofSource_eq_ok hwidth] at houter hinner
  obtain ⟨outerStop, outerKeyword, outerLast, hupper, rfl⟩ := exists_isBlock houter
  obtain ⟨innerStop, innerKeyword, innerLast, hlower, rfl⟩ := exists_isBlock hinner
  rcases hupper.nested_or_apart hlower hij with hnested | hapart
  · left
    constructor
    · exact Token.start_le_of_le hij.le hupper.first_eq hlower.first_eq
    · exact Token.start_le_of_le hnested hlower.last_eq hupper.last_eq
  · right
    exact Token.start_le_of_le hapart hupper.last_eq hlower.first_eq

theorem Listing.blockSpan_laminar_unfinished :
    let source := "class A:\n    x = 1\n    def f(): y".toList
    (do (← ofSource {} source).blockSpan 0) = .ok ⟨0, 33⟩ ∧
      (do (← ofSource {} source).blockSpan 8) = .ok ⟨23, 33⟩ ∧
      Span.IsWithin ⟨23, 33⟩ ⟨0, 33⟩ := by
  intro source
  have houter : (do (← ofSource {} source).blockSpan 0) = .ok ⟨0, 33⟩ := by decide +kernel
  have hinner : (do (← ofSource {} source).blockSpan 8) = .ok ⟨23, 33⟩ := by decide +kernel
  refine ⟨houter, hinner, ?_⟩
  exact (blockSpan_laminar {} (by decide) source (by decide) houter hinner).resolve_right (by decide)

end Excerpt
