import Excerpt.Proofs.TokenOrder
import Mathlib.Data.List.Infix
/-!
# Parentheses in blocks

Blocks end by indentation alone, so a line that goes on inside parentheses ends a block if it is not
indented beyond the keyword. In a text whose parentheses match, a block that starts outside of all
parentheses therefore holds as many closing as opening ones exactly if the line that ends it does not
begin inside parentheses.
-/
namespace Excerpt

namespace Token

def opened (tokens : List Token) : Nat := tokens.countP (·.kind == .openParen)

def closed (tokens : List Token) : Nat := tokens.countP (·.kind == .closeParen)

/-- Whether tokens hold as many closing as opening parentheses. -/
def IsLevel (tokens : List Token) : Prop := opened tokens = closed tokens

instance (tokens : List Token) : Decidable (IsLevel tokens) :=
  inferInstanceAs (Decidable (_ = _))

/-- Whether the parentheses of tokens match. -/
structure IsBalanced (tokens : List Token) : Prop where
  closed_le : ∀ front, front <+: tokens → closed front ≤ opened front
  level : IsLevel tokens

instance (tokens : List Token) : Decidable (IsBalanced tokens) :=
  decidable_of_iff ((∀ front ∈ tokens.inits, closed front ≤ opened front) ∧ IsLevel tokens)
    ⟨fun h => ⟨fun front hfront => h.1 front ((List.mem_inits front tokens).2 hfront), h.2⟩,
      fun h => ⟨fun front hfront => h.closed_le front ((List.mem_inits front tokens).1 hfront),
        h.level⟩⟩

def liesIn (span : Span) (token : Token) : Bool :=
  decide (span.start ≤ token.start) && decide (token.stop ≤ span.stop)

/-- The index of the first token behind `index` that ends the block of the token there. -/
def endIndex? (tokens : List Token) (index : Nat) : Option Nat := do
  let keyword ← tokens[index]?
  let more ← (tokens.drop (index + 1)).findIdx? keyword.endsBlock
  return index + 1 + more

private theorem countP_stretch {α : Type} {items : List α} {p q : α → Bool} {i j : Nat}
    (hij : i ≤ j) (h : ∀ n item, items[n]? = some item → p item = true →
      (q item = true ↔ i ≤ n ∧ n < j)) :
    (items.take i).countP p + items.countP (fun item => p item && q item) =
      (items.take j).countP p := by
  -- Going along the items, the stretch from `i` to `j` moves up by one, until it has begun or ended.
  induction items generalizing i j with
  | nil => simp
  | cons item rest ih =>
    have hfirst := h 0 item rfl
    have hrest : ∀ n other, rest[n]? = some other → p other = true →
        (q other = true ↔ i ≤ n + 1 ∧ n + 1 < j) := by
      intro n other hother
      exact h (n + 1) other hother
    cases i with
    | zero =>
      cases j with
      | zero =>
        have hnone := ih (Nat.le_refl 0) (by simpa using hrest)
        cases hp : p item <;> simp_all
      | succ j =>
        have hsome := ih (Nat.zero_le j) (by simpa using hrest)
        cases hp : p item <;> simp_all
    | succ i =>
      cases j with
      | zero => omega
      | succ j =>
        have hsome := ih (Nat.le_of_succ_le_succ hij) (by simpa using hrest)
        rw [List.take_succ_cons, List.take_succ_cons, List.countP_cons, List.countP_cons,
          List.countP_cons, ← hsome]
        cases hp : p item with
        | false => simp
        | true =>
          have hq : q item = false := by simpa [hp] using hfirst
          rw [if_pos rfl, if_neg (by simp [hq])]
          omega

namespace IsBlock

theorem endIndex?_eq {tokens : List Token} {index stop : Nat} {keyword last : Token}
    (h : IsBlock tokens index stop keyword last) :
    endIndex? tokens index = if keyword.endsBlock last then some stop else none := by
  have hlt := h.lt
  obtain ⟨hstop, hlast⟩ := List.getElem?_eq_some_iff.1 h.last_eq
  split
  · next hends =>
    have hfind : (tokens.drop (index + 1)).findIdx? keyword.endsBlock =
        some (stop - (index + 1)) := by
      rw [List.findIdx?_eq_some_iff_getElem]
      refine ⟨by rw [List.length_drop]; omega, ?_, ?_⟩
      · simpa only [List.getElem_drop, Nat.add_sub_cancel' hlt, hlast] using hends
      · intro n hn
        rw [List.getElem_drop, Bool.not_eq_true]
        exact h.inside (index + 1 + n) _ (by omega) (by omega) (List.getElem?_eq_getElem _)
    simp only [endIndex?, h.first_eq, hfind, Option.bind_eq_bind, Option.bind_some, Option.pure_def,
      Nat.add_sub_cancel' hlt]
  · next hopen =>
    have hfind : (tokens.drop (index + 1)).findIdx? keyword.endsBlock = none := by
      rw [List.findIdx?_eq_none_iff]
      intro token hmem
      obtain ⟨n, hn⟩ := List.mem_iff_getElem?.1 hmem
      rw [List.getElem?_drop] at hn
      have hbound := (List.getElem?_eq_some_iff.1 hn).1
      have hend := h.ends.resolve_left hopen
      -- A block that nothing ends reaches to the last token, which is the only one not inside.
      by_cases hinside : index + 1 + n < stop
      · exact h.inside _ token (by omega) hinside hn
      · have heq : index + 1 + n = stop := by omega
        rw [heq, h.last_eq, Option.some.injEq] at hn
        rw [← hn]
        simpa using hopen
    simp only [endIndex?, h.first_eq, hfind, Option.bind_eq_bind, Option.bind_some,
      Option.bind_none]

section Bytes

variable {dialect : Dialect} {source : Text} {index stop : Nat} {keyword last : Token}

private theorem liesIn_iff (h : IsBlock (Listing.tokensOf dialect source) index stop keyword last)
    {n : Nat} {token : Token} (htoken : (Listing.tokensOf dialect source)[n]? = some token)
    (hne : token ≠ endOf source) :
    token.liesIn ⟨keyword.start, last.start⟩ = true ↔ index ≤ n ∧ n < stop := by
  have hend := getElem?_last dialect source
  have hfull : token.start < token.stop := by
    have hbound := (List.getElem?_eq_some_iff.1 htoken).1
    refine (precedes_of_lt ?_ htoken hend).start_lt
    by_contra hlast
    have heq : n = (Listing.tokensOf dialect source).length - 1 := by omega
    rw [heq, hend, Option.some.injEq] at htoken
    exact hne htoken.symm
  simp only [liesIn, Bool.and_eq_true, decide_eq_true_eq]
  constructor
  · intro hlies
    constructor
    · by_contra hbefore
      have hstop := (precedes_of_lt (by omega) htoken h.first_eq).stop_le
      omega
    · by_contra hbehind
      have horder := start_le_of_le (by omega) h.last_eq htoken
      omega
  · intro hinside
    constructor
    · exact start_le_of_le hinside.1 h.first_eq htoken
    · exact (precedes_of_lt hinside.2 htoken h.last_eq).stop_le

private theorem countP_liesIn (h : IsBlock (Listing.tokensOf dialect source) index stop keyword last)
    {p : Token → Bool} (hp : p (endOf source) = false) :
    ((Listing.tokensOf dialect source).take index).countP p +
        ((Listing.tokensOf dialect source).filter (liesIn ⟨keyword.start, last.start⟩)).countP p =
      ((Listing.tokensOf dialect source).take stop).countP p := by
  rw [List.countP_filter]
  apply countP_stretch h.lt.le
  intro n token htoken hpt
  apply liesIn_iff h htoken
  intro heq
  rw [heq, hp] at hpt
  cases hpt

private theorem opened_closed (h : IsBlock (Listing.tokensOf dialect source) index stop keyword last) :
    let inside := (Listing.tokensOf dialect source).filter (liesIn ⟨keyword.start, last.start⟩)
    opened ((Listing.tokensOf dialect source).take index) + opened inside =
        opened ((Listing.tokensOf dialect source).take stop) ∧
      closed ((Listing.tokensOf dialect source).take index) + closed inside =
        closed ((Listing.tokensOf dialect source).take stop) :=
  ⟨countP_liesIn h rfl, countP_liesIn h rfl⟩

theorem closed_le_opened (h : IsBlock (Listing.tokensOf dialect source) index stop keyword last)
    (hbalanced : IsBalanced (Listing.tokensOf dialect source))
    (hbefore : IsLevel ((Listing.tokensOf dialect source).take index)) :
    closed ((Listing.tokensOf dialect source).filter (liesIn ⟨keyword.start, last.start⟩)) ≤
      opened ((Listing.tokensOf dialect source).filter (liesIn ⟨keyword.start, last.start⟩)) := by
  obtain ⟨hopened, hclosed⟩ := h.opened_closed
  have hfront := hbalanced.closed_le _ (List.take_prefix stop _)
  rw [IsLevel] at hbefore
  omega

/-- What a block leaves open is what is open where it ends. -/
theorem isLevel_iff (h : IsBlock (Listing.tokensOf dialect source) index stop keyword last)
    (hbefore : IsLevel ((Listing.tokensOf dialect source).take index)) :
    IsLevel ((Listing.tokensOf dialect source).filter (liesIn ⟨keyword.start, last.start⟩)) ↔
      IsLevel ((Listing.tokensOf dialect source).take stop) := by
  obtain ⟨hopened, hclosed⟩ := h.opened_closed
  rw [IsLevel] at hbefore
  rw [IsLevel, IsLevel]
  omega

end Bytes

end IsBlock

theorem isLevel_take_last {dialect : Dialect} {source : Text} {stop : Nat}
    (hlevel : IsLevel (Listing.tokensOf dialect source))
    (hstop : stop + 1 = (Listing.tokensOf dialect source).length) :
    IsLevel ((Listing.tokensOf dialect source).take stop) := by
  have htake : (Listing.tokensOf dialect source).take stop =
      ofLines dialect 1 0 1 (Text.splitLines source) := by
    rw [show stop = (Listing.tokensOf dialect source).length - 1 by omega, ← List.dropLast_eq_take,
      tokensOf_eq, List.dropLast_concat]
  rw [tokensOf_eq] at hlevel
  rw [htake]
  simpa [IsLevel, opened, closed, endOf] using hlevel

end Token

/-- If the parentheses of a text match, and those before a definition do, then the block of the
definition holds at least as many opening as closing ones. It holds as many of both exactly if the
first token below that is no deeper than the keyword, where there is one, stands outside of all
parentheses. -/
theorem Listing.parens_blockSpan (dialect : Dialect) (hwidth : 1 ≤ dialect.indentWidth)
    (source : Text) (hbalanced : Token.IsBalanced (tokensOf dialect source)) {index : Nat}
    (hbefore : Token.IsLevel ((tokensOf dialect source).take index)) {span : Span}
    (hblock : (do (← ofSource dialect source).blockSpan index) = .ok span) :
    let tokens := tokensOf dialect source
    let inside := tokens.filter (Token.liesIn span)
    Token.closed inside ≤ Token.opened inside ∧
      (Token.IsLevel inside ↔
        ∀ stop, Token.endIndex? tokens index = some stop → Token.IsLevel (tokens.take stop)) := by
  rw [ofSource_eq_ok hwidth] at hblock
  obtain ⟨stop, keyword, last, hstretch, rfl⟩ := exists_isBlock hblock
  intro tokens inside
  refine ⟨hstretch.closed_le_opened hbalanced hbefore, ?_⟩
  rw [hstretch.isLevel_iff hbefore, hstretch.endIndex?_eq]
  cases hends : keyword.endsBlock last with
  | true => simp [tokens]
  | false =>
    have hend := hstretch.ends.resolve_left (by simp [hends])
    have hlevel := Token.isLevel_take_last hbalanced.level hend
    simp [hlevel]

/-- A closing parenthesis in the column of the keyword ends the block that it belongs to. -/
theorem Listing.parens_blockSpan_hanging :
    let source := "def f(\n):\n    pass\n".toList
    Token.IsBalanced (tokensOf {} source) ∧ Token.IsLevel ((tokensOf {} source).take 0) ∧
      (do (← ofSource {} source).blockSpan 0) = .ok ⟨0, 7⟩ ∧
      ¬ Token.IsLevel ((tokensOf {} source).filter (Token.liesIn ⟨0, 7⟩)) := by
  decide +kernel

theorem Listing.parens_blockSpan_indented :
    let source := "g()\ndef f(\n\tx):\n\tx\ny(\n)\n".toList
    Token.IsBalanced (tokensOf {} source) ∧ Token.IsLevel ((tokensOf {} source).take 4) ∧
      (do (← ofSource {} source).blockSpan 4) = .ok ⟨4, 19⟩ ∧
      Token.IsLevel ((tokensOf {} source).filter (Token.liesIn ⟨4, 19⟩)) := by
  intro source
  have hbalanced : Token.IsBalanced (tokensOf {} source) := by decide +kernel
  have hbefore : Token.IsLevel ((tokensOf {} source).take 4) := by decide +kernel
  have hblock : (do (← ofSource {} source).blockSpan 4) = .ok ⟨4, 19⟩ := by decide +kernel
  have hend : Token.endIndex? (tokensOf {} source) 4 = some 14 := by decide +kernel
  have hstop : Token.IsLevel ((tokensOf {} source).take 14) := by decide +kernel
  refine ⟨hbalanced, hbefore, hblock, ?_⟩
  apply (parens_blockSpan {} (by decide) source hbalanced hbefore hblock).2.2
  intro stop hstop'
  rw [hend, Option.some.injEq] at hstop'
  rwa [← hstop']

end Excerpt
