import Excerpt.Proofs.Queries
import Mathlib.Algebra.Group.Nat.Defs
/-!
# Refused indices

A query refuses an index that no token has. The block of a definition is refused also where no
definition stands, and decorators also to the token at the end, if a final newline, or an empty
text, leaves it without a line. Nothing else is refused.
-/
namespace Excerpt

/-- Whether an answer is an error of a sort. -/
def Fails {α : Type} (sort : Error → Bool) (result : Except Error α) : Prop :=
  ∃ e, result = .error e ∧ sort e = true

def Error.isOutOfRange : Error → Bool
  | outOfRange _ _ _ => true
  | _ => false

def Error.isNotFound : Error → Bool
  | notFound _ _ => true
  | _ => false

namespace Listing

/-- Whether a class or function keyword stands at an index, directly followed by an identifier. -/
def OpensBlock (listing : Listing) (index : Nat) : Prop :=
  (∃ keyword, listing.tokens[index]? = some keyword ∧
      (keyword.kind = .classKeyword ∨ keyword.kind = .functionKeyword)) ∧
    ∃ name, listing.tokens[index + 1]? = some name ∧ name.kind = .identifier

/-- Whether no line has the token at an index: there is none, or it is the one at the end, behind
the end of the last line. -/
def LacksLine (source : Text) (listing : Listing) (index : Nat) : Prop :=
  listing.tokens.length ≤ index ∨ index + 1 = listing.tokens.length ∧ Text.EndsLine source

/-- Whether the queries about a listing fail exactly where an index has no token, no definition or
no line. -/
structure FailsExactly (source : Text) (listing : Listing) : Prop where
  last_eq : listing.tokens.getLast? = some (Token.endOf source)
  ancestor : ∀ index,
    Fails Error.isOutOfRange (listing.ancestor index) ↔ listing.tokens.length ≤ index
  blockSpan : ∀ index,
    Fails Error.isOutOfRange (listing.blockSpan index) ↔ listing.tokens.length ≤ index
  block_notFound : ∀ index, Fails Error.isNotFound (listing.blockSpan index) ↔
    index < listing.tokens.length ∧ ¬ listing.OpensBlock index
  decoratorSpan : ∀ index,
    Fails Error.isOutOfRange (listing.decoratorSpan index) ↔ listing.LacksLine source index
  decoratorSpan_ok : ∀ index, ¬ listing.LacksLine source index →
    ∃ span, listing.decoratorSpan index = .ok span
  decorators : ∀ index,
    Fails Error.isOutOfRange (listing.decorators index) ↔ listing.LacksLine source index
  decorators_ok : ∀ index, ¬ listing.LacksLine source index →
    ∃ text, listing.decorators index = .ok text

end Listing

/-! ### Errors -/

section Fails

variable {α β : Type} {sort : Error → Bool}

@[simp] theorem not_fails_ok (value : α) : ¬ Fails sort (.ok value) := by
  simp [Fails]

@[simp] theorem fails_error_iff {e : Error} :
    Fails sort (.error e : Except Error α) ↔ sort e = true := by
  simp [Fails]

theorem fails_map_iff {result : Except Error α} {f : α → β} :
    Fails sort (result.map f) ↔ Fails sort result := by
  cases result with
  | error e => simp [Except.map]
  | ok value => simp [Except.map]

end Fails

namespace Listing

section Any

variable {listing : Listing} {index : Nat}

theorem tokenAt_of_le (h : listing.tokens.length ≤ index) :
    listing.tokenAt index = .error (.outOfRange .tokens index listing.tokens.length) := by
  rw [tokenAt, List.getElem?_eq_none h]

theorem exists_tokenAt (h : index < listing.tokens.length) :
    ∃ token, listing.tokens[index]? = some token ∧ listing.tokenAt index = .ok token :=
  ⟨_, List.getElem?_eq_getElem h, tokenAt_eq_ok_iff.mpr (List.getElem?_eq_getElem h)⟩

theorem fails_tokenAt_bind_iff {α : Type} {next : Token → Except Error α}
    (h : ∀ token, ¬ Fails Error.isOutOfRange (next token)) :
    Fails Error.isOutOfRange (listing.tokenAt index >>= next) ↔ listing.tokens.length ≤ index := by
  rcases Nat.lt_or_ge index listing.tokens.length with hlt | hge
  · obtain ⟨token, -, htoken⟩ := exists_tokenAt hlt
    rw [htoken]
    exact iff_of_false (h token) (Nat.not_le.mpr hlt)
  · rw [tokenAt_of_le hge]
    exact iff_of_true (fails_error_iff.mpr rfl) hge

theorem not_fails_notFound {α : Type} {kind : Kind} {name : Text} :
    ¬ Fails Error.isOutOfRange (throw (.notFound kind name) : Except Error α) :=
  fun hfails => Bool.false_ne_true (fails_error_iff.mp hfails)

theorem fails_ancestor_iff :
    Fails Error.isOutOfRange (listing.ancestor index) ↔ listing.tokens.length ≤ index := by
  apply fails_tokenAt_bind_iff
  intro token
  split
  · exact not_fails_ok _
  · split
    · exact not_fails_ok _
    · exact not_fails_notFound

theorem opensBlock_iff : listing.OpensBlock index ↔
    (listing.tokens[index]?.any (·.kind.isDefinition) && listing.isIdentifierAt (index + 1)) =
      true := by
  have hdef : ∀ kind : Kind,
      kind.isDefinition = true ↔ kind = .classKeyword ∨ kind = .functionKeyword := by
    intro kind
    cases kind <;> simp [Kind.isDefinition]
  simp [OpensBlock, hdef, isIdentifierAt, Option.any_eq_true]

instance : Decidable (listing.OpensBlock index) := decidable_of_iff _ opensBlock_iff.symm

theorem fails_blockSpan_iff :
    Fails Error.isOutOfRange (listing.blockSpan index) ↔ listing.tokens.length ≤ index := by
  apply fails_tokenAt_bind_iff
  intro keyword
  split
  · exact not_fails_ok _
  · exact not_fails_notFound

theorem notFound_blockSpan_iff :
    Fails Error.isNotFound (listing.blockSpan index) ↔
      index < listing.tokens.length ∧ ¬ listing.OpensBlock index := by
  rw [blockSpan]
  rcases Nat.lt_or_ge index listing.tokens.length with hlt | hge
  · obtain ⟨keyword, hget, hkeyword⟩ := exists_tokenAt hlt
    rw [hkeyword, opensBlock_iff, hget, Option.any_some]
    simp only [bind, Except.bind]
    split
    · next hpair => exact iff_of_false (not_fails_ok _) fun hnot => hnot.2 hpair
    · next hpair => exact iff_of_true (fails_error_iff.mpr rfl) ⟨hlt, hpair⟩
  · rw [tokenAt_of_le hge]
    apply iff_of_false
    · exact fun hfails => Bool.false_ne_true (fails_error_iff.mp hfails)
    · exact fun hnot => Nat.not_lt.mpr hge hnot.1

theorem exists_decoratorSpan {token : Token} (htoken : listing.tokens[index]? = some token)
    (hline : token.line - 1 < listing.lines.length) :
    ∃ span, listing.decoratorSpan index = .ok span := by
  have hupper : token.line - 1 - listing.decoratorCount token.column (token.line - 1) <
      listing.lines.length := (Nat.sub_le _ _).trans_lt hline
  have hfirst := lineAt_eq_ok_iff.mpr (List.getElem?_eq_getElem hupper)
  have hlast := lineAt_eq_ok_iff.mpr (List.getElem?_eq_getElem hline)
  rw [decoratorSpan, tokenAt_eq_ok_iff.mpr htoken]
  simp only [bind, Except.bind, hfirst, hlast]
  exact ⟨_, rfl⟩

theorem lineAt_of_le (h : listing.lines.length ≤ index) :
    listing.lineAt index = .error (.outOfRange .lines index listing.lines.length) := by
  rw [lineAt, List.getElem?_eq_none h]

theorem fails_decoratorSpan {token : Token} (htoken : listing.tokens[index]? = some token)
    (hline : listing.lines.length ≤ token.line - 1) :
    Fails Error.isOutOfRange (listing.decoratorSpan index) := by
  rw [decoratorSpan, tokenAt_eq_ok_iff.mpr htoken]
  simp only [bind, Except.bind]
  rcases Nat.lt_or_ge (token.line - 1 - listing.decoratorCount token.column (token.line - 1))
    listing.lines.length with hlt | hge
  · rw [lineAt_eq_ok_iff.mpr (List.getElem?_eq_getElem hlt), lineAt_of_le hline]
    exact fails_error_iff.mpr rfl
  · rw [lineAt_of_le hge]
    exact fails_error_iff.mpr rfl

end Any

variable (dialect : Dialect) (source : Text) (index : Nat)

theorem exists_decoratorSpan_of_not_lacksLine
    (h : ¬ (read dialect source).LacksLine source index) :
    ∃ span, (read dialect source).decoratorSpan index = .ok span := by
  obtain ⟨hlt, hlast⟩ := not_or.mp h
  obtain ⟨token, htoken, -⟩ := exists_tokenAt (Nat.lt_of_not_le hlt)
  exact exists_decoratorSpan htoken ((line_lt_length_iff htoken).mpr hlast)

theorem fails_decoratorSpan_iff :
    Fails Error.isOutOfRange ((read dialect source).decoratorSpan index) ↔
      (read dialect source).LacksLine source index := by
  constructor
  · intro hfails
    by_contra hnot
    obtain ⟨span, hspan⟩ := exists_decoratorSpan_of_not_lacksLine dialect source index hnot
    rw [hspan] at hfails
    exact not_fails_ok span hfails
  · intro h
    rcases h with hge | hlast
    · rw [decoratorSpan, tokenAt_of_le hge]
      exact fails_error_iff.mpr rfl
    · obtain ⟨token, htoken, -⟩ := exists_tokenAt (Nat.lt_of_succ_le hlast.1.le)
      apply fails_decoratorSpan htoken
      apply Nat.le_of_not_lt
      intro hlt
      exact (line_lt_length_iff htoken).mp hlt hlast

/-- The queries about the listing of a text refuse an index exactly where it has no token, no
definition or no line. -/
theorem failsExactly_read (dialect : Dialect) (source : Text) :
    (read dialect source).FailsExactly source := by
  constructor
  case last_eq => simp [Token.tokensOf_eq]
  case ancestor => exact fun index => fails_ancestor_iff
  case blockSpan => exact fun index => fails_blockSpan_iff
  case block_notFound => exact fun index => notFound_blockSpan_iff
  case decoratorSpan => exact fails_decoratorSpan_iff dialect source
  case decoratorSpan_ok => exact exists_decoratorSpan_of_not_lacksLine dialect source
  case decorators =>
    intro index
    rw [Listing.decorators, fails_map_iff]
    exact fails_decoratorSpan_iff dialect source index
  case decorators_ok =>
    intro index hline
    obtain ⟨span, hspan⟩ := exists_decoratorSpan_of_not_lacksLine dialect source index hline
    rw [Listing.decorators, hspan]
    exact ⟨_, rfl⟩

/-- No query about the listing of a text gets stuck, and an index is refused exactly where it has no
token, no definition or no line. -/
theorem ofSource_isSafe (dialect : Dialect) (hwidth : 1 ≤ dialect.indentWidth) (source : Text) :
    ∃ listing, ofSource dialect source = .ok listing ∧ listing.IsSafe ∧
      listing.FailsExactly source :=
  ⟨read dialect source, ofSource_eq_ok hwidth source, isSafe_read dialect source,
    failsExactly_read dialect source⟩

theorem ofSource_isSafe_wide :
    let source := "@é\ndef f(x):\n\t'ß'\n".toList
    ∃ listing, ofSource {} source = .ok listing ∧
      Guarded.decorators listing 3 = .answer (.ok "@é\n".toList) ∧
      Guarded.snippet listing true (.ofFunction "f".toList none) =
        .answer (.ok (.ofFunction "f".toList source)) ∧
      Fails Error.isNotFound (listing.blockSpan 4) ∧
      Fails Error.isOutOfRange (listing.decorators 12) ∧
      Fails Error.isOutOfRange (listing.ancestor (2 ^ 64 - 1)) := by
  intro source
  obtain ⟨listing, hlisting, hsafe, hexact⟩ := ofSource_isSafe {} (by decide) source
  obtain rfl := Except.ok.inj hlisting
  have hlength : (read {} source).tokens.length = 13 := by decide +kernel
  have hname : ¬ (read {} source).OpensBlock 4 := by decide +kernel
  refine ⟨_, rfl, ?_, ?_, ?_, ?_, ?_⟩
  · rw [hsafe.decorators]
    exact congrArg Guarded.answer (by decide +kernel)
  · rw [hsafe.snippet]
    exact congrArg Guarded.answer (by decide +kernel)
  · exact (hexact.block_notFound 4).mpr ⟨by omega, hname⟩
  · exact (hexact.decorators 12).mpr (.inr ⟨hlength.symm, .inr rfl⟩)
  · exact (hexact.ancestor _).mpr (by omega)

end Listing

end Excerpt
