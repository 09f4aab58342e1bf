import Excerpt.Proofs.Vocabulary
import Mathlib.Data.List.Forall2
/-!
# What a keyword table decides

Two keyword tables give a source the same tokens up to their kinds, and these differ at words and at
`@` only. A table may make newlines or ends of words, or let `@` be ignored: the lines, the
boundaries and the decorators above a token are read off the text, so none of this reaches them.
-/
namespace Excerpt

/-- Whether a token and its recast differ in nothing but their kinds, which two tables have decided
on if the literal is a word or `@`, and which are the same otherwise. -/
structure Token.IsRecast (first second : Keywords) (token recast : Token) : Prop where
  same : recast = { token with kind := recast.kind }
  readable : token.literal.isReadable = true →
    token.kind = first.classify token.literal ∧ recast.kind = second.classify token.literal
  unreadable : token.literal.isReadable = false → recast.kind = token.kind

/-- What the listings of one source by two tables have in common. -/
structure Listing.IsRecast (first second : Keywords) (listing recast : Listing) : Prop where
  tokens : List.Forall₂ (Token.IsRecast first second) listing.tokens recast.tokens
  lines : recast.lines = listing.lines
  boundaries : recast.boundaries = listing.boundaries
  decoratorSpan : ∀ index, recast.decoratorSpan index = listing.decoratorSpan index

namespace Lexeme

theorem isReadable_iff_shape {text : Text} {lexeme : Lexeme} (h : lexeme ∈ scan text) :
    lexeme.text.isReadable = true ↔ lexeme.shape = .atSign ∨ lexeme.shape = .word := by
  refine ⟨?_, isReadable_of_shape h⟩
  intro hreadable
  obtain ⟨c, rest, rfl, -⟩ := exists_of_mem_scan h
  rcases Text.isReadable_cons_iff.mp hreadable with ⟨rfl, -⟩ | ⟨hstarts, -⟩
  · exact .inl rfl
  · exact .inr (Shape.ofChar_of_startsWord hstarts)

theorem kind?_eq_of_shape {lexeme : Lexeme}
    (h : ¬ (lexeme.shape = .atSign ∨ lexeme.shape = .word)) (first second : Keywords) :
    lexeme.kind? second = lexeme.kind? first := by
  cases hshape : lexeme.shape
  case atSign | word => simp [hshape] at h
  all_goals rw [kind?, kind?, hshape]

end Lexeme

namespace Token

variable {first second : Keywords}

theorem isRecast_place {text : Text} {lexemes : List Lexeme}
    (h : ∀ lexeme ∈ lexemes, lexeme ∈ Lexeme.scan text) (row : Row) (offset : Nat) :
    List.Forall₂ (IsRecast first second) (place first row offset lexemes)
      (place second row offset lexemes) := by
  induction lexemes generalizing offset with
  | nil => exact .nil
  | cons lexeme rest ih =>
    obtain ⟨hscan, hrest⟩ := List.forall_mem_cons.mp h
    have hnext := ih hrest (offset + Text.byteLength lexeme.text)
    have hreadable := Lexeme.isReadable_iff_shape hscan
    rw [place, place]
    by_cases hshape : lexeme.shape = .atSign ∨ lexeme.shape = .word
    · rw [Lexeme.kind?_of_shape hshape, Lexeme.kind?_of_shape hshape]
      refine .cons ?_ hnext
      constructor
      case same => rfl
      case readable => exact fun _ => ⟨rfl, rfl⟩
      case unreadable =>
        intro (hliteral : lexeme.text.isReadable = false)
        rw [hreadable.mpr hshape] at hliteral
        cases hliteral
    · rw [Lexeme.kind?_eq_of_shape hshape first second]
      cases lexeme.kind? first with
      | none => exact hnext
      | some kind =>
        refine .cons ?_ hnext
        constructor
        case same => rfl
        case readable => exact fun hliteral => absurd (hreadable.mp hliteral) hshape
        case unreadable => exact fun _ => rfl

theorem isRecast_endOf (source : Text) :
    (endOf source).IsRecast first second (endOf source) := by
  constructor
  case same => rfl
  case readable =>
    intro hliteral
    cases hliteral
  case unreadable => exact fun _ => rfl

theorem isRecast_tokensOf (width : Nat) (source : Text) :
    List.Forall₂ (IsRecast first second) (Listing.tokensOf ⟨width, first⟩ source)
      (Listing.tokensOf ⟨width, second⟩ source) := by
  apply List.rel_append
  · have hrows : List.Forall₂ Eq (Listing.rowsOf width source) (Listing.rowsOf width source) :=
      List.forall₂_refl _
    apply List.rel_flatMap hrows
    rintro row _ rfl
    exact isRecast_place (fun _ hmem => hmem) row 0
  · exact .cons (isRecast_endOf source) .nil

end Token

namespace Listing

variable {first second : Keywords} {listing recast : Listing}

theorem tokenAt_recast (h : List.Forall₂ (Token.IsRecast first second) listing.tokens recast.tokens)
    (index : Nat) :
    (∃ error, listing.tokenAt index = .error error ∧ recast.tokenAt index = .error error) ∨
      ∃ token other, listing.tokenAt index = .ok token ∧ recast.tokenAt index = .ok other ∧
        token.IsRecast first second other := by
  have hlength := h.length_eq
  by_cases hindex : index < listing.tokens.length
  · have hother : index < recast.tokens.length := hlength ▸ hindex
    refine .inr ⟨listing.tokens[index], recast.tokens[index], ?_, ?_, h.get hindex hother⟩
    · rw [tokenAt, List.getElem?_eq_getElem hindex]
    · rw [tokenAt, List.getElem?_eq_getElem hother]
  · refine .inl ⟨.outOfRange .tokens index listing.tokens.length, ?_, ?_⟩
    · rw [tokenAt, List.getElem?_eq_none (Nat.le_of_not_lt hindex)]
    · rw [tokenAt, List.getElem?_eq_none (hlength ▸ Nat.le_of_not_lt hindex), hlength]

theorem decoratorSpan_recast
    (h : List.Forall₂ (Token.IsRecast first second) listing.tokens recast.tokens)
    (hlines : recast.lines = listing.lines) (index : Nat) :
    recast.decoratorSpan index = listing.decoratorSpan index := by
  have hline : recast.lineAt = listing.lineAt := by
    funext number
    rw [lineAt, lineAt, hlines]
  have hcount : recast.decoratorCount = listing.decoratorCount := by
    funext column number
    rw [decoratorCount, decoratorCount, hlines]
  rw [decoratorSpan, decoratorSpan, hline, hcount]
  rcases tokenAt_recast h index with ⟨error, htoken, hother⟩ | ⟨token, other, htoken, hother, hcast⟩
  · rw [htoken, hother]
  · rw [htoken, hother, hcast.same]
    rfl

/-- A source can be read with any two keyword tables, and no more than the kinds of its words and of
its signs `@` depends on which of them it is. -/
theorem ofSource_isRecast {width : Nat} (hwidth : 1 ≤ width) (first second : Keywords)
    (source : Text) :
    ∃ listing recast, ofSource ⟨width, first⟩ source = .ok listing ∧
      ofSource ⟨width, second⟩ source = .ok recast ∧ listing.IsRecast first second recast := by
  have htokens : List.Forall₂ (Token.IsRecast first second) (tokensOf ⟨width, first⟩ source)
      (tokensOf ⟨width, second⟩ source) :=
    Token.isRecast_tokensOf width source
  refine ⟨_, _, ofSource_eq_ok hwidth source, ofSource_eq_ok hwidth source, ?_⟩
  constructor
  case tokens => exact htokens
  case lines => rfl
  case boundaries => rfl
  case decoratorSpan => exact decoratorSpan_recast htokens rfl

theorem ofSource_isRecast_newline :
    let table := Keywords.ofList [("class".toList, .newline), ("A".toList, .endOfInput),
      ("@".toList, .ignored), ("1".toList, .classKeyword)]
    let source := "@a\nclass A:\n  1\n".toList
    1 ≤ 2 ∧ ∃ listing recast, ofSource ⟨2, .python⟩ source = .ok listing ∧
      ofSource ⟨2, table⟩ source = .ok recast ∧ listing.IsRecast .python table recast ∧
      listing.decoratorSpan 3 = .ok ⟨0, 3⟩ ∧ recast.decoratorSpan 3 = .ok ⟨0, 3⟩ ∧
      recast.tokens.map Token.kind = [.ignored, .identifier, .newline, .newline, .endOfInput,
        .colon, .newline, .ignored, .newline, .endOfInput] := by
  intro table source
  refine ⟨by decide, ?_⟩
  obtain ⟨listing, recast, hlisting, hrecast, h⟩ :=
    ofSource_isRecast (show 1 ≤ 2 by decide) .python table source
  have hread : listing = read ⟨2, .python⟩ source := Except.ok.inj hlisting.symm
  have hother : recast = read ⟨2, table⟩ source := Except.ok.inj hrecast.symm
  have hspan : listing.decoratorSpan 3 = .ok ⟨0, 3⟩ := by
    rw [hread]
    decide +kernel
  refine ⟨listing, recast, hlisting, hrecast, h, hspan, ?_, ?_⟩
  · rw [h.decoratorSpan, hspan]
  · rw [hother]
    decide +kernel

end Listing

end Excerpt
