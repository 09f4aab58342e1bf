import Excerpt.Listing.Definition
/-!
# Outlines

The outline of a listing is what is left of its tokens without their columns and bytes. Two listings
of one outline agree on the definitions of every name, on the ancestor of every token and on the
lines of every block, for none of these is found by the place of a token within its line.
-/
namespace Excerpt

/-- What a token is, on which line it stands and how deep. -/
structure Outline where
  kind : Kind
  literal : Text
  line : Nat
  depth : Nat
  deriving DecidableEq, Repr

def Token.outline (token : Token) : Outline where
  kind := token.kind
  literal := token.literal
  line := token.line
  depth := token.depth

def Ancestor.index? : Ancestor → Option Nat
  | .root => none
  | .found index _ => some index

namespace Listing

def outline (listing : Listing) : List Outline := listing.tokens.map Token.outline

/-! ### Searches by outline -/

theorem definitions_eq_outline (listing : Listing) (kind : Kind) (name : Text) :
    listing.definitions kind name =
      ((listing.outline.zip listing.outline.tail).zipIdx.filter fun pair =>
        pair.1.1.kind == kind &&
          (pair.1.2.kind == .identifier && pair.1.2.literal == name)).map Prod.snd := by
  rw [outline, ← List.map_tail, List.zip_map, List.zipIdx_map, List.filter_map, List.map_map,
    definitions, definitionKeywords, List.map_map]
  rfl

/-- The index of the last token before `index` that can be the ancestor of one at a depth. -/
def parentIndex? (outline : List Outline) (index depth : Nat) : Option Nat :=
  ((outline.take index).zipIdx.reverse.find? fun pair =>
    pair.1.kind != .newline && pair.1.depth == depth - 1).map Prod.snd

theorem map_snd_parent? (listing : Listing) (index depth : Nat) :
    (listing.parent? index depth).map Prod.snd = parentIndex? listing.outline index depth := by
  rw [parentIndex?, outline, ← List.map_take, List.zipIdx_map, ← List.map_reverse, List.find?_map,
    Option.map_map]
  rfl

theorem index?_ancestor_eq_outline (listing : Listing) (index : Nat) :
    (listing.ancestor index).map Ancestor.index? =
      match listing.outline[index]? with
      | none => .error (.outOfRange .tokens index listing.outline.length)
      | some token =>
        if token.depth ≤ 1 then .ok none
        else match parentIndex? listing.outline index token.depth with
          | some place => .ok (some place)
          | none =>
            .error (.notFound token.kind ("ancestor of ".toList ++ Text.ticked token.literal)) := by
  have hlength : listing.outline.length = listing.tokens.length := List.length_map _
  have hget : listing.outline[index]? = listing.tokens[index]?.map Token.outline :=
    List.getElem?_map
  rw [hget, hlength, ancestor, tokenAt]
  cases listing.tokens[index]? with
  | none => rfl
  | some token =>
    have hparent := map_snd_parent? listing index token.depth
    simp only [Option.map_some, bind, Except.bind, Token.outline]
    by_cases hdepth : token.depth ≤ 1
    · simp only [if_pos hdepth]
      rfl
    · rw [if_neg hdepth, if_neg hdepth, ← hparent]
      cases listing.parent? index token.depth with
      | none => rfl
      | some found => rfl

def endLine? (outline : List Outline) (anchor : Outline) (index : Nat) : Option Nat :=
  ((outline.drop index).find? fun token => token.kind != .newline &&
    decide (token.depth ≤ anchor.depth) && token.line != anchor.line).map Outline.line

theorem map_line_blockEnd? (listing : Listing) (anchor : Token) (index : Nat) :
    (listing.blockEnd? anchor index).map Token.line =
      endLine? listing.outline anchor.outline index := by
  rw [endLine?, outline, ← List.map_drop, List.find?_map, Option.map_map]
  rfl

theorem blockLines_eq_outline (listing : Listing) (kind : Kind) (literal : Text) :
    listing.blockLines kind literal =
      match listing.outline.zipIdx.find? fun pair =>
        pair.1.kind == kind && pair.1.literal == literal with
      | none => .error (.notFound kind literal)
      | some (anchor, index) =>
        .ok (anchor.line, (endLine? listing.outline anchor (index + 1)).getD anchor.line) := by
  have hfind : (listing.outline.zipIdx.find? fun pair =>
      pair.1.kind == kind && pair.1.literal == literal) =
        (listing.tokens.zipIdx.find? (·.1.is kind literal)).map (Prod.map Token.outline id) := by
    rw [outline, List.zipIdx_map, List.find?_map]
    rfl
  rw [hfind, blockLines, findFirst]
  cases listing.tokens.zipIdx.find? (·.1.is kind literal) with
  | none => rfl
  | some found =>
    have hend := map_line_blockEnd? listing found.1 (found.2 + 1)
    simp only [bind, Except.bind, pure, Except.pure, hend, Option.map_some]
    rfl

end Listing

end Excerpt
