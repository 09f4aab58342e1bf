import Excerpt.Proofs.Rows
import Mathlib.Data.List.Forall2
/-!
# Reading a text in two parts

A text that is cut at the end of a line can be read in two parts. What is read from the second part
is the same as if it stood alone, further down by the lines and the bytes of the first part. Only
the depth of the bare lines that it begins with depends on the first part.
-/
namespace Excerpt

def Line.shift (lines bytes : Nat) (line : Line) : Line :=
  { line with number := line.number + lines, start := line.start + bytes }

def Token.shift (lines bytes : Nat) (token : Token) : Token :=
  { token with
    line := token.line + lines, start := token.start + bytes, stop := token.stop + bytes }

/-- Whether `moved` is `token` with so many lines and bytes more before it, up to the depth of a
newline on one of the first `leading` lines. -/
def Token.IsShift (lines bytes leading : Nat) (token moved : Token) : Prop :=
  moved = token.shift lines bytes ∨
    token.kind = .newline ∧ token.line ≤ leading ∧
      ∃ depth, moved = { token.shift lines bytes with depth := depth }

/-- The number of lines before the first one with content, which may be all of them. -/
def Listing.leadingLines (source : Text) : Nat :=
  ((Text.splitLines source).takeWhile fun line => !Indent.hasContent line).length

/-- How the listing of a text comes from those of the two parts that it is cut into. -/
structure Listing.IsJoin (first second : Text) (upper lower whole : Listing) : Prop where
  tokens : ∃ kept moved, upper.tokens = kept ++ [Token.endOf first] ∧
    whole.tokens = kept ++ moved ∧
    List.Forall₂
      (Token.IsShift (first.count '\n') (Text.byteLength first) (leadingLines second))
      lower.tokens moved
  lines : whole.lines = upper.lines ++
    lower.lines.map (Line.shift (first.count '\n') (Text.byteLength first))

namespace Line

theorem place_shift (lines bytes number start : Nat) (texts : List Text) :
    place (number + lines) (start + bytes) texts =
      (place number start texts).map (shift lines bytes) := by
  induction texts generalizing number start with
  | nil => rfl
  | cons text rest ih =>
    have hnext := ih (number + 1) (start + Text.byteLength text)
    rw [Nat.add_right_comm number, Nat.add_right_comm start] at hnext
    rw [place, place, List.map_cons, hnext]
    rfl

end Line

namespace Token

theorem place_shift (keywords : Keywords) (lines bytes number start previous depth : Nat)
    (text : Text) (offset : Nat) (lexemes : List Lexeme) :
    place keywords ⟨⟨number + lines, start + bytes, text⟩, previous, depth⟩ offset lexemes =
      (place keywords ⟨⟨number, start, text⟩, previous, depth⟩ offset lexemes).map
        (shift lines bytes) := by
  induction lexemes generalizing offset with
  | nil => rfl
  | cons lexeme rest ih =>
    rw [place, place]
    cases lexeme.kind? keywords with
    | none => exact ih _
    | some kind =>
      rw [List.map_cons]
      simp only [shift, Nat.add_right_comm start bytes, ih]

theorem ofLines_shift (dialect : Dialect) (lines bytes number start previous : Nat)
    (texts : List Text) :
    ofLines dialect (number + lines) (start + bytes) previous texts =
      (ofLines dialect number start previous texts).map (shift lines bytes) := by
  induction texts generalizing number start previous with
  | nil => rfl
  | cons text rest ih =>
    have hnext := ih (number + 1) (start + Text.byteLength text)
      (Indent.depthAfter dialect.indentWidth previous text)
    rw [Nat.add_right_comm number, Nat.add_right_comm start] at hnext
    rw [ofLines_cons, ofLines_cons, List.map_append, hnext, ofRow, ofRow, place_shift]

theorem place_depth (keywords : Keywords) (line : Line) (previous depth previous' depth' : Nat)
    (offset : Nat) (lexemes : List Lexeme) :
    place keywords ⟨line, previous', depth'⟩ offset lexemes =
      (place keywords ⟨line, previous, depth⟩ offset lexemes).map
        fun token => { token with depth := depth' } := by
  induction lexemes generalizing offset with
  | nil => rfl
  | cons lexeme rest ih =>
    rw [place, place]
    cases lexeme.kind? keywords with
    | none => exact ih _
    | some kind =>
      rw [List.map_cons, ih]

/-- The depth of the row before consecutive lines is passed on to newlines only, and no further than
to the first line with content. -/
theorem ofLines_previous (dialect : Dialect) {texts : List Text} (htexts : Text.AreLines texts)
    (number start previous previous' leading : Nat)
    (hleading : number + (texts.takeWhile fun line => !Indent.hasContent line).length ≤ leading + 1) :
    List.Forall₂ (IsShift 0 0 leading) (ofLines dialect number start previous texts)
      (ofLines dialect number start previous' texts) := by
  induction texts generalizing number start previous previous' with
  | nil => exact .nil
  | cons text rest ih =>
    obtain ⟨-, hsingle, -, hrest⟩ := Text.AreLines.cons_iff.1 htexts
    rw [ofLines_cons, ofLines_cons]
    cases hcontent : Indent.hasContent text with
    | true =>
      -- From here on both readings agree, so the induction ends.
      rw [Indent.depthAfter_of_hasContent _ previous hcontent,
        Indent.depthAfter_of_hasContent _ previous' hcontent]
      refine List.rel_append ?_ (List.forall₂_same.2 fun _ _ => .inl rfl)
      rw [ofRow, ofRow, place_depth dialect.keywords _ previous (1 + Indent.level _ text) previous',
        List.forall₂_map_right_iff, List.forall₂_same]
      intro token hmem
      have hdepth := (exists_of_mem_place _ _ hmem).2.1
      dsimp only at hdepth
      rw [← hdepth]
      exact .inl rfl
    | false =>
      rw [List.takeWhile_cons_of_pos (by simp [hcontent]), List.length_cons] at hleading
      refine List.rel_append ?_ (ih hrest _ _ _ _ (by omega))
      rw [ofRow, ofRow, place_depth _ _ previous _ previous', List.forall₂_map_right_iff,
        List.forall₂_same]
      intro token hmem
      have hline := (exists_of_mem_place _ _ hmem).1
      have hkind := kind_of_not_hasContent hsingle hcontent hmem
      dsimp only at hline
      exact .inr ⟨hkind, by omega, _, rfl⟩

theorem endOf_append {first : Text} (h : Text.EndsLine first) (second : Text) :
    endOf (first ++ second) =
      (endOf second).shift (first.count '\n') (Text.byteLength first) := by
  rw [endOf, h.unfinishedLine_append, List.count_append, Text.byteLength_append,
    Nat.add_left_comm 1, Nat.add_comm (first.count '\n'), Nat.add_comm (Text.byteLength first)]
  rfl

end Token

namespace Listing

theorem linesOf_append {first : Text} (h : Text.EndsLine first) (second : Text) :
    linesOf (first ++ second) = linesOf first ++
      (linesOf second).map (Line.shift (first.count '\n') (Text.byteLength first)) := by
  rw [linesOf, linesOf, linesOf, Text.splitLines_append h, Line.place_append, Line.place_shift,
    h.length_splitLines, Text.flatten_splitLines]

private theorem isShift_shift {leading : Nat} {token moved : Token}
    (h : token.IsShift 0 0 leading moved) (lines bytes : Nat) :
    token.IsShift lines bytes leading (moved.shift lines bytes) := by
  rcases h with rfl | ⟨hkind, hline, depth, rfl⟩
  · exact .inl rfl
  · exact .inr ⟨hkind, hline, depth, rfl⟩

theorem tokensOf_append (dialect : Dialect) {first : Text} (h : Text.EndsLine first)
    (second : Text) :
    ∃ moved, tokensOf dialect (first ++ second) =
        Token.ofLines dialect 1 0 1 (Text.splitLines first) ++ moved ∧
      List.Forall₂
        (Token.IsShift (first.count '\n') (Text.byteLength first) (leadingLines second))
        (tokensOf dialect second) moved := by
  have hsame := Token.ofLines_previous dialect (Text.areLines_splitLines second) 1 0 1
    ((Text.splitLines first).foldl (Indent.depthAfter dialect.indentWidth) 1)
    (leadingLines second) (by unfold leadingLines; omega)
  rw [Token.tokensOf_eq, Token.tokensOf_eq, Text.splitLines_append h, Token.ofLines_append,
    h.length_splitLines, Text.flatten_splitLines, Token.endOf_append h, List.append_assoc,
    Token.ofLines_shift]
  refine ⟨_, rfl, List.rel_append ?_ (.cons (.inl rfl) .nil)⟩
  rw [List.forall₂_map_right_iff]
  exact hsame.imp fun _ _ hshift => isShift_shift hshift _ _

/-- A text that is cut at the end of a line is read part by part: the tokens are those of the first
part but the one at its end, then those of the second part further down, and the same goes for
the lines. -/
theorem ofSource_append (dialect : Dialect) (hwidth : 1 ≤ dialect.indentWidth) {first : Text}
    (h : Text.EndsLine first) (second : Text) :
    ∃ upper lower whole, ofSource dialect first = .ok upper ∧ ofSource dialect second = .ok lower ∧
      ofSource dialect (first ++ second) = .ok whole ∧ IsJoin first second upper lower whole := by
  obtain ⟨moved, htokens, hmoved⟩ := tokensOf_append dialect h second
  refine ⟨_, _, _, ofSource_eq_ok hwidth first, ofSource_eq_ok hwidth second,
    ofSource_eq_ok hwidth (first ++ second), ⟨_, moved, rfl, htokens, hmoved⟩, ?_⟩
  exact linesOf_append h second

/-- The blank lines that the second part begins with take their depth from the first part. -/
theorem ofSource_append_indented :
    Text.EndsLine "if x:\n\ty\n".toList ∧
      ∃ upper lower whole, ofSource {} "if x:\n\ty\n".toList = .ok upper ∧
        ofSource {} "\n \n\tz".toList = .ok lower ∧
        ofSource {} ("if x:\n\ty\n".toList ++ "\n \n\tz".toList) = .ok whole ∧
        IsJoin "if x:\n\ty\n".toList "\n \n\tz".toList upper lower whole :=
  ⟨.inr rfl, ofSource_append {} (by decide) (.inr rfl) _⟩

end Listing

end Excerpt
