import Excerpt.Listing
import Excerpt.Proofs.Content
/-!
# Tokens of consecutive lines

All that the tokens of a stretch of lines take from the lines before it is the number of its first
line, the byte at which that line starts and the depth of the row before it.
-/
namespace Excerpt

theorem Line.place_append (number start : Nat) (first second : List Text) :
    place number start (first ++ second) = place number start first ++
      place (number + first.length) (start + Text.byteLength first.flatten) second := by
  induction first generalizing number start with
  | nil => rfl
  | cons text first ih =>
    simp only [List.cons_append, place, ih, List.length_cons, List.flatten_cons,
      Text.byteLength_append]
    congr 3 <;> omega

namespace Indent

def depthAfter (width previous : Nat) (line : Text) : Nat := (depth? width line).getD previous

theorem depthAfter_of_hasContent (width previous : Nat) {line : Text} (h : hasContent line = true) :
    depthAfter width previous line = 1 + level width line := by
  rw [depthAfter, depth?_of_hasContent width h]
  rfl

end Indent

def Row.below (width : Nat) (above : List Text) (line : Text) : Row where
  line := ⟨1 + above.length, Text.byteLength above.flatten, line⟩
  previous := above.foldl (Indent.depthAfter width) 1
  depth := Indent.depthAfter width (above.foldl (Indent.depthAfter width) 1) line

theorem Row.getD_depth_getLast? (width previous number start : Nat) (lines : List Text) :
    ((place width previous (Line.place number start lines)).getLast?.map depth).getD previous =
      lines.foldl (Indent.depthAfter width) previous := by
  induction lines generalizing previous number start with
  | nil => rfl
  | cons line rest ih =>
    rw [List.foldl_cons, ← ih _ (number + 1) (start + Text.byteLength line), Line.place, place,
      List.getLast?_cons, Indent.depthAfter]
    cases (place width ((Indent.depth? width line).getD previous)
      (Line.place (number + 1) (start + Text.byteLength line) rest)).getLast? with
    | none => rfl
    | some last => rfl

namespace Token

/-! ### The tokens of a row -/

section Place

variable (keywords : Keywords) (row : Row)

theorem place_append (offset : Nat) (first second : List Lexeme) :
    place keywords row offset (first ++ second) = place keywords row offset first ++
      place keywords row (offset + Text.byteLength (Lexeme.join first)) second := by
  induction first generalizing offset with
  | nil => rfl
  | cons lexeme first ih =>
    rw [List.cons_append, place, place]
    cases lexeme.kind? keywords with
    | none => simp [ih, Nat.add_assoc]
    | some kind => simp [ih, Nat.add_assoc]

/-- A token of a row is on its line and has its depth, and one of its lexemes stands for it. -/
theorem exists_of_mem_place {offset : Nat} {lexemes : List Lexeme} {token : Token}
    (h : token ∈ place keywords row offset lexemes) :
    token.line = row.line.number ∧ token.depth = row.depth ∧
      ∃ lexeme ∈ lexemes, lexeme.kind? keywords = some token.kind := by
  induction lexemes generalizing offset with
  | nil => simp [place] at h
  | cons lexeme rest ih =>
    rw [place] at h
    cases hkind : lexeme.kind? keywords with
    | none =>
      rw [hkind] at h
      obtain ⟨hline, hdepth, other, hmem, hother⟩ := ih h
      exact ⟨hline, hdepth, other, List.mem_cons_of_mem _ hmem, hother⟩
    | some kind =>
      rw [hkind] at h
      rcases List.mem_cons.1 h with rfl | h
      · exact ⟨rfl, rfl, lexeme, List.mem_cons_self, hkind⟩
      · obtain ⟨hline, hdepth, other, hmem, hother⟩ := ih h
        exact ⟨hline, hdepth, other, List.mem_cons_of_mem _ hmem, hother⟩

end Place

theorem kind_of_not_hasContent {keywords : Keywords} {row : Row}
    (hline : '\n' ∉ row.line.text.dropLast) (h : Indent.hasContent row.line.text = false)
    {token : Token} (hmem : token ∈ ofRow keywords row) : token.kind = .newline := by
  obtain ⟨-, -, lexeme, hlexeme, hkind⟩ := exists_of_mem_place keywords row hmem
  by_cases hn : token.kind = .newline
  · exact hn
  · rw [Indent.hasContent_of_mem_scan hline hlexeme hkind hn] at h
    cases h

theorem getLast?_ofRow (keywords : Keywords) (row : Row)
    (h : row.line.text.getLast? = some '\n') :
    ∃ last, (ofRow keywords row).getLast? = some last ∧ last.kind = .newline := by
  have hscan := Lexeme.scan_append_newline row.line.text.dropLast []
  rw [← Text.eq_dropLast_append h] at hscan
  rw [ofRow, hscan, place_append, Lexeme.scan_newline, Lexeme.scan_nil, List.getLast?_append]
  exact ⟨_, rfl, rfl⟩

/-! ### The tokens of consecutive lines -/

/-- The tokens of consecutive lines, the first of which has the given number and start and follows
a row of depth `previous`. -/
def ofLines (dialect : Dialect) (number start previous : Nat) (lines : List Text) : List Token :=
  (Row.place dialect.indentWidth previous (Line.place number start lines)).flatMap
    (ofRow dialect.keywords)

section Lines

variable (dialect : Dialect)

@[simp] theorem ofLines_nil (number start previous : Nat) :
    ofLines dialect number start previous [] = [] := rfl

theorem ofLines_cons (number start previous : Nat) (line : Text) (rest : List Text) :
    ofLines dialect number start previous (line :: rest) =
      ofRow dialect.keywords
          ⟨⟨number, start, line⟩, previous, Indent.depthAfter dialect.indentWidth previous line⟩ ++
        ofLines dialect (number + 1) (start + Text.byteLength line)
          (Indent.depthAfter dialect.indentWidth previous line) rest := by
  simp only [ofLines, Line.place, Row.place, List.flatMap_cons]
  rfl

theorem ofLines_append (number start previous : Nat) (first second : List Text) :
    ofLines dialect number start previous (first ++ second) =
      ofLines dialect number start previous first ++
        ofLines dialect (number + first.length) (start + Text.byteLength first.flatten)
          (first.foldl (Indent.depthAfter dialect.indentWidth) previous) second := by
  induction first generalizing number start previous with
  | nil => rfl
  | cons line first ih =>
    rw [List.cons_append, ofLines_cons, ofLines_cons, ih, List.append_assoc]
    simp only [List.length_cons, List.flatten_cons, Text.byteLength_append, List.foldl_cons]
    congr 3 <;> omega

theorem ofLines_concat (above : List Text) (line : Text) :
    ofLines dialect 1 0 1 (above ++ [line]) =
      ofLines dialect 1 0 1 above ++
        ofRow dialect.keywords (Row.below dialect.indentWidth above line) := by
  rw [ofLines_append, ofLines_cons, ofLines_nil, List.append_nil, Nat.zero_add]
  rfl

theorem tokensOf_eq (source : Text) :
    Listing.tokensOf dialect source =
      ofLines dialect 1 0 1 (Text.splitLines source) ++ [endOf source] := rfl

end Lines

end Token

namespace Listing

@[simp] theorem read_source (dialect : Dialect) (source : Text) :
    (read dialect source).source = source := rfl

@[simp] theorem read_lines (dialect : Dialect) (source : Text) :
    (read dialect source).lines = linesOf source := rfl

@[simp] theorem read_tokens (dialect : Dialect) (source : Text) :
    (read dialect source).tokens = tokensOf dialect source := rfl

theorem ofSource_eq_ok {dialect : Dialect} (h : 1 ≤ dialect.indentWidth) (source : Text) :
    ofSource dialect source = .ok (read dialect source) :=
  if_neg (by omega)

end Listing

end Excerpt
