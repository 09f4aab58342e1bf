import Excerpt.Proofs.Guarded
import Excerpt.Proofs.Positions
/-!
# Slices

The ends of lines and of tokens are boundaries between characters, and the lines and tokens of a
text come in the order of their bytes. So the block of a definition, its decorators and both
together can be cut out of the text. A token stands on a line, unless it is the one behind the end
of the last line.
-/
namespace Excerpt

/-! ### Boundaries -/

namespace Text

theorem IsBoundary.le_byteLength {text : Text} {n : Nat} (h : IsBoundary text n) :
    n ≤ byteLength text := by
  have hlength := congrArg byteLength (takeBytes_append_dropBytes n text)
  rw [byteLength_append, h] at hlength
  omega

theorem IsBoundary.isSlice {text : Text} {start stop : Nat} (hstart : IsBoundary text start)
    (hstop : IsBoundary text stop) (hle : start ≤ stop) : text.IsSlice ⟨start, stop⟩ :=
  ⟨hle, hstop.le_byteLength, hstart, hstop⟩

theorem isSlice_of_eq {text before part behind : Text} (h : text = before ++ part ++ behind) :
    text.IsSlice ⟨byteLength before, byteLength before + byteLength part⟩ := by
  subst h
  apply IsBoundary.isSlice
  · rw [List.append_assoc]
    exact isBoundary_byteLength before (part ++ behind)
  · rw [← byteLength_append]
    exact isBoundary_byteLength (before ++ part) behind
  · exact Nat.le_add_right _ _

end Text

theorem Line.start_of_getElem?_place {texts : List Text} {number start index : Nat} {line : Line}
    (h : (place number start texts)[index]? = some line) :
    line.start = start + Text.byteLength (texts.take index).flatten := by
  induction texts generalizing number start index with
  | nil => simp [place] at h
  | cons text rest ih =>
    rw [place] at h
    cases index with
    | zero =>
      rw [List.getElem?_cons_zero, Option.some.injEq] at h
      rw [← h]
      rfl
    | succ index =>
      rw [List.getElem?_cons_succ] at h
      rw [ih h, List.take_succ_cons, List.flatten_cons, Text.byteLength_append, Nat.add_assoc]

namespace Listing

variable {dialect : Dialect} {source : Text}

theorem isSlice_of_mem_linesOf {line : Line} (h : line ∈ linesOf source) :
    source.IsSlice line.span := by
  obtain ⟨before, behind, hsource, hstart⟩ := exists_eq_of_mem_linesOf h
  rw [Line.span, Line.stop, hstart]
  exact Text.isSlice_of_eq hsource

theorem isSlice_of_mem_tokensOf {token : Token} (h : token ∈ tokensOf dialect source) :
    source.IsSlice token.span := by
  obtain ⟨before, behind, hsource, hstart, hstop⟩ :=
    (Token.covers_tokensOf dialect source).exists_eq_of_mem [] rfl h
  rw [Token.span, hstart, hstop, Text.byteLength_append]
  exact Text.isSlice_of_eq hsource

theorem start_le_of_lines {first last : Line} {upper own : Nat} (hle : upper ≤ own)
    (hfirst : (linesOf source)[upper]? = some first) (hlast : (linesOf source)[own]? = some last) :
    first.start ≤ last.start := by
  obtain ⟨between, hbetween⟩ : (Text.splitLines source).take upper <+: _ :=
    List.take_prefix_take_left hle
  rw [Line.start_of_getElem?_place hfirst, Line.start_of_getElem?_place hlast, ← hbetween,
    List.flatten_append, Text.byteLength_append]
  omega

theorem start_le_of_token {token : Token} {line : Line} (h : token ∈ tokensOf dialect source)
    (hline : (linesOf source)[token.line - 1]? = some line) : line.start ≤ token.start := by
  rw [Token.tokensOf_eq, List.mem_append, List.mem_singleton] at h
  rcases h with h | rfl
  · obtain ⟨site, hsite, kind, -, rfl⟩ := Token.exists_site h
    obtain ⟨own, hown, hstart, -⟩ := Site.exists_lineAt dialect hsite kind
    rw [lineAt_eq_ok_iff, read_lines, hline, Option.some.injEq] at hown
    rwa [hown]
  · have hslice := isSlice_of_mem_linesOf (List.mem_of_getElem? hline)
    exact hslice.start_boundary.le_byteLength

end Listing

/-! ### Lines, columns and indices -/

theorem Token.IsPlaced.one_le_line {source : Text} {token : Token} (h : token.IsPlaced source) :
    1 ≤ token.line := by
  rw [h.line_eq]
  exact Nat.le_add_right _ _

theorem Token.IsPlaced.one_le_column {source : Text} {token : Token} (h : token.IsPlaced source) :
    1 ≤ token.column := by
  rw [h.column_eq]
  exact Nat.le_add_right _ _

theorem Token.mem_ofLines_or_eq_endOf {dialect : Dialect} {source : Text} {token : Token}
    {index : Nat} (h : (Listing.tokensOf dialect source)[index]? = some token) :
    (index + 1 ≠ (Listing.tokensOf dialect source).length ∧
        token ∈ ofLines dialect 1 0 1 (Text.splitLines source)) ∨
      (index + 1 = (Listing.tokensOf dialect source).length ∧ token = endOf source) := by
  have hlength := (List.getElem?_eq_some_iff.mp h).1
  by_cases hlast : index + 1 = (Listing.tokensOf dialect source).length
  · right
    have hend := getElem?_last dialect source
    rw [← hlast, Nat.add_sub_cancel, h, Option.some.injEq] at hend
    exact ⟨hlast, hend⟩
  · left
    refine ⟨hlast, ?_⟩
    rw [tokensOf_eq] at h hlength hlast
    rw [List.length_append, List.length_singleton] at hlength hlast
    rw [List.getElem?_append_left (by omega)] at h
    exact List.mem_of_getElem? h

namespace Listing

variable {dialect : Dialect} {source : Text} {index : Nat} {token : Token}

/-- A token has a line, unless it is the one behind the end of the last line. -/
theorem line_lt_or_eq (h : (tokensOf dialect source)[index]? = some token) :
    (token.line - 1 < (linesOf source).length ∧
        ¬ (index + 1 = (tokensOf dialect source).length ∧ Text.EndsLine source)) ∨
      (token.line - 1 = (linesOf source).length ∧
        index + 1 = (tokensOf dialect source).length ∧ Text.EndsLine source) := by
  rw [linesOf, Line.length_place]
  rcases Token.mem_ofLines_or_eq_endOf h with ⟨hlast, hmem⟩ | ⟨hlast, rfl⟩
  · have hbounds := Token.bounds_of_mem_ofLines hmem
    exact .inl ⟨by omega, fun hend => hlast hend.1⟩
  · have hline : (Token.endOf source).line - 1 = source.count '\n' := Nat.add_sub_cancel_left ..
    rw [hline]
    by_cases hended : Text.EndsLine source
    · exact .inr ⟨hended.length_splitLines.symm, hlast, hended⟩
    · rw [Text.length_splitLines_of_not_endsLine hended]
      exact .inl ⟨Nat.lt_succ_self _, fun hend => hended hend.2⟩

theorem line_le_length (h : (tokensOf dialect source)[index]? = some token) :
    token.line - 1 ≤ (linesOf source).length := by
  rcases line_lt_or_eq h with hlt | heq
  · exact hlt.1.le
  · exact heq.1.le

theorem line_lt_length_iff (h : (tokensOf dialect source)[index]? = some token) :
    token.line - 1 < (linesOf source).length ↔
      ¬ (index + 1 = (tokensOf dialect source).length ∧ Text.EndsLine source) := by
  rcases line_lt_or_eq h with hlt | heq
  · exact iff_of_true hlt.1 hlt.2
  · exact iff_of_false heq.1.not_lt fun hnot => hnot heq.2

/-- Each token before another takes up a byte at least. -/
theorem index_le_start (h : (tokensOf dialect source)[index]? = some token) :
    index ≤ token.start := by
  induction index generalizing token with
  | zero => exact Nat.zero_le _
  | succ index ih =>
    have hlength := (List.getElem?_eq_some_iff.mp h).1
    have hearlier := List.getElem?_eq_getElem (Nat.lt_of_succ_lt hlength)
    have horder := Token.precedes_of_lt (Nat.lt_succ_self index) hearlier h
    have hstart := ih hearlier
    have hlt := horder.start_lt
    have hle := horder.stop_le
    omega

theorem length_tokensOf_le (dialect : Dialect) (source : Text) :
    (tokensOf dialect source).length ≤ Text.byteLength source + 1 := by
  have hlast : (tokensOf dialect source).length - 1 ≤ Text.byteLength source :=
    index_le_start (Token.getElem?_last dialect source)
  omega

end Listing

/-! ### Spans -/

namespace Listing

theorem tokenAt_eq_ok_iff {listing : Listing} {index : Nat} {token : Token} :
    listing.tokenAt index = .ok token ↔ listing.tokens[index]? = some token := by
  unfold tokenAt
  cases listing.tokens[index]? <;> simp

theorem exists_of_decoratorSpan {listing : Listing} {index : Nat} {span : Span}
    (h : listing.decoratorSpan index = .ok span) :
    ∃ token upper first last, listing.tokens[index]? = some token ∧ upper ≤ token.line - 1 ∧
      listing.lines[upper]? = some first ∧ listing.lines[token.line - 1]? = some last ∧
      span = ⟨first.start, last.start⟩ := by
  unfold decoratorSpan at h
  cases htoken : listing.tokenAt index with
  | error e => simp [htoken, bind, Except.bind] at h
  | ok token =>
    simp only [htoken, bind, Except.bind] at h
    cases hfirst : listing.lineAt
        (token.line - 1 - listing.decoratorCount token.column (token.line - 1)) with
    | error e => simp [hfirst] at h
    | ok first =>
      cases hlast : listing.lineAt (token.line - 1) with
      | error e => simp [hfirst, hlast] at h
      | ok last =>
        simp only [hfirst, hlast] at h
        exact ⟨token, _, first, last, tokenAt_eq_ok_iff.mp htoken, Nat.sub_le _ _,
          lineAt_eq_ok_iff.mp hfirst, lineAt_eq_ok_iff.mp hlast, (Except.ok.inj h).symm⟩

variable {dialect : Dialect} {source : Text} {index : Nat} {block above : Span}

theorem isSlice_of_decoratorSpan (h : (read dialect source).decoratorSpan index = .ok above) :
    source.IsSlice above := by
  obtain ⟨token, upper, first, last, -, hle, hfirst, hlast, rfl⟩ := exists_of_decoratorSpan h
  have hupper := isSlice_of_mem_linesOf (List.mem_of_getElem? hfirst)
  have hlower := isSlice_of_mem_linesOf (List.mem_of_getElem? hlast)
  exact hupper.start_boundary.isSlice hlower.start_boundary (start_le_of_lines hle hfirst hlast)

theorem isSlice_of_blockSpan (h : (read dialect source).blockSpan index = .ok block) :
    source.IsSlice block := by
  obtain ⟨stop, keyword, last, hblock, rfl⟩ := exists_isBlock h
  have hfirst := isSlice_of_mem_tokensOf (List.mem_of_getElem? hblock.first_eq)
  have hlast := isSlice_of_mem_tokensOf (List.mem_of_getElem? hblock.last_eq)
  exact hfirst.start_boundary.isSlice hlast.start_boundary
    (Token.start_le_of_le hblock.lt.le hblock.first_eq hblock.last_eq)

theorem isSlice_of_definition (hblock : (read dialect source).blockSpan index = .ok block)
    (habove : (read dialect source).decoratorSpan index = .ok above) :
    source.IsSlice ⟨above.start, block.stop⟩ := by
  have hlower := isSlice_of_blockSpan hblock
  have hupper := isSlice_of_decoratorSpan habove
  apply hupper.start_boundary.isSlice hlower.stop_boundary
  obtain ⟨keyword, _, hkeyword, -, -, -, rfl⟩ := exists_of_blockSpan hblock
  obtain ⟨token, _, first, last, htoken, -, -, hlast, rfl⟩ := exists_of_decoratorSpan habove
  have hsame : token = keyword := Option.some.inj (htoken.symm.trans hkeyword)
  subst hsame
  -- Decorators, the line of the keyword, the keyword and the end of the block follow one another.
  calc first.start ≤ last.start := hupper.start_le
    _ ≤ token.start := start_le_of_token (List.mem_of_getElem? htoken) hlast
    _ ≤ _ := hlower.start_le

end Listing

end Excerpt
