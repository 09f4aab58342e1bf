import Excerpt.Proofs.Replay
/-!
# Lines of gaps

A line that holds nothing but gaps is meant to leave no trace in the structure of a text: it keeps
the depth of the line above and no boundary lies at its start. This holds of a line whose gaps are
one run of spaces, or of tabs, with only carriage returns and form feeds behind it. Where another
space or tab follows, the first run sets the depth, as it does on a line with content.
-/
namespace Excerpt

/-- Whether a space or a tab stands on a line behind the run of equal characters that it begins
with. -/
def Indent.isMixed : Text → Bool
  | [] => false
  | c :: rest => (rest.dropWhile (· = c)).any fun d => d = ' ' ∨ d = '\t'

/-- Whether a listing passes over a row: no boundary lies at its start, so that none has its number
but those at the end of the text, and its newline is as deep as the tokens of the line above, or at
the margin if it is the first one. -/
structure Listing.PassesOver (width : Nat) (source : Text) (listing : Listing) (row : Row) :
    Prop where
  started : Boundary.ofRow row = []
  recorded : ∀ boundary ∈ listing.boundaries, boundary.line = row.line.number →
    row.line.number = (Token.endOf source).line ∧
      boundary ∈ Boundary.between (Token.endOf source).line (lastDepth width source) 1
  first : row.line.number = 1 → ∀ token ∈ listing.tokens, token.kind = .newline →
    token.line = row.line.number → token.depth = 1
  later : ∀ token ∈ listing.tokens, token.kind = .newline → token.line = row.line.number →
    ∀ other ∈ listing.tokens, other.line + 1 = row.line.number → token.depth = other.depth

/-! ### Mixed gaps -/

namespace Indent

theorem isMixed_eq (line : Text) :
    isMixed line = (afterRun line).any fun c => c = ' ' ∨ c = '\t' := by
  have hskip : ∀ (c : Char) (rest : Text), c ≠ ' ' → c ≠ '\t' →
      (rest.dropWhile (· = c)).any (fun d => d = ' ' ∨ d = '\t') =
        rest.any fun d => d = ' ' ∨ d = '\t' := by
    intro c rest hspace htab
    induction rest with
    | nil => rfl
    | cons d rest ih =>
      by_cases hd : d = c
      · rw [List.dropWhile_cons_of_pos (by simpa using hd), ih]
        simp [hd, hspace, htab]
      · rw [List.dropWhile_cons_of_neg (by simpa using hd)]
  cases line with
  | nil => rfl
  | cons c rest =>
    by_cases hspace : c = ' '
    · simp [isMixed, afterRun, hspace]
    · by_cases htab : c = '\t'
      · simp [isMixed, afterRun, htab]
      · rw [isMixed, hskip c rest hspace htab]
        simp [afterRun, hspace, htab]

theorem isBare_eq {line : Text} (hline : '\n' ∉ line.dropLast) (h : hasContent line = false) :
    isBare line = !isMixed line := by
  have hgaps : ∀ c ∈ line, c = '\n' ∨ Shape.isGap c = true := by
    intro c hc
    by_contra hnot
    rw [not_or, Bool.not_eq_true] at hnot
    rw [(hasContent_iff hline).mpr ⟨c, hc, hnot⟩] at h
    cases h
  have hsuffix : afterRun line <:+ line := by
    unfold afterRun
    split
    · exact List.dropWhile_suffix _
    · exact List.dropWhile_suffix _
  rw [isMixed_eq, isBare]
  generalize afterRun line = rest at hsuffix
  induction rest with
  | nil => rfl
  | cons c rest ih =>
    have hrest := (List.suffix_cons c rest).trans hsuffix
    rcases hgaps c (hsuffix.subset List.mem_cons_self) with rfl | hc
    · -- Nothing follows the newline of a line.
      obtain ⟨front, rfl⟩ := hsuffix
      have hnil : rest = [] := by
        by_contra hne
        rw [List.append_cons] at hline
        exact Text.newline_not_mem_left hline hne (by simp)
      subst hnil
      simp [Shape.isControl]
    · cases hcontrol : Shape.isControl c with
      | true =>
        have hspace : c ≠ ' ' := by rintro rfl; revert hcontrol; decide
        have htab : c ≠ '\t' := by rintro rfl; revert hcontrol; decide
        simpa [hcontrol, hspace, htab] using ih hrest
      | false =>
        have hrun : c = ' ' ∨ c = '\t' := by simpa [Shape.isGap, hcontrol] using hc
        rcases hrun with rfl | rfl
        · simp [Shape.isControl]
        · simp [Shape.isControl]

/-- A line of gaps keeps the depth before it, unless it is mixed and gives another one. -/
theorem depthAfter_eq_iff (width previous : Nat) {line : Text} (hline : '\n' ∉ line.dropLast)
    (h : hasContent line = false) :
    previous = depthAfter width previous line ↔
      isMixed line = false ∨ contentDepth width line = previous := by
  rw [depthAfter, depth?, isBare_eq hline h, contentDepth_eq]
  cases isMixed line with
  | true => simp [eq_comm]
  | false => simp

end Indent

theorem Boundary.between_eq_nil_iff {line fromDepth toDepth : Nat} :
    between line fromDepth toDepth = [] ↔ fromDepth = toDepth := by
  unfold between
  split
  · next hlt => simp [hlt.ne]
  · next hge =>
    cases hcount : fromDepth - toDepth with
    | zero =>
      simp only [closings, true_iff]
      omega
    | succ count =>
      simp only [closings, reduceCtorEq, false_iff]
      omega

/-! ### Rows within a text -/

theorem Row.exists_of_mem_place {width previous number start : Nat} {lines : List Text} {row : Row}
    (h : row ∈ place width previous (Line.place number start lines)) :
    ∃ above line below, lines = above ++ line :: below ∧
      row.line.text = line ∧ row.line.number = number + above.length ∧
      row.previous = above.foldl (Indent.depthAfter width) previous ∧
      row.depth = Indent.depthAfter width row.previous line := by
  induction lines generalizing previous number start with
  | nil => simp [Line.place, place] at h
  | cons text rest ih =>
    rw [Line.place, place] at h
    rcases List.mem_cons.mp h with rfl | h
    · exact ⟨[], text, rest, rfl, rfl, rfl, rfl, rfl⟩
    · obtain ⟨above, line, below, rfl, htext, hnumber, hprevious, hdepth⟩ := ih h
      refine ⟨text :: above, line, below, rfl, htext, ?_, hprevious, hdepth⟩
      rw [hnumber, List.length_cons]
      omega

section Split

variable {source : Text} {above below : List Text} {line : Text}
  (hlines : Text.splitLines source = above ++ line :: below)

include hlines

theorem Token.depth_of_line {dialect : Dialect} {token : Token}
    (h : token ∈ ofLines dialect 1 0 1 (Text.splitLines source))
    (hline : token.line = 1 + above.length) :
    token.depth = (above ++ [line]).foldl (Indent.depthAfter dialect.indentWidth) 1 := by
  obtain ⟨site, hsite, kind, -, rfl⟩ := exists_site h
  have hlength : site.above.length = above.length := Nat.add_left_cancel hline
  have hsplit : site.above ++ site.line :: site.below = above ++ line :: below := by
    rw [← hlines, hsite.lines_eq]
    rfl
  obtain ⟨habove, hrest⟩ := List.append_inj hsplit hlength
  rw [List.foldl_append, ← habove, ← (List.cons.inj hrest).1]
  rfl

theorem Token.depth_of_line_above {dialect : Dialect} {token : Token}
    (h : token ∈ ofLines dialect 1 0 1 (Text.splitLines source))
    (hnext : token.line = above.length) :
    token.depth = above.foldl (Indent.depthAfter dialect.indentWidth) 1 := by
  have hbounds := bounds_of_mem_ofLines h
  rcases List.eq_nil_or_concat above with rfl | ⟨upper, last, rfl⟩
  · rw [List.length_nil] at hnext
    omega
  · rw [List.concat_eq_append] at hlines hnext ⊢
    rw [List.append_assoc, List.singleton_append] at hlines
    apply depth_of_line hlines h
    rw [hnext, List.length_append, List.length_singleton, Nat.add_comm]

theorem Boundary.mem_between_of_line {width : Nat} {boundary : Boundary}
    (h : boundary ∈ ofLines width 1 0 1 (Text.splitLines source))
    (hline : boundary.line = 1 + above.length) :
    boundary ∈ between (1 + above.length) (above.foldl (Indent.depthAfter width) 1)
      (Indent.depthAfter width (above.foldl (Indent.depthAfter width) 1) line) := by
  rw [hlines, ofLines_append, ofLines_cons, List.mem_append, List.mem_append] at h
  rcases h with h | h | h
  · have habove := bounds_of_mem_ofLines h
    omega
  · exact h
  · have hbelow := bounds_of_mem_ofLines h
    omega

theorem Text.length_above_lt_line_endOf : above.length < (Token.endOf source).line := by
  have hcount := length_splitLines_le source
  simp only [hlines, List.length_append, List.length_cons] at hcount
  change above.length < 1 + source.count '\n'
  omega

end Split

/-! ### Passing over a line -/

namespace Listing

variable {dialect : Dialect} {source : Text} {row : Row}

theorem passesOver_of_depth_eq (hrow : row ∈ rowsOf dialect.indentWidth source)
    (hkept : row.previous = row.depth) :
    (read dialect source).PassesOver dialect.indentWidth source row := by
  obtain ⟨above, line, below, hlines, -, hnumber, hprevious, hdepth⟩ :=
    Row.exists_of_mem_place hrow
  have hend := Text.length_above_lt_line_endOf hlines
  have hown : ∀ token ∈ tokensOf dialect source, token.kind = .newline →
      token.line = row.line.number → token.depth = row.previous := by
    intro token hmem hkind hline
    rw [Token.tokensOf_eq, List.mem_append, List.mem_singleton] at hmem
    rcases hmem with hmem | rfl
    · rw [Token.depth_of_line hlines hmem (hline.trans hnumber), List.foldl_append, ← hprevious]
      exact hdepth.symm.trans hkept.symm
    · cases hkind
  constructor
  case started => rw [Boundary.ofRow, hkept, Boundary.between_self]
  case recorded =>
    intro boundary hmem hline
    rw [read_boundaries, boundariesOf, List.mem_append] at hmem
    rcases hmem with hmem | hmem
    · have hbetween := Boundary.mem_between_of_line hlines hmem (hline.trans hnumber)
      rw [← hprevious, ← hdepth, ← hkept, Boundary.between_self] at hbetween
      cases hbetween
    · exact ⟨hline.symm.trans (Boundary.line_of_mem_between hmem), hmem⟩
  case first =>
    intro hone token hmem hkind hline
    have hnil : above = [] := List.eq_nil_of_length_eq_zero (by omega)
    rw [hown token hmem hkind hline, hprevious, hnil]
    rfl
  case later =>
    intro token hmem hkind hline other hother hnext
    rw [hown token hmem hkind hline, hprevious]
    rw [read_tokens, Token.tokensOf_eq, List.mem_append, List.mem_singleton] at hother
    rcases hother with hother | rfl
    · exact (Token.depth_of_line_above hlines hother (by omega)).symm
    · omega

/-- A line of gaps is passed over exactly if no space or tab follows the run that it begins with, or
if that run happens to give the depth of the line above. -/
theorem passesOver_iff (dialect : Dialect) (hwidth : 1 ≤ dialect.indentWidth) (source : Text)
    {row : Row} (hrow : row ∈ rowsOf dialect.indentWidth source)
    (hgaps : Indent.hasContent row.line.text = false) :
    ∃ listing, ofSource dialect source = .ok listing ∧
      (listing.PassesOver dialect.indentWidth source row ↔
        Indent.isMixed row.line.text = false ∨
          Indent.contentDepth dialect.indentWidth row.line.text = row.previous) := by
  refine ⟨read dialect source, ofSource_eq_ok hwidth source, ?_⟩
  obtain ⟨above, line, below, hlines, rfl, -, -, hdepth⟩ := Row.exists_of_mem_place hrow
  have hmem : row.line.text ∈ Text.splitLines source := by simp [hlines]
  have hsingle := (Text.areLines_splitLines source).single _ hmem
  rw [← Indent.depthAfter_eq_iff dialect.indentWidth row.previous hsingle hgaps, ← hdepth]
  constructor
  · intro h
    exact Boundary.between_eq_nil_iff.mp h.started
  · exact passesOver_of_depth_eq hrow

theorem passesOver_iff_controls :
    let source := "class A:\n\tx\n   \x0c\r\n\ty\n".toList
    let row : Row := ⟨⟨3, 12, "   \x0c\r\n".toList⟩, 2, 2⟩
    row ∈ rowsOf 4 source ∧ Indent.hasContent row.line.text = false ∧
      ∃ listing, ofSource {} source = .ok listing ∧ listing.PassesOver 4 source row := by
  intro source row
  have hrow : row ∈ rowsOf 4 source := by decide +kernel
  have hgaps : Indent.hasContent row.line.text = false := by decide
  obtain ⟨listing, hlisting, h⟩ := passesOver_iff {} (by decide) source hrow hgaps
  exact ⟨hrow, hgaps, listing, hlisting, h.mpr (.inl (by decide))⟩

/-- A tab behind a space closes the block around it, and the next line opens it again. -/
theorem passesOver_iff_mixed :
    let source := "class A:\n    x\n \t\n    y\n".toList
    let row : Row := ⟨⟨3, 15, " \t\n".toList⟩, 2, 1⟩
    row ∈ rowsOf 4 source ∧ Indent.hasContent row.line.text = false ∧
      ∃ listing, ofSource {} source = .ok listing ∧
        listing.boundaries = [.opening 2 2, .closing 3 2, .opening 4 2, .closing 5 2] ∧
        ⟨.newline, ['\n'], 2, 6, 2, 14, 15⟩ ∈ listing.tokens ∧
        ⟨.newline, ['\n'], 3, 3, 1, 17, 18⟩ ∈ listing.tokens ∧
        ¬ listing.PassesOver 4 source row := by
  intro source row
  refine ⟨by decide +kernel, by decide, read {} source, rfl, by decide +kernel, by decide +kernel,
    by decide +kernel, ?_⟩
  intro h
  exact absurd h.started (by decide)

end Listing

end Excerpt
