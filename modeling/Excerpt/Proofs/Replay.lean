import Excerpt.Proofs.Positions
/-!
# Replaying boundaries

The boundaries of a text tell its depth line by line. Crossed in order from the margin, each of them
fits the depth at which it is met, and the depth behind those of the first lines is the depth of the
tokens on the last of these lines. At the end the margin is reached again.
-/
namespace Excerpt

namespace Boundary

def line : Boundary → Nat
  | opening line _ => line
  | closing line _ => line

/-- The depth behind a boundary that is met at the depth `current`. An opening has to lead deeper,
and a closing has to close the current level, which cannot be the margin. -/
def cross? (current : Nat) : Boundary → Option Nat
  | opening _ depth => if current < depth then some depth else none
  | closing _ depth => if depth = current ∧ 2 ≤ current then some (depth - 1) else none

/-- The depth behind boundaries that are met in order, if each of them fits. -/
def replay? (current : Nat) (boundaries : List Boundary) : Option Nat :=
  boundaries.foldlM cross? current

end Boundary

/-- Whether the boundaries of a listing fit one another and the depths of the tokens. -/
structure Listing.Replays (source : Text) (listing : Listing) : Prop where
  last_eq : listing.tokens.getLast? = some (Token.endOf source)
  margin : Boundary.replay? 1 listing.boundaries = some 1
  ordered : listing.boundaries.Pairwise fun first second => first.line ≤ second.line
  bounded : ∀ boundary ∈ listing.boundaries, boundary.line ≤ (Token.endOf source).line
  depths : ∀ token ∈ listing.tokens, token.line < (Token.endOf source).line →
    Boundary.replay? 1 (listing.boundaries.filter (·.line ≤ token.line)) = some token.depth

/-! ### Depths -/

namespace Indent

theorem one_le_depthAfter (width : Nat) {previous : Nat} (h : 1 ≤ previous) (line : Text) :
    1 ≤ depthAfter width previous line := by
  unfold depthAfter depth?
  split
  · exact h
  · simp

theorem one_le_foldl_depthAfter (width : Nat) {previous : Nat} (h : 1 ≤ previous)
    (lines : List Text) : 1 ≤ lines.foldl (depthAfter width) previous := by
  induction lines generalizing previous with
  | nil => exact h
  | cons line rest ih => exact ih (one_le_depthAfter width h line)

end Indent

namespace Boundary

/-! ### The boundaries of one row -/

theorem replay?_append (current : Nat) (first second : List Boundary) :
    replay? current (first ++ second) =
      (replay? current first).bind fun reached => replay? reached second :=
  List.foldlM_append

theorem replay?_closings (line : Nat) {depth : Nat} (h : 1 ≤ depth) (count : Nat) :
    replay? (depth + count) (closings line depth count) = some depth := by
  induction count with
  | zero => rfl
  | succ count ih =>
    have hcross : cross? (depth + (count + 1)) (closing line (depth + count + 1)) =
        some (depth + count) := by
      simp only [cross?]
      rw [if_pos (by omega)]
      rfl
    simp only [closings, replay?, List.foldlM_cons, hcross]
    exact ih

/-- Crossing the boundaries between two depths leads from the one to the other. -/
theorem replay?_between (line : Nat) {fromDepth toDepth : Nat} (h : 1 ≤ toDepth) :
    replay? fromDepth (between line fromDepth toDepth) = some toDepth := by
  unfold between
  split
  · next hlt => simp [replay?, cross?, hlt]
  · next hge =>
    have hclosings := replay?_closings line h (fromDepth - toDepth)
    rwa [Nat.add_sub_cancel' (Nat.le_of_not_lt hge)] at hclosings

theorem line_of_mem_between {number fromDepth toDepth : Nat} {boundary : Boundary}
    (h : boundary ∈ between number fromDepth toDepth) : boundary.line = number := by
  have hclosings : ∀ count, boundary ∈ closings number toDepth count → boundary.line = number := by
    intro count
    induction count with
    | zero => simp [closings]
    | succ count ih =>
      intro hmem
      rcases List.mem_cons.mp hmem with rfl | hmem
      · rfl
      · exact ih hmem
  unfold between at h
  split at h
  · simp only [List.mem_singleton] at h
    subst h
    rfl
  · exact hclosings _ h

theorem pairwise_between (number fromDepth toDepth : Nat) :
    (between number fromDepth toDepth).Pairwise fun first second => first.line ≤ second.line := by
  apply List.pairwise_of_forall_mem_list
  intro first hfirst second hsecond
  rw [line_of_mem_between hfirst, line_of_mem_between hsecond]

/-! ### The boundaries of consecutive lines -/

/-- The boundaries at the starts of consecutive lines, the first of which has the given number and
start and follows a row of depth `previous`. -/
def ofLines (width number start previous : Nat) (lines : List Text) : List Boundary :=
  (Row.place width previous (Line.place number start lines)).flatMap ofRow

section Lines

variable (width : Nat)

theorem ofLines_cons (number start previous : Nat) (line : Text) (rest : List Text) :
    ofLines width number start previous (line :: rest) =
      between number previous (Indent.depthAfter width previous line) ++
        ofLines width (number + 1) (start + Text.byteLength line)
          (Indent.depthAfter width previous line) rest := by
  simp only [ofLines, Line.place, Row.place, List.flatMap_cons]
  rfl

theorem ofLines_append (number start previous : Nat) (first second : List Text) :
    ofLines width number start previous (first ++ second) =
      ofLines width number start previous first ++
        ofLines width (number + first.length) (start + Text.byteLength first.flatten)
          (first.foldl (Indent.depthAfter width) previous) second := by
  induction first generalizing number start previous with
  | nil => rfl
  | cons line first ih =>
    rw [List.cons_append, ofLines_cons, ofLines_cons, ih, List.append_assoc]
    simp only [List.length_cons, List.flatten_cons, Text.byteLength_append, List.foldl_cons]
    congr 3 <;> omega

theorem boundariesOf_eq (source : Text) :
    Listing.boundariesOf width source = ofLines width 1 0 1 (Text.splitLines source) ++
      between (Token.endOf source).line
        ((Text.splitLines source).foldl (Indent.depthAfter width) 1) 1 := by
  rw [Listing.boundariesOf, Listing.lastDepth, Listing.rowsOf, Listing.linesOf,
    Row.getD_depth_getLast?]
  rfl

theorem replay?_ofLines (number start : Nat) {previous : Nat} (h : 1 ≤ previous)
    (lines : List Text) :
    replay? previous (ofLines width number start previous lines) =
      some (lines.foldl (Indent.depthAfter width) previous) := by
  induction lines generalizing number start previous with
  | nil => rfl
  | cons line rest ih =>
    have hline := Indent.one_le_depthAfter width h line
    rw [ofLines_cons, replay?_append, replay?_between number hline, Option.bind_some, ih _ _ hline,
      List.foldl_cons]

variable {width}

theorem bounds_of_mem_ofLines {number start previous : Nat} {lines : List Text}
    {boundary : Boundary} (h : boundary ∈ ofLines width number start previous lines) :
    number ≤ boundary.line ∧ boundary.line < number + lines.length := by
  induction lines generalizing number start previous with
  | nil => simp [ofLines, Line.place, Row.place] at h
  | cons line rest ih =>
    rw [ofLines_cons, List.mem_append] at h
    simp only [List.length_cons]
    rcases h with h | h
    · have hline := line_of_mem_between h
      omega
    · have hlater := ih h
      omega

theorem pairwise_ofLines (number start previous : Nat) (lines : List Text) :
    (ofLines width number start previous lines).Pairwise
      fun first second => first.line ≤ second.line := by
  induction lines generalizing number start previous with
  | nil => exact .nil
  | cons line rest ih =>
    rw [ofLines_cons]
    refine List.pairwise_append.mpr ⟨pairwise_between _ _ _, ih _ _ _, ?_⟩
    intro first hfirst second hsecond
    have hline := line_of_mem_between hfirst
    have hlater := bounds_of_mem_ofLines hsecond
    omega

end Lines

end Boundary

namespace Listing

@[simp] theorem read_boundaries (dialect : Dialect) (source : Text) :
    (read dialect source).boundaries = boundariesOf dialect.indentWidth source := rfl

end Listing

namespace Site

variable {dialect : Dialect} {site : Site} {source : Text}

/-- The boundaries on the lines down to that of a site are those of the rows down to its own. -/
theorem filter_boundariesOf (h : site.IsIn source)
    (hlast : 1 + site.above.length < (Token.endOf source).line) (width : Nat) :
    (Listing.boundariesOf width source).filter (·.line ≤ 1 + site.above.length) =
      Boundary.ofLines width 1 0 1 (site.above ++ [site.line]) := by
  have hlines : site.lines = (site.above ++ [site.line]) ++ site.below := by simp [lines]
  rw [Boundary.boundariesOf_eq, h.lines_eq, hlines, Boundary.ofLines_append, List.append_assoc,
    List.filter_append, List.filter_eq_self.mpr, List.filter_eq_nil_iff.mpr, List.append_nil]
  · intro boundary hmem
    simp only [decide_eq_true_eq, Nat.not_le]
    rcases List.mem_append.mp hmem with hmem | hmem
    · have hbelow := Boundary.bounds_of_mem_ofLines hmem
      simp only [List.length_append, List.length_singleton] at hbelow
      omega
    · rwa [Boundary.line_of_mem_between hmem]
  · intro boundary hmem
    have habove := Boundary.bounds_of_mem_ofLines hmem
    simp only [List.length_append, List.length_singleton] at habove
    simp only [decide_eq_true_eq]
    omega

end Site

namespace Listing

/-- Crossed in order, the boundaries of a text lead from the margin back to it, and those of the
lines down to a token lead to its depth, unless the end of the text is on the same line. -/
theorem ofSource_replays (dialect : Dialect) (hwidth : 1 ≤ dialect.indentWidth) (source : Text) :
    ∃ listing, ofSource dialect source = .ok listing ∧ listing.Replays source := by
  refine ⟨read dialect source, ofSource_eq_ok hwidth source, ?_⟩
  have hcount := Text.length_splitLines_le source
  have hend : (Token.endOf source).line = 1 + source.count '\n' := rfl
  constructor
  case last_eq => simp [Token.tokensOf_eq]
  case margin =>
    rw [read_boundaries, Boundary.boundariesOf_eq, Boundary.replay?_append,
      Boundary.replay?_ofLines dialect.indentWidth 1 0 (Nat.le_refl 1), Option.bind_some,
      Boundary.replay?_between _ (Nat.le_refl 1)]
  case ordered =>
    rw [read_boundaries, Boundary.boundariesOf_eq]
    refine List.pairwise_append.mpr
      ⟨Boundary.pairwise_ofLines _ _ _ _, Boundary.pairwise_between _ _ _, ?_⟩
    intro first hfirst second hsecond
    have hbounds := Boundary.bounds_of_mem_ofLines hfirst
    rw [Boundary.line_of_mem_between hsecond]
    omega
  case bounded =>
    intro boundary hmem
    rw [read_boundaries, Boundary.boundariesOf_eq, List.mem_append] at hmem
    rcases hmem with hmem | hmem
    · have hbounds := Boundary.bounds_of_mem_ofLines hmem
      omega
    · exact (Boundary.line_of_mem_between hmem).le
  case depths =>
    intro token hmem hbefore
    rw [read_tokens, Token.tokensOf_eq, List.mem_append, List.mem_singleton] at hmem
    rcases hmem with hmem | rfl
    · obtain ⟨site, hsite, kind, -, rfl⟩ := Token.exists_site hmem
      show Boundary.replay? 1
        ((boundariesOf dialect.indentWidth source).filter (·.line ≤ 1 + site.above.length)) = _
      rw [Site.filter_boundariesOf hsite hbefore,
        Boundary.replay?_ofLines dialect.indentWidth 1 0 (Nat.le_refl 1), List.foldl_append]
      rfl
    · exact absurd hbefore (Nat.lt_irrefl _)

/-- An opening over two levels is closed in two steps, and the boundaries at the end share their line
with the last token. -/
theorem ofSource_replays_jump :
    let source := "if x:\n\t\ty\n \n\t\tz\n\tdef".toList
    ∃ listing, ofSource {} source = .ok listing ∧
      listing.boundaries = [.opening 2 3, .closing 5 3, .closing 5 2] ∧
      Boundary.replay? 1 listing.boundaries = some 1 ∧
      ∀ token ∈ listing.tokens, token.line = 4 →
        Boundary.replay? 1 [.opening 2 3] = some token.depth := by
  intro source
  obtain ⟨listing, hlisting, h⟩ := ofSource_replays {} (by decide) source
  obtain rfl := Except.ok.inj hlisting
  have hboundaries : (read {} source).boundaries = [.opening 2 3, .closing 5 3, .closing 5 2] := by
    decide +kernel
  refine ⟨_, rfl, hboundaries, h.margin, ?_⟩
  intro token hmem hline
  have hdepth := h.depths token hmem (by rw [hline]; decide +kernel)
  rwa [hboundaries, hline] at hdepth

end Listing

end Excerpt
