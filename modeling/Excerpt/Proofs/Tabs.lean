import Excerpt.Proofs.Literals
import Excerpt.Proofs.Outline
/-!
# Tabs for spaces

Putting a tab in place of each full width of spaces that a line begins with changes neither the
depth of the line nor its tokens, whatever width the new text is read with: spaces that make up no
full width count for nothing, and a last line that consists of such spaces is not missed. The text
with tabs has the outline and the boundaries of the text with spaces.
-/
namespace Excerpt

namespace Indent

/-- A line with a tab in place of each full width of the spaces that it begins with. -/
def tabbed (width : Nat) (line : Text) : Text :=
  List.replicate ((line.takeWhile (· = ' ')).length / width) '\t' ++ line.dropWhile (· = ' ')

/-- Whether a line that begins with spaces does not go on with a tab. -/
def IsUniform (line : Text) : Prop :=
  line.head? = some ' ' → (line.dropWhile (· = ' ')).head? ≠ some '\t'

instance (line : Text) : Decidable (IsUniform line) := inferInstanceAs (Decidable (_ → _))

end Indent

def Text.tabbed (width : Nat) (source : Text) : Text :=
  ((splitLines source).map (Indent.tabbed width)).flatten

/-- What two listings of one outline have in common. -/
structure Listing.SameOutline (first second : Listing) : Prop where
  outline : first.outline = second.outline
  boundaries : first.boundaries = second.boundaries
  definitions : ∀ kind name, first.definitions kind name = second.definitions kind name
  ancestor : ∀ index,
    (first.ancestor index).map Ancestor.index? = (second.ancestor index).map Ancestor.index?
  blockLines : ∀ kind literal, first.blockLines kind literal = second.blockLines kind literal

/-! ### Runs of one character -/

namespace Text

variable {c : Char} {rest : Text}

theorem takeWhile_run (h : rest.head? ≠ some c) (n : Nat) :
    (List.replicate n c ++ rest).takeWhile (· = c) = List.replicate n c ∧
      (List.replicate n c ++ rest).dropWhile (· = c) = rest := by
  have hall : ∀ d ∈ List.replicate n c, decide (d = c) = true := by
    intro d hd
    simpa using List.eq_of_mem_replicate hd
  rw [List.takeWhile_append_of_pos hall, List.dropWhile_append_of_pos hall]
  cases rest with
  | nil => simp
  | cons d rest =>
    have hd : d ≠ c := by simpa using h
    simp [hd]

theorem exists_eq_run (c : Char) (text : Text) :
    ∃ n rest, text = List.replicate n c ++ rest ∧ rest.head? ≠ some c := by
  refine ⟨(text.takeWhile (· = c)).length, text.dropWhile (· = c), ?_, ?_⟩
  · have hrun : text.takeWhile (· = c) = List.replicate (text.takeWhile (· = c)).length c := by
      apply List.eq_replicate_of_mem
      intro d hd
      simpa using List.mem_takeWhile_imp hd
    rw [← hrun, List.takeWhile_append_dropWhile]
  · intro hhead
    have hnot := List.head?_dropWhile_not (· = c) text
    rw [hhead] at hnot
    simp at hnot

theorem head?_run (h : rest.head? ≠ some c) {d : Char} (hd : d ≠ c) (n : Nat) :
    (List.replicate n d ++ rest).head? ≠ some c := by
  cases n with
  | zero => exact h
  | succ n => simpa [List.replicate_succ] using hd

end Text

theorem Lexeme.readings_run {c : Char} (hgap : Shape.isGap c = true)
    (hsplit : ∀ text, splitAfter c text = (text.takeWhile (· = c), text.dropWhile (· = c)))
    {rest : Text} (h : rest.head? ≠ some c) (keywords : Keywords) (n : Nat) :
    (scan (List.replicate n c ++ rest)).filterMap (reading? keywords) =
      (scan rest).filterMap (reading? keywords) := by
  cases n with
  | zero => rfl
  | succ n =>
    have hnone : reading? keywords ⟨Shape.ofChar c, c :: List.replicate n c⟩ = none := by
      rw [reading?, (kind?_eq_none_iff keywords c _).mpr hgap]
      rfl
    rw [List.replicate_succ, List.cons_append, scan, hsplit, (Text.takeWhile_run h n).1,
      (Text.takeWhile_run h n).2, List.filterMap_cons_none hnone]

/-! ### One line -/

namespace Indent

theorem tabbed_run {rest : Text} (h : rest.head? ≠ some ' ') (width n : Nat) :
    tabbed width (List.replicate n ' ' ++ rest) = List.replicate (n / width) '\t' ++ rest := by
  rw [tabbed, (Text.takeWhile_run h n).1, (Text.takeWhile_run h n).2, List.length_replicate]

theorem IsUniform.head?_ne {n : Nat} {rest : Text} (hrest : rest.head? ≠ some ' ')
    (h : IsUniform (List.replicate n ' ' ++ rest)) (hn : n ≠ 0) : rest.head? ≠ some '\t' := by
  rw [IsUniform, (Text.takeWhile_run hrest n).2] at h
  apply h
  obtain ⟨m, rfl⟩ := Nat.exists_eq_succ_of_ne_zero hn
  rfl

theorem readings_tabbed (width : Nat) (keywords : Keywords) {line : Text} (h : IsUniform line) :
    (Lexeme.scan (tabbed width line)).filterMap (Lexeme.reading? keywords) =
      (Lexeme.scan line).filterMap (Lexeme.reading? keywords) := by
  obtain ⟨n, rest, rfl, hrest⟩ := Text.exists_eq_run ' ' line
  rw [tabbed_run hrest]
  by_cases hn : n = 0
  · subst hn
    rw [Nat.zero_div]
    rfl
  · rw [Lexeme.readings_run rfl (fun _ => rfl) (h.head?_ne hrest hn),
      Lexeme.readings_run rfl (fun _ => rfl) hrest]

theorem depth?_tabbed (width width' : Nat) {line : Text} (h : IsUniform line) :
    depth? width' (tabbed width line) = depth? width line := by
  obtain ⟨n, rest, rfl, hrest⟩ := Text.exists_eq_run ' ' line
  rw [tabbed_run hrest]
  by_cases hn : n = 0
  · subst hn
    have hspaces : rest.takeWhile (· = ' ') = [] := (Text.takeWhile_run hrest 0).1
    rw [Nat.zero_div, depth?, depth?, level, level, List.replicate_zero, List.replicate_zero,
      List.nil_append, hspaces, List.length_nil, Nat.zero_div, Nat.zero_div]
  · have htabs := h.head?_ne hrest hn
    have hhead : (List.replicate (n / width) '\t' ++ rest).head? ≠ some ' ' :=
      Text.head?_run hrest (by decide) _
    have hspaces : (List.replicate n ' ' ++ rest).head? = some ' ' := by
      obtain ⟨m, rfl⟩ := Nat.exists_eq_succ_of_ne_zero hn
      rfl
    have hstart : (List.replicate n ' ' ++ rest).head? ≠ some '\t' := by
      rw [hspaces]
      decide
    have hnone : (List.replicate n ' ' ++ rest).takeWhile (· = '\t') = [] :=
      (Text.takeWhile_run hstart 0).1
    have hnone' : (List.replicate (n / width) '\t' ++ rest).takeWhile (· = ' ') = [] :=
      (Text.takeWhile_run hhead 0).1
    have hafter : afterRun (List.replicate (n / width) '\t' ++ rest) =
        afterRun (List.replicate n ' ' ++ rest) := by
      rw [afterRun, afterRun, if_neg hhead, if_pos hspaces, (Text.takeWhile_run htabs _).2,
        (Text.takeWhile_run hrest n).2]
    rw [depth?, depth?, isBare, isBare, hafter, level, level, hnone, hnone',
      (Text.takeWhile_run htabs _).1, (Text.takeWhile_run hrest n).1]
    simp

theorem depthAfter_tabbed (width width' previous : Nat) {line : Text} (h : IsUniform line) :
    depthAfter width' previous (tabbed width line) = depthAfter width previous line := by
  rw [depthAfter, depthAfter, depth?_tabbed width width' h]

/-- A line that vanishes has the depth of the line before it. -/
theorem depthAfter_of_tabbed_eq_nil {width : Nat} (previous : Nat) {line : Text}
    (h : IsUniform line) (hnil : tabbed width line = []) :
    depthAfter width previous line = previous := by
  rw [← depthAfter_tabbed width width previous h, hnil]
  rfl

theorem count_newline_tabbed (width : Nat) (line : Text) :
    (tabbed width line).count '\n' = line.count '\n' := by
  obtain ⟨n, rest, rfl, hrest⟩ := Text.exists_eq_run ' ' line
  rw [tabbed_run hrest, List.count_append, List.count_append, List.count_replicate,
    List.count_replicate]
  rfl

theorem newline_not_mem_tabbed (width : Nat) {line : Text} (h : '\n' ∉ line.dropLast) :
    '\n' ∉ (tabbed width line).dropLast := by
  obtain ⟨n, rest, rfl, hrest⟩ := Text.exists_eq_run ' ' line
  rw [tabbed_run hrest]
  cases rest with
  | nil =>
    intro hmem
    have htab := List.eq_of_mem_replicate (List.append_nil _ ▸ List.dropLast_subset _ hmem)
    cases htab
  | cons c rest =>
    rw [List.dropLast_append_of_ne_nil (List.cons_ne_nil c rest), List.mem_append] at h ⊢
    rintro (hmem | hmem)
    · cases List.eq_of_mem_replicate hmem
    · exact h (.inr hmem)

theorem getLast?_tabbed (width : Nat) {line : Text} (h : line.getLast? = some '\n') :
    (tabbed width line).getLast? = some '\n' := by
  obtain ⟨n, rest, rfl, hrest⟩ := Text.exists_eq_run ' ' line
  rw [tabbed_run hrest]
  cases hlast : rest.getLast? with
  | none =>
    rw [List.getLast?_append, hlast, Option.none_or] at h
    cases List.eq_of_mem_replicate (List.mem_of_getLast? h)
  | some c => rwa [List.getLast?_append, hlast, Option.some_or] at h ⊢

end Indent

/-! ### All lines -/

namespace Text

/-- The lines of a text with tabs: only the last one can have vanished. -/
def tabbedLines (width : Nat) (lines : List Text) : List Text :=
  (lines.map (Indent.tabbed width)).filter (· ≠ [])

theorem tabbedLines_cons_of_ne {width : Nat} {line : Text} (h : Indent.tabbed width line ≠ [])
    (rest : List Text) :
    tabbedLines width (line :: rest) = Indent.tabbed width line :: tabbedLines width rest := by
  rw [tabbedLines, List.map_cons, List.filter_cons_of_pos (by simpa using h)]
  rfl

theorem tabbedLines_cons_of_eq {width : Nat} {line : Text} (h : Indent.tabbed width line = [])
    (rest : List Text) : tabbedLines width (line :: rest) = tabbedLines width rest := by
  rw [tabbedLines, List.map_cons, List.filter_cons_of_neg (by simpa using h)]
  rfl

theorem AreLines.eq_nil_of_tabbed {width : Nat} {line : Text} {rest : List Text}
    (h : AreLines (line :: rest)) (hnil : Indent.tabbed width line = []) : rest = [] := by
  by_contra hmore
  have hlast := Indent.getLast?_tabbed width ((cons_iff.mp h).2.2.1 hmore)
  rw [hnil] at hlast
  cases hlast

theorem areLines_tabbedLines (width : Nat) {lines : List Text} (h : AreLines lines) :
    AreLines (tabbedLines width lines) := by
  induction lines with
  | nil => exact .nil
  | cons line rest ih =>
    obtain ⟨-, hsingle, hended, hrest⟩ := AreLines.cons_iff.mp h
    by_cases hnil : Indent.tabbed width line = []
    · rw [tabbedLines_cons_of_eq hnil]
      exact ih hrest
    · rw [tabbedLines_cons_of_ne hnil, AreLines.cons_iff]
      refine ⟨hnil, Indent.newline_not_mem_tabbed width hsingle, ?_, ih hrest⟩
      intro hmore
      apply Indent.getLast?_tabbed
      apply hended
      rintro rfl
      exact hmore rfl

theorem splitLines_tabbed (width : Nat) (source : Text) :
    splitLines (tabbed width source) = tabbedLines width (splitLines source) := by
  have hlines := splitLines_flatten (areLines_tabbedLines width (areLines_splitLines source))
  rwa [tabbedLines, List.flatten_filter_ne_nil] at hlines

theorem count_newline_tabbed (width : Nat) (source : Text) :
    (tabbed width source).count '\n' = source.count '\n' := by
  have hsource : source.count '\n' = ((splitLines source).map (List.count '\n')).sum := by
    rw [← List.count_flatten, flatten_splitLines]
  rw [tabbed, List.count_flatten, List.map_map, hsource]
  congr 1
  apply List.map_congr_left
  intro line _
  exact Indent.count_newline_tabbed width line

end Text

namespace Token

theorem map_outline_place (keywords : Keywords) (row : Row) (offset : Nat)
    (lexemes : List Lexeme) :
    (place keywords row offset lexemes).map outline =
      (lexemes.filterMap (Lexeme.reading? keywords)).map fun reading =>
        ⟨reading.1, reading.2, row.line.number, row.depth⟩ := by
  induction lexemes generalizing offset with
  | nil => rfl
  | cons lexeme rest ih =>
    rw [place, List.filterMap_cons, Lexeme.reading?]
    cases hkind : lexeme.kind? keywords with
    | none => exact ih _
    | some kind =>
      rw [List.map_cons, ih]
      rfl

section Lines

variable (width width' : Nat) {lines : List Text}

theorem map_outline_ofLines_tabbed (keywords : Keywords) (hlines : Text.AreLines lines)
    (huniform : ∀ line ∈ lines, Indent.IsUniform line) (number start start' previous : Nat) :
    (ofLines ⟨width', keywords⟩ number start' previous (Text.tabbedLines width lines)).map outline =
      (ofLines ⟨width, keywords⟩ number start previous lines).map outline := by
  induction lines generalizing number start start' previous with
  | nil => rfl
  | cons line rest ih =>
    obtain ⟨hline, hrest⟩ := List.forall_mem_cons.mp huniform
    have hreadings := Indent.readings_tabbed width keywords hline
    by_cases hnil : Indent.tabbed width line = []
    · obtain rfl := hlines.eq_nil_of_tabbed hnil
      rw [hnil] at hreadings
      rw [Text.tabbedLines_cons_of_eq hnil, ofLines_cons, List.map_append, ofRow,
        map_outline_place, ← hreadings, Lexeme.scan]
      rfl
    · rw [Text.tabbedLines_cons_of_ne hnil, ofLines_cons, ofLines_cons, List.map_append,
        List.map_append, ofRow, ofRow, map_outline_place, map_outline_place, hreadings,
        Indent.depthAfter_tabbed width width' previous hline,
        ih (Text.AreLines.cons_iff.mp hlines).2.2.2 hrest]

end Lines

end Token

/-! ### Boundaries -/

theorem Row.boundaries_tabbed (width width' : Nat) {lines : List Text}
    (hlines : Text.AreLines lines) (huniform : ∀ line ∈ lines, Indent.IsUniform line)
    (previous number start start' : Nat) :
    (place width' previous
        (Line.place number start' (Text.tabbedLines width lines))).flatMap Boundary.ofRow =
      (place width previous (Line.place number start lines)).flatMap Boundary.ofRow := by
  induction lines generalizing previous number start start' with
  | nil => rfl
  | cons line rest ih =>
    obtain ⟨hline, hrest⟩ := List.forall_mem_cons.mp huniform
    rw [Line.place, place, List.flatMap_cons]
    by_cases hnil : Indent.tabbed width line = []
    · have hdepth : (Indent.depth? width line).getD previous = previous :=
        Indent.depthAfter_of_tabbed_eq_nil previous hline hnil
      obtain rfl := hlines.eq_nil_of_tabbed hnil
      rw [Text.tabbedLines_cons_of_eq hnil, Boundary.ofRow, hdepth, Boundary.between_self]
      rfl
    · rw [Text.tabbedLines_cons_of_ne hnil, Line.place, place, List.flatMap_cons,
        Indent.depth?_tabbed width width' hline, ih (Text.AreLines.cons_iff.mp hlines).2.2.2 hrest]
      rfl

theorem Text.foldl_depthAfter_tabbed (width width' previous : Nat) {lines : List Text}
    (huniform : ∀ line ∈ lines, Indent.IsUniform line) :
    (tabbedLines width lines).foldl (Indent.depthAfter width') previous =
      lines.foldl (Indent.depthAfter width) previous := by
  induction lines generalizing previous with
  | nil => rfl
  | cons line rest ih =>
    obtain ⟨hline, hrest⟩ := List.forall_mem_cons.mp huniform
    by_cases hnil : Indent.tabbed width line = []
    · rw [tabbedLines_cons_of_eq hnil, List.foldl_cons,
        Indent.depthAfter_of_tabbed_eq_nil previous hline hnil, ih _ hrest]
    · rw [tabbedLines_cons_of_ne hnil, List.foldl_cons, List.foldl_cons,
        Indent.depthAfter_tabbed width width' previous hline, ih _ hrest]

namespace Listing

variable (width width' : Nat) {source : Text}
  (huniform : ∀ line ∈ Text.splitLines source, Indent.IsUniform line)

include huniform

theorem outline_tabbed (keywords : Keywords) :
    (read ⟨width', keywords⟩ (Text.tabbed width source)).outline =
      (read ⟨width, keywords⟩ source).outline := by
  have hlines := Token.map_outline_ofLines_tabbed width width' keywords
    (Text.areLines_splitLines source) huniform 1 0 0 1
  have hend : (Token.endOf (Text.tabbed width source)).outline = (Token.endOf source).outline := by
    simp only [Token.outline, Token.endOf, Text.count_newline_tabbed]
  rw [outline, outline, read_tokens, read_tokens, Token.tokensOf_eq, Token.tokensOf_eq,
    Text.splitLines_tabbed, List.map_append, List.map_append, hlines, List.map_singleton, hend]
  rfl

theorem boundariesOf_tabbed :
    boundariesOf width' (Text.tabbed width source) = boundariesOf width source := by
  have hrows := Row.boundaries_tabbed width width' (Text.areLines_splitLines source) huniform 1 1 0 0
  have hlast := Text.foldl_depthAfter_tabbed width width' 1 huniform
  have hend : (Token.endOf (Text.tabbed width source)).line = (Token.endOf source).line := by
    simp only [Token.endOf, Text.count_newline_tabbed]
  rw [boundariesOf, boundariesOf, lastDepth, lastDepth, rowsOf, rowsOf, linesOf, linesOf,
    Row.getD_depth_getLast?, Row.getD_depth_getLast?, Text.splitLines_tabbed, hrows, hlast, hend]

end Listing

/-- A text with tabs in place of spaces, read with any width, has the outline and the boundaries of
the text with spaces, so that the same definitions, ancestors and lines of blocks are found in it. -/
theorem Listing.ofSource_tabbed {width width' : Nat} (hwidth : 1 ≤ width) (hwidth' : 1 ≤ width')
    (keywords : Keywords) {source : Text}
    (huniform : ∀ line ∈ Text.splitLines source, Indent.IsUniform line) :
    ∃ spaced tabbed, ofSource ⟨width, keywords⟩ source = .ok spaced ∧
      ofSource ⟨width', keywords⟩ (Text.tabbed width source) = .ok tabbed ∧
      tabbed.SameOutline spaced := by
  refine ⟨_, _, ofSource_eq_ok hwidth source, ofSource_eq_ok hwidth' (Text.tabbed width source), ?_⟩
  have houtline := outline_tabbed width width' huniform keywords
  constructor
  case outline => exact houtline
  case boundaries => exact boundariesOf_tabbed width width' huniform
  case definitions =>
    intro kind name
    rw [definitions_eq_outline, definitions_eq_outline, houtline]
  case ancestor =>
    intro index
    rw [index?_ancestor_eq_outline, index?_ancestor_eq_outline, houtline]
  case blockLines =>
    intro kind literal
    rw [blockLines_eq_outline, blockLines_eq_outline, houtline]

/-- A width that is not full, a line with nothing on it, a carriage return behind the indentation
and a last line that vanishes. -/
theorem Listing.ofSource_tabbed_partial :
    let source := "class A:\n     \r\n      def f():\n        \r\tx\n  y\n   ".toList
    Text.tabbed 4 source = "class A:\n\t\r\n\tdef f():\n\t\t\r\tx\ny\n".toList ∧
      ∃ spaced tabbed, ofSource ⟨4, .python⟩ source = .ok spaced ∧
        ofSource ⟨3, .python⟩ (Text.tabbed 4 source) = .ok tabbed ∧
        tabbed.blockLines .identifier "f".toList = .ok (3, 5) ∧ tabbed.SameOutline spaced := by
  intro source
  have huniform : ∀ line ∈ Text.splitLines source, Indent.IsUniform line := by decide +kernel
  obtain ⟨spaced, tabbed, hspaced, htabbed, h⟩ :=
    ofSource_tabbed (by decide : 1 ≤ 4) (by decide : 1 ≤ 3) .python huniform
  have hlines : (read ⟨4, .python⟩ source).blockLines .identifier "f".toList = .ok (3, 5) := by
    decide +kernel
  refine ⟨by decide +kernel, spaced, tabbed, hspaced, htabbed, ?_, h⟩
  rw [h.blockLines, ← Except.ok.inj hspaced, hlines]

end Excerpt
