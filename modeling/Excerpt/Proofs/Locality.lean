import Excerpt.Proofs.Excerpts
/-!
# Excerpts stand on their own

An excerpt holds all that its extraction depends on. Extracting the definition from its own excerpt
gives the excerpt back, and where a block ends within a text, what stands before and behind that
text does not change what is extracted.
-/
namespace Excerpt

/-! ### Lines of a block -/

namespace Block

variable {dialect : Dialect} {depth : Nat}

theorem lastPart?_eq_none_of_le {depth' : Nat} (hle : depth' ≤ depth) {line : Text}
    (h : lastPart? dialect depth line = none) : lastPart? dialect depth' line = none := by
  rw [lastPart?] at h ⊢
  by_cases hdeep : 1 + Indent.level dialect.indentWidth line ≤ depth'
  · rw [if_pos (by omega)] at h
    rw [if_pos hdeep, h]
  · rw [if_neg hdeep]

theorem lastPart?_lastPart? {depth' : Nat} {line part : Text}
    (h : lastPart? dialect depth line = some part) : lastPart? dialect depth' part = none := by
  obtain ⟨first, second, hscan, -, rfl, hsilent⟩ := exists_of_lastPart? h
  rw [lastPart?, lead?, Lexeme.scan_join_left hscan, hsilent]
  split <;> rfl

/-- A block that is taken out of a text is not cut any further at its own depth or a lower one. -/
theorem take_take {depth' : Nat} (hle : depth' ≤ depth) (lines : List Text) :
    take dialect depth' (take dialect depth lines) = take dialect depth lines := by
  induction lines with
  | nil => rfl
  | cons line below ih =>
    rw [take]
    cases hpart : lastPart? dialect depth line with
    | none =>
      dsimp only
      rw [take, lastPart?_eq_none_of_le hle hpart]
      exact congrArg (line :: ·) ih
    | some part =>
      dsimp only
      split
      · rfl
      · rw [take, lastPart?_lastPart? hpart]
        rfl

theorem newline_not_mem_lastPart? {line part : Text} (hline : '\n' ∉ line.dropLast)
    (h : lastPart? dialect depth line = some part) : '\n' ∉ part := by
  obtain ⟨first, second, hscan, hne, rfl, -⟩ := exists_of_lastPart? h
  rw [← Lexeme.join_scan line, hscan, Lexeme.join_append] at hline
  apply Text.newline_not_mem_left hline
  exact Lexeme.join_ne_nil hscan hne

theorem areLines_cons_take {line : Text} {below : List Text} (h : Text.AreLines (line :: below))
    (htake : Text.AreLines (take dialect depth below)) :
    Text.AreLines (line :: take dialect depth below) := by
  obtain ⟨hne, hsingle, hended, -⟩ := Text.AreLines.cons_iff.1 h
  refine Text.AreLines.cons_iff.2 ⟨hne, hsingle, ?_, htake⟩
  intro hmore
  apply hended
  rintro rfl
  exact hmore rfl

theorem areLines_take {lines : List Text} (h : Text.AreLines lines) :
    Text.AreLines (take dialect depth lines) := by
  induction lines with
  | nil => exact .nil
  | cons line below ih =>
    obtain ⟨-, hsingle, -, hbelow⟩ := Text.AreLines.cons_iff.1 h
    rw [take]
    cases hpart : lastPart? dialect depth line with
    | none => exact areLines_cons_take h (ih hbelow)
    | some part =>
      dsimp only
      split
      · exact .nil
      · next hne =>
        refine Text.AreLines.cons_iff.2 ⟨hne, ?_, by simp, .nil⟩
        intro hmem
        exact newline_not_mem_lastPart? hsingle hpart ((List.dropLast_sublist _).subset hmem)

theorem take_append {lines : List Text} (more : List Text)
    (h : (take dialect depth lines).flatten ≠ lines.flatten) :
    take dialect depth (lines ++ more) = take dialect depth lines := by
  induction lines with
  | nil => exact absurd rfl h
  | cons line below ih =>
    rw [take] at h
    rw [List.cons_append, take, take]
    cases hpart : lastPart? dialect depth line with
    | none =>
      rw [hpart] at h
      refine congrArg (line :: ·) (ih ?_)
      intro hsame
      apply h
      rw [List.flatten_cons, List.flatten_cons, hsame]
    | some part => rfl

end Block

/-! ### A site in its own excerpt -/

namespace Site

/-- A site with no more around it than its excerpt. -/
def alone (dialect : Dialect) (decorated : Bool) (site : Site) : Site :=
  if decorated = true ∧ site.decorators ≠ [] then
    { site with above := site.decorators, below := site.blockBelow dialect }
  else ⟨[], [], site.lexeme, site.behind, site.blockBelow dialect⟩

theorem flatten_lines_alone (dialect : Dialect) (decorated : Bool) (site : Site) :
    (site.alone dialect decorated).lines.flatten = site.excerpt dialect decorated := by
  rw [alone, excerpt, blockText]
  split
  · simp [lines, line]
  · simp [lines, line]

section IsIn

variable {dialect : Dialect} {site : Site} {source : Text} {kind : Kind}

private theorem decorators_sublist (site : Site) : site.decorators.Sublist site.above :=
  (List.rtakeWhile_suffix _ _).sublist

theorem areLines_alone (h : site.IsIn source) (decorated : Bool) :
    Text.AreLines (site.alone dialect decorated).lines := by
  obtain ⟨habove, hline, hended⟩ := Text.AreLines.append_iff.1 (areLines h)
  have hblock : Text.AreLines (site.blockBelow dialect) :=
    Block.areLines_take (Text.AreLines.cons_iff.1 hline).2.2.2
  rw [alone]
  split
  · apply Text.AreLines.append_iff.2
    refine ⟨habove.sublist (decorators_sublist site), Block.areLines_cons_take hline hblock, ?_⟩
    intro _ text hmem
    exact hended (List.cons_ne_nil _ _) text ((decorators_sublist site).subset hmem)
  · have hne : Lexeme.join (site.lexeme :: site.behind) ≠ [] :=
      Lexeme.join_ne_nil h.scan_eq (List.cons_ne_nil _ _)
    rw [line, Lexeme.join_append] at hline
    exact Block.areLines_cons_take (hline.of_append hne) hblock

theorem find?_alone {keywords : Keywords} {name : Text}
    (h : find? keywords kind name (Text.splitLines source) = some site) (decorated : Bool) :
    find? keywords kind name (site.alone dialect decorated).lines =
      some (site.alone dialect decorated) := by
  obtain ⟨-, habove, hown⟩ := find?_eq_some_iff.1 h
  rw [alone]
  split
  · apply find?_line h
    apply find?_eq_none_iff.2
    intro text hmem
    exact habove text ((decorators_sublist site).subset hmem)
  · -- The line is cut off in front of the keyword, so the keyword is the first lexeme left.
    obtain ⟨-, -, hscan, hdef⟩ := of_findIn?_eq_some hown
    have hrest : Lexeme.scan (Lexeme.join (site.lexeme :: site.behind)) =
        site.lexeme :: site.behind := Lexeme.scan_join_right hscan
    refine find?_eq_some_iff.2 ⟨rfl, by simp, ?_⟩
    rw [line, List.nil_append, hrest, findIn?, if_pos hdef]

theorem level_behind (h : site.IsIn source)
    (hkind : site.lexeme.kind? dialect.keywords = some kind) :
    Indent.level dialect.indentWidth (Lexeme.join (site.lexeme :: site.behind)) = 0 := by
  have hmem : site.lexeme ∈ Lexeme.scan site.line := by simp [h.scan_eq]
  obtain ⟨c, rest, hlexeme, -⟩ := Lexeme.exists_of_mem_scan hmem
  have hgap : Shape.isGap c ≠ true := by
    intro hgap
    rw [hlexeme, (Lexeme.kind?_eq_none_iff _ _ _).2 hgap] at hkind
    cases hkind
  have hspace : c ≠ ' ' := by rintro rfl; exact hgap rfl
  have htab : c ≠ '\t' := by rintro rfl; exact hgap rfl
  simp [Indent.level, hlexeme, hspace, htab]

theorem blockText_congr {other : Site} (hlexeme : other.lexeme = site.lexeme)
    (hbehind : other.behind = site.behind)
    (hbelow : other.blockBelow dialect = site.blockBelow dialect) :
    other.blockText dialect = site.blockText dialect := by
  rw [blockText, blockText, hlexeme, hbehind, hbelow]

/-- An excerpt depends on the line of its site, on the decorators and on the block below. -/
theorem excerpt_congr {other : Site} (hbefore : other.before = site.before)
    (hlexeme : other.lexeme = site.lexeme) (hbehind : other.behind = site.behind)
    (hdecorators : other.decorators = site.decorators)
    (hbelow : other.blockBelow dialect = site.blockBelow dialect) (decorated : Bool) :
    other.excerpt dialect decorated = site.excerpt dialect decorated := by
  rw [excerpt, excerpt, hbefore, hdecorators, blockText_congr hlexeme hbehind hbelow]

theorem excerpt_alone (h : site.IsIn source)
    (hkind : site.lexeme.kind? dialect.keywords = some kind) (decorated : Bool) :
    (site.alone dialect decorated).excerpt dialect decorated = site.excerpt dialect decorated := by
  rw [alone]
  split
  · apply excerpt_congr
    · rfl
    · rfl
    · rfl
    · exact List.rtakeWhile_idempotent _ _
    · exact Block.take_take (Nat.le_refl _) site.below
  · next hplain =>
    -- The line of the keyword has lost its indentation, so the block is taken at a lower depth.
    have hlevel : 1 + Indent.level dialect.indentWidth (Lexeme.join (site.lexeme :: site.behind)) ≤
        1 + Indent.level dialect.indentWidth site.line := by
      rw [level_behind h hkind]
      omega
    rw [excerpt, excerpt, if_neg hplain, if_neg (by simp [decorators])]
    exact blockText_congr rfl rfl (Block.take_take hlevel site.below)

end IsIn

end Site

/-- Extraction from an excerpt gives the excerpt. -/
theorem extract_excerpt {dialect : Dialect} (hwidth : 1 ≤ dialect.indentWidth) {source : Text}
    {decorated : Bool} {target : Target} (hplain : target.isPlain = true) {snippet : Text}
    (h : (extract dialect source decorated target).result = .ok snippet) :
    (extract dialect snippet decorated target).result = .ok snippet := by
  rw [extract_eq hwidth source decorated hplain] at h
  cases hfind : Site.find? dialect.keywords target.kind target.name (Text.splitLines source) with
  | none =>
    rw [hfind] at h
    cases h
  | some site =>
    rw [hfind, Except.ok.injEq] at h
    subst h
    obtain ⟨hsite, hkind, -⟩ := Site.of_find?_eq_some hfind
    have hlines : Text.splitLines (site.excerpt dialect decorated) =
        (site.alone dialect decorated).lines := by
      rw [← Site.flatten_lines_alone]
      exact Text.splitLines_flatten (Site.areLines_alone hsite decorated)
    rw [extract_eq hwidth _ decorated hplain, hlines, Site.find?_alone hfind decorated]
    exact congrArg Except.ok (Site.excerpt_alone hsite hkind decorated)

theorem extract_excerpt_nested :
    let source := ("if x:\n    # 1\n    @a\n    def f(): # 2\n\n        y = 'z\n" ++
      "    f()\n").toList
    let snippet := "    @a\n    def f(): # 2\n\n        y = 'z\n    ".toList
    let target := Target.ofFunction "f".toList none
    (extract {} source true target).result = .ok snippet ∧
      (extract {} snippet true target).result = .ok snippet := by
  intro source snippet target
  have hfirst : (extract {} source true target).result = .ok snippet := by decide +kernel
  exact ⟨hfirst, extract_excerpt (by decide) rfl hfirst⟩

/-! ### A site among other lines -/

namespace Listing

theorem mem_of_isDecoratorLine {column : Nat} {line : Text}
    (h : isDecoratorLine column line = true) : '@' ∈ line := by
  rw [isDecoratorLine, Text.splitAtByte?] at h
  by_cases hcut : Text.IsBoundary line (column - 1)
  · simp only [if_pos hcut, Bool.and_eq_true, beq_iff_eq] at h
    have hmem : '@' ∈ Text.dropBytes (column - 1) line := List.mem_of_head? h.2
    rw [← Text.takeBytes_append_dropBytes (column - 1) line]
    exact List.mem_append_right _ hmem
  · rw [if_neg hcut] at h
    cases h

end Listing

namespace Site

variable {dialect : Dialect} {site : Site} {source : Text} {kind : Kind}

def within (above below : List Text) (site : Site) : Site :=
  { site with above := above ++ site.above, below := site.below ++ below }

private theorem rtakeWhile_append_of_neg {p : Text → Bool} {line : Text} (h : ¬ p line = true)
    (first second : List Text) :
    (first ++ [line] ++ second).rtakeWhile p = second.rtakeWhile p := by
  induction second using List.reverseRecOn with
  | nil => rw [List.append_nil, List.rtakeWhile_concat_neg p first line h, List.rtakeWhile_nil]
  | append_singleton second last ih =>
    rw [← List.append_assoc, List.rtakeWhile_concat, List.rtakeWhile_concat, ih]

/-- An empty line ends the decorators of a site. -/
theorem decorators_within (site : Site) (front below : List Text) :
    (site.within (front ++ [['\n']]) below).decorators = site.decorators := by
  apply rtakeWhile_append_of_neg
  intro hline
  have hmem := Listing.mem_of_isDecoratorLine hline
  simp at hmem

theorem blockBelow_within (h : site.IsIn source) (above below : List Text)
    (hends : (site.token dialect kind).start + Text.byteLength (site.blockText dialect) <
      Text.byteLength source) :
    (site.within above below).blockBelow dialect = site.blockBelow dialect := by
  apply Block.take_append
  intro (hsame : (site.blockBelow dialect).flatten = site.below.flatten)
  rw [start_add_byteLength_blockText, byteLength_eq h, hsame] at hends
  exact Nat.lt_irrefl _ hends

theorem find?_within {keywords : Keywords} {name : Text} {lines above : List Text}
    (h : find? keywords kind name lines = some site)
    (hnone : find? keywords kind name above = none) (below : List Text) :
    find? keywords kind name (above ++ lines ++ below) = some (site.within above below) := by
  obtain ⟨hlines, habove, -⟩ := find?_eq_some_iff.1 h
  have hall : find? keywords kind name (above ++ site.above) = none := by
    apply find?_eq_none_iff.2
    intro text hmem
    rcases List.mem_append.1 hmem with hmem | hmem
    · exact find?_eq_none_iff.1 hnone text hmem
    · exact habove text hmem
  have hmoved := find?_line h hall (site.below ++ below)
  rw [hlines, Site.lines, List.append_assoc, List.append_assoc, ← List.append_assoc above,
    List.cons_append]
  exact hmoved

theorem excerpt_within (h : site.IsIn source) {above : List Text}
    (habove : above = [] ∨ ∃ front, above = front ++ [['\n']]) (below : List Text)
    (hends : (site.token dialect kind).start + Text.byteLength (site.blockText dialect) <
      Text.byteLength source) (decorated : Bool) :
    (site.within above below).excerpt dialect decorated = site.excerpt dialect decorated := by
  apply excerpt_congr
  · rfl
  · rfl
  · rfl
  · rcases habove with rfl | ⟨front, rfl⟩
    · rfl
    · exact decorators_within site front below
  · exact blockBelow_within h above below hends

end Site

/-- Where the block of a definition ends within a text, neither what follows the text nor what
precedes it, up to an empty line and without such a definition, changes what is extracted. -/
theorem extract_within {dialect : Dialect} (hwidth : 1 ≤ dialect.indentWidth) (decorated : Bool)
    {target : Target} (hplain : target.isPlain = true) {above text : Text} (below : Text)
    (habove : above = [] ∨ Text.EndsBlank above)
    (hnone : (Listing.read dialect above).definitions target.kind target.name = [])
    (htext : text.getLast? = some '\n') {index : Nat} {block : Span}
    (hfirst : ((Listing.read dialect text).definitions target.kind target.name).head? = some index)
    (hblock : (Listing.read dialect text).blockSpan index = .ok block)
    (hends : block.stop < Text.byteLength text) :
    ∃ snippet, (extract dialect text decorated target).result = .ok snippet ∧
      (extract dialect (above ++ text ++ below) decorated target).result = .ok snippet := by
  have hn := target.kind_ne_newline
  have hended : Text.EndsLine above := by
    rcases habove with hnil | hblank
    · exact .inl hnil
    · exact hblank.endsLine
  have hlines : Text.splitLines (above ++ text ++ below) =
      Text.splitLines above ++ Text.splitLines text ++ Text.splitLines below := by
    rw [List.append_assoc, Text.splitLines_append hended, Text.splitLines_append (.inr htext),
      List.append_assoc]
  have hupper : Text.splitLines above = [] ∨
      ∃ front, Text.splitLines above = front ++ [['\n']] := by
    rcases habove with rfl | hblank
    · exact .inl rfl
    · exact .inr hblank.exists_splitLines_eq
  have hmissing : Site.find? dialect.keywords target.kind target.name (Text.splitLines above) =
      none := by
    have hhead := Listing.head?_definitions_read dialect above hn target.name
    rw [hnone, List.head?_nil, eq_comm, Option.map_eq_none_iff] at hhead
    exact hhead
  rw [Listing.head?_definitions_read dialect text hn, Option.map_eq_some_iff] at hfirst
  obtain ⟨site, hfind, rfl⟩ := hfirst
  obtain ⟨hsite, hkind, hname⟩ := Site.of_find?_eq_some hfind
  rw [Site.blockSpan_eq hsite hkind target.isDefinition_kind hname, Except.ok.injEq] at hblock
  subst hblock
  refine ⟨site.excerpt dialect decorated, ?_, ?_⟩
  · rw [extract_eq hwidth text decorated hplain, hfind]
  · rw [extract_eq hwidth _ decorated hplain, hlines, Site.find?_within hfind hmissing]
    exact congrArg Except.ok (Site.excerpt_within hsite hupper _ hends decorated)

theorem extract_within_decorators :
    let above := "class A:\n    pass\n@old\n\n".toList
    let text := "@new\nclass B:\n    def f(): pass\n    # end\nx = 1\n".toList
    let below := "    class B: pass\n".toList
    let target := Target.ofClass "B".toList
    let snippet := "@new\nclass B:\n    def f(): pass\n    # end\n".toList
    (extract {} text true target).result = .ok snippet ∧
      (extract {} (above ++ text ++ below) true target).result = .ok snippet := by
  intro above text below target snippet
  have hsnippet : (extract {} text true target).result = .ok snippet := by decide +kernel
  have hblank : Text.EndsBlank above := .inr ⟨"class A:\n    pass\n@old".toList, rfl⟩
  have hnone : (Listing.read {} above).definitions target.kind target.name = [] := by decide +kernel
  have hfirst : ((Listing.read {} text).definitions target.kind target.name).head? = some 3 := by
    decide +kernel
  have hblock : (Listing.read {} text).blockSpan 3 = .ok ⟨5, 42⟩ := by decide +kernel
  obtain ⟨found, htext, hlonger⟩ := extract_within (by decide) true rfl below (.inr hblank) hnone
    (by decide) hfirst hblock (by decide)
  rw [hsnippet, Except.ok.injEq] at htext
  subst htext
  exact ⟨hsnippet, hlonger⟩

end Excerpt
