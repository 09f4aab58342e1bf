import Excerpt.Proofs.Nesting
import Excerpt.Proofs.Refusals
import Excerpt.Proofs.ReturnedSites
import Excerpt.Proofs.Tabs
/-!
# Decorators stay with their definition

Decorators are found going up, by the column of their `@`, and blocks are ended going down, by the
depth of tokens. Where lines are indented by spaces and definitions begin their lines, both agree:
the decorators of a definition are as deep as its own line, so a block above ends before the first
of them or takes in all of them, and the definition with them.
-/
namespace Excerpt

def Span.Holds (span : Span) (byte : Nat) : Prop := span.start ≤ byte ∧ byte < span.stop

namespace Indent

/-- Whether the blanks that a line begins with, up to its newline, are all spaces. -/
def IsSpaced (line : Text) : Prop :=
  ∀ c ∈ line.takeWhile (fun c => Text.isBlank c && c != '\n'), c = ' '

instance (line : Text) : Decidable (IsSpaced line) := List.decidableBAll _ _

/-- Whether a line begins with so many spaces, and with content behind them. -/
def IsSetIn (n : Nat) (line : Text) : Prop :=
  ∃ c rest, line = List.replicate n ' ' ++ c :: rest ∧ Shape.isGap c = false ∧ c ≠ '\n'

end Indent

namespace Listing

def LeadsLine (listing : Listing) (index : Nat) : Prop :=
  ∀ token ∈ listing.tokens[index]?, ∀ earlier ∈ listing.tokens.take index,
    earlier.line ≠ token.line

instance (listing : Listing) (index : Nat) : Decidable (listing.LeadsLine index) :=
  inferInstanceAs (Decidable (∀ _ ∈ listing.tokens[index]?, _))

/-- Whether a byte is one of the spaces that the first line of a range begins with. -/
def IsLeadingSpace (listing : Listing) (span : Span) (byte : Nat) : Prop :=
  ∃ line ∈ listing.lines, line.span.Holds span.start ∧ line.start ≤ byte ∧
    byte < line.start + (line.text.takeWhile (· = ' ')).length

end Listing

/-! ### Lines that are set in -/

namespace Text

theorem isBlank_of_isGap {c : Char} (h : Shape.isGap c = true) : isBlank c = true := by
  simp only [Shape.isGap, Shape.isControl, Bool.or_eq_true, beq_iff_eq] at h
  rcases h with (rfl | rfl) | rfl | rfl <;> decide

theorem isBlank_of_startsWord {c : Char} (h : Shape.startsWord c = true) : isBlank c = false := by
  delta Shape.startsWord Char.isAlpha Char.isUpper Char.isLower at h
  simp only [Bool.or_eq_true, Bool.and_eq_true, decide_eq_true_eq, beq_iff_eq,
    UInt32.le_iff_toNat_le, ge_iff_le] at h
  change ((65 ≤ c.toNat ∧ c.toNat ≤ 90) ∨ 97 ≤ c.toNat ∧ c.toNat ≤ 122) ∨ c = '_' at h
  rcases h with hletter | rfl
  · rw [← Bool.not_eq_true]
    simp only [isBlank, Bool.or_eq_true, Bool.and_eq_true, decide_eq_true_eq, beq_iff_eq]
    omega
  · decide

end Text

namespace Indent

variable {n : Nat} {line : Text}

theorem IsSpaced.isSetIn {indent rest : Text} {c : Char} (h : IsSpaced (indent ++ c :: rest))
    (hblank : ∀ d ∈ indent, Text.isBlank d = true) (hnewline : '\n' ∉ indent)
    (hgap : Shape.isGap c = false) (hc : c ≠ '\n') :
    IsSetIn (Text.byteLength indent) (indent ++ c :: rest) := by
  have hspaces : ∀ d ∈ indent, d = ' ' := by
    intro d hd
    apply h
    rw [List.takeWhile_append_of_pos]
    · exact List.mem_append_left _ hd
    · intro e he
      have hne : e ≠ '\n' := ne_of_mem_of_not_mem he hnewline
      simp [hblank e he, hne]
  have hindent := List.eq_replicate_of_mem hspaces
  rw [hindent, Text.byteLength_replicate rfl]
  exact ⟨c, rest, rfl, hgap, hc⟩

theorem IsSetIn.takeWhile_eq (h : IsSetIn n line) :
    line.takeWhile (· = ' ') = List.replicate n ' ' := by
  obtain ⟨c, rest, rfl, hgap, -⟩ := h
  apply (Text.takeWhile_run _ n).1
  rintro ⟨⟩
  cases hgap

theorem IsSetIn.level_eq (h : IsSetIn n line) (width : Nat) : level width line = n / width := by
  have hspaces := h.takeWhile_eq
  obtain ⟨c, rest, rfl, hgap, -⟩ := h
  have htab : (List.replicate n ' ' ++ c :: rest).head? ≠ some '\t' := by
    apply Text.head?_run _ (by decide)
    rintro ⟨⟩
    cases hgap
  have htabs := (Text.takeWhile_run htab 0).1
  rw [List.replicate_zero, List.nil_append] at htabs
  simp [level, hspaces, htabs]

theorem IsSetIn.takeWhile_isGap (h : IsSetIn n line) :
    hasContent line = true ∧ line.takeWhile Shape.isGap = List.replicate n ' ' := by
  obtain ⟨c, rest, rfl, hgap, hc⟩ := h
  have hspaces : ∀ p : Char → Bool, p ' ' = true → ∀ d ∈ List.replicate n ' ', p d = true := by
    intro p hp d hd
    rwa [List.eq_of_mem_replicate hd]
  constructor
  · rw [hasContent, List.takeWhile_append_of_pos (hspaces _ (by decide)),
      List.takeWhile_cons_of_pos (by simpa using hc)]
    simp [hgap]
  · rw [List.takeWhile_append_of_pos (hspaces _ rfl), List.takeWhile_cons_of_neg (by simp [hgap]),
      List.append_nil]

theorem IsSetIn.lt_byteLength (h : IsSetIn n line) : n < Text.byteLength line := by
  obtain ⟨c, rest, rfl, -, -⟩ := h
  have hc := c.utf8Size_pos
  rw [Text.byteLength_append, Text.byteLength_replicate rfl, Text.byteLength_cons]
  omega

end Indent

/-! ### Blocks over lines that are set in -/

theorem Keywords.python_ne_newline (word : Text) : python.classify word ≠ .newline :=
  classify_ne_newline (by decide +kernel) word

namespace Block

variable {dialect : Dialect} {depth : Nat}

theorem take_append_of_forall {first : List Text}
    (h : ∀ line ∈ first, lastPart? dialect depth line = none) (second : List Text) :
    take dialect depth (first ++ second) = first ++ take dialect depth second := by
  induction first with
  | nil => rfl
  | cons line below ih =>
    obtain ⟨hline, hbelow⟩ := List.forall_mem_cons.1 h
    rw [List.cons_append, take, hline, ih hbelow]
    rfl

theorem byteLength_lastPart?_le {line part : Text} (h : lastPart? dialect depth line = some part) :
    Text.byteLength part ≤ Text.byteLength line := by
  obtain ⟨first, second, hscan, -, rfl, -⟩ := exists_of_lastPart? h
  have hline := congrArg (fun lexemes => Text.byteLength (Lexeme.join lexemes)) hscan
  simp only [Lexeme.join_scan, Lexeme.join_append, Text.byteLength_append] at hline
  omega

/-- A block ends within the first of some lines, or takes them in. -/
theorem take_append_or (first second : List Text) :
    Text.byteLength (take dialect depth (first ++ second)).flatten ≤
        Text.byteLength first.flatten ∨
      take dialect depth (first ++ second) = first ++ take dialect depth second := by
  induction first with
  | nil => exact .inr rfl
  | cons line below ih =>
    rw [List.cons_append, take]
    cases hpart : lastPart? dialect depth line with
    | none =>
      rcases ih with hshort | hwhole
      · left
        simpa using hshort
      · right
        simp [hwhole]
    | some part =>
      left
      have hle := byteLength_lastPart?_le hpart
      simp only [flatten_lastLine, List.flatten_cons, Text.byteLength_append]
      omega

theorem lastPart?_none_or {line part : Text} (h : lastPart? dialect depth line = some part)
    (depth' : Nat) :
    lastPart? dialect depth' line = none ∨ lastPart? dialect depth' line = some part := by
  rw [lastPart?] at h ⊢
  split at h
  · rw [h]
    split
    · exact .inr rfl
    · exact .inl rfl
  · cases h

theorem byteLength_take_le (dialect : Dialect) {depth depth' : Nat} (hle : depth' ≤ depth)
    (lines : List Text) :
    Text.byteLength (take dialect depth lines).flatten ≤
      Text.byteLength (take dialect depth' lines).flatten := by
  induction lines with
  | nil => exact Nat.le_refl _
  | cons line below ih =>
    rw [take, take]
    cases hpart : lastPart? dialect depth line with
    | none =>
      rw [lastPart?_eq_none_of_le hle hpart]
      simpa using ih
    | some part =>
      rcases lastPart?_none_or hpart depth' with hnone | hsome
      · have hshort := byteLength_lastPart?_le hpart
        simp only [hnone, flatten_lastLine, List.flatten_cons, Text.byteLength_append]
        omega
      · rw [hsome]

section IsSetIn

variable {n : Nat} (hk : ∀ word, dialect.keywords.classify word ≠ .newline)

include hk

theorem lastPart?_of_isSetIn {line : Text} (h : Indent.IsSetIn n line)
    (hline : '\n' ∉ line.dropLast) :
    lastPart? dialect depth line =
      if n / dialect.indentWidth < depth then some (List.replicate n ' ') else none := by
  obtain ⟨hcontent, hgaps⟩ := h.takeWhile_isGap
  rw [lastPart?, h.level_eq, lead?_eq hk hline, if_pos hcontent, hgaps, Nat.add_comm]
  rfl

/-- Where lines are set in alike, a block above them ends before the content of the first one, or
is shallower than they are and takes them all in. -/
theorem take_of_isSetIn (depth : Nat) {run : List Text} (hrun : ∀ line ∈ run, Indent.IsSetIn n line)
    (hlines : ∀ line ∈ run, '\n' ∉ line.dropLast) (hne : run ≠ []) (between below : List Text) :
    Text.byteLength (take dialect depth (between ++ (run ++ below))).flatten ≤
        Text.byteLength between.flatten + n ∨
      depth ≤ n / dialect.indentWidth ∧
        take dialect depth (between ++ (run ++ below)) =
          between ++ (run ++ take dialect depth below) := by
  have hparts : ∀ line ∈ run, lastPart? dialect depth line = _ := fun line hmem =>
    lastPart?_of_isSetIn hk (hrun line hmem) (hlines line hmem)
  rcases take_append_or between (run ++ below) with hshort | hwhole
  · exact .inl (Nat.le_add_right_of_le hshort)
  · rw [hwhole]
    by_cases hdepth : n / dialect.indentWidth < depth
    · left
      obtain ⟨first, rest, rfl⟩ := List.exists_cons_of_ne_nil hne
      have hpart := hparts first List.mem_cons_self
      rw [if_pos hdepth] at hpart
      rw [List.cons_append, take, hpart, List.flatten_append, Text.byteLength_append,
        flatten_lastLine, Text.byteLength_replicate rfl]
    · right
      refine ⟨Nat.le_of_not_lt hdepth, ?_⟩
      rw [take_append_of_forall]
      intro line hmem
      rw [hparts line hmem, if_neg hdepth]

end IsSetIn

end Block

/-! ### Sites at the start of a line -/

theorem Lexeme.startsWord_of_isDefinition {text : Text} {lexeme : Lexeme} {kind : Kind}
    (h : lexeme ∈ scan text) (hkind : lexeme.kind? .python = some kind)
    (hdef : kind.isDefinition = true) :
    ∃ c rest, lexeme.text = c :: rest ∧ Shape.startsWord c = true := by
  obtain ⟨c, rest, htext, hstarts, hcontinues⟩ := exists_eq_of_mem_scan h
  cases hshape : lexeme.shape <;> rw [hshape] at hstarts hcontinues
  case word => exact ⟨c, rest, htext, hstarts⟩
  case atSign =>
    obtain rfl : c = '@' := hstarts
    obtain rfl : rest = [] := List.eq_nil_iff_forall_not_mem.2 hcontinues
    have hsign : lexeme.kind? .python = some .decorator := by
      simp only [kind?, hshape, htext]
      decide
    rw [hsign] at hkind
    cases hkind
    cases hdef
  case spaces | tabs | control => simp [kind?, hshape] at hkind
  all_goals
    simp only [kind?, hshape, Option.some.injEq] at hkind
    subst hkind
    cases hdef

namespace Site

variable {dialect : Dialect} {site : Site} {source : Text} {kind : Kind}

/-- Whether a word stands at a site, and nothing but gaps before it on its line. -/
def StartsLine (site : Site) : Prop :=
  ∃ c rest, site.line = Lexeme.join site.before ++ c :: rest ∧
    (∀ d ∈ Lexeme.join site.before, Shape.isGap d = true) ∧ Shape.startsWord c = true

/-- The lines of a definition from its first decorator to its keyword. -/
def opening (site : Site) : List Text := site.decorators ++ [site.line]

theorem opening_ne_nil (site : Site) : site.opening ≠ [] := by
  simp [opening]

theorem mem_lines_of_mem_opening {line : Text} (h : line ∈ site.opening) : line ∈ site.lines := by
  rcases List.mem_append.1 h with h | h
  · exact List.mem_append_left _ ((List.rtakeWhile_suffix _ _).mem h)
  · rw [List.mem_singleton.1 h]
    exact List.mem_append_right _ List.mem_cons_self

theorem take_index (h : site.IsIn source) (hkind : site.lexeme.kind? dialect.keywords = some kind) :
    (Listing.tokensOf dialect source).take (site.index dialect.keywords) =
      site.tokensBefore dialect := by
  rw [tokensOf_split h hkind, ← length_tokensBefore, List.take_left]

theorem kind?_before (dialect : Dialect) (h : site.IsIn source)
    (hkind : site.lexeme.kind? dialect.keywords = some kind)
    (hleads : (Listing.read dialect source).LeadsLine (site.index dialect.keywords)) :
    ∀ lexeme ∈ site.before, lexeme.kind? dialect.keywords = none := by
  have hnil : Token.place dialect.keywords (site.row dialect) 0 site.before = [] := by
    apply List.eq_nil_iff_forall_not_mem.2
    intro token hmem
    apply hleads _ (Listing.tokenAt_eq_ok_iff.1 (tokenAt_index h hkind)) token
    · rw [Listing.read_tokens, take_index h hkind]
      exact List.mem_append_right _ hmem
    · exact (Token.exists_of_mem_place _ _ hmem).1
  have hcount := Token.length_place dialect.keywords (site.row dialect) 0 site.before
  rw [hnil, List.length_nil, Lexeme.tokenCount, eq_comm, List.countP_eq_zero] at hcount
  intro lexeme hmem
  simpa [Lexeme.isToken] using hcount lexeme hmem

theorem isGap_of_mem_before (h : site.IsIn source)
    (hkind : site.lexeme.kind? dialect.keywords = some kind)
    (hleads : (Listing.read dialect source).LeadsLine (site.index dialect.keywords)) :
    ∀ c ∈ Lexeme.join site.before, Shape.isGap c = true := by
  intro c hc
  obtain ⟨text, htext, hc⟩ := List.mem_flatten.1 hc
  obtain ⟨lexeme, hlexeme, rfl⟩ := List.mem_map.1 htext
  have hscan : lexeme ∈ Lexeme.scan site.line := by simp [h.scan_eq, hlexeme]
  exact Lexeme.isGap_of_kind?_eq_none hscan (kind?_before dialect h hkind hleads lexeme hlexeme) c hc

theorem startsLine {width : Nat} (h : site.IsIn source)
    (hkind : site.lexeme.kind? .python = some kind) (hdef : kind.isDefinition = true)
    (hleads : (Listing.read ⟨width, .python⟩ source).LeadsLine (site.index .python)) :
    site.StartsLine := by
  have hmem : site.lexeme ∈ Lexeme.scan site.line := by simp [h.scan_eq]
  obtain ⟨c, rest, htext, hword⟩ := Lexeme.startsWord_of_isDefinition hmem hkind hdef
  refine ⟨c, rest ++ Lexeme.join site.behind, ?_, isGap_of_mem_before h hkind hleads, hword⟩
  rw [line_eq, Lexeme.join_cons, htext, List.cons_append]

theorem StartsLine.isSetIn (h : site.StartsLine) (hspaced : Indent.IsSpaced site.line) :
    Indent.IsSetIn (Text.byteLength (Lexeme.join site.before)) site.line := by
  obtain ⟨c, rest, hline, hgaps, hword⟩ := h
  have hstart := Text.isBlank_of_startsWord hword
  rw [hline] at hspaced ⊢
  apply hspaced.isSetIn
  · exact fun d hd => Text.isBlank_of_isGap (hgaps d hd)
  · intro hd
    exact absurd (hgaps _ hd) (by decide)
  · exact Shape.isGap_of_continuesWord (Shape.continuesWord_of_startsWord hword)
  · rintro rfl
    exact absurd hstart (by decide)

theorem StartsLine.not_isDecoratorLine (h : site.StartsLine) (column : Nat) :
    Listing.isDecoratorLine column site.line = false := by
  obtain ⟨c, rest, hline, hgaps, hword⟩ := h
  rw [← Bool.not_eq_true, Listing.isDecoratorLine_iff]
  intro hdecorator
  obtain ⟨indent, tail, heq, -, hblank⟩ := hdecorator
  have hcut := congrArg (List.dropWhile Text.isBlank) (hline.symm.trans heq)
  rw [List.dropWhile_append_of_pos fun d hd => Text.isBlank_of_isGap (hgaps d hd),
    List.dropWhile_append_of_pos (List.all_eq_true.1 hblank),
    List.dropWhile_cons_of_neg (by simp [Text.isBlank_of_startsWord hword]),
    List.dropWhile_cons_of_neg (by decide)] at hcut
  rw [(List.cons.inj hcut).1] at hword
  exact absurd hword (by decide)

theorem isSetIn_of_mem_opening (h : site.IsIn source) (hstarts : site.StartsLine)
    (hspaced : ∀ line ∈ Text.splitLines source, Indent.IsSpaced line) :
    ∀ line ∈ site.opening,
      Indent.IsSetIn (Text.byteLength (Lexeme.join site.before)) line := by
  intro line hmem
  have hlines := mem_lines_of_mem_opening hmem
  have hsingle := (areLines h).single line hlines
  rw [← h.lines_eq] at hlines
  rcases List.mem_append.1 hmem with hmem | hmem
  · obtain ⟨indent, rest, rfl, hlength, hblank⟩ :=
      Listing.isDecoratorLine_iff.1 (List.mem_rtakeWhile_imp hmem)
    rw [Nat.add_sub_cancel] at hlength
    rw [← hlength]
    apply (hspaced _ hlines).isSetIn
    · exact List.all_eq_true.1 hblank
    · exact Text.newline_not_mem_left hsingle (List.cons_ne_nil _ _)
    · decide
    · decide
  · obtain rfl := List.mem_singleton.1 hmem
    exact hstarts.isSetIn (hspaced _ hlines)

theorem isLeadingSpace (h : site.IsIn source) (hstarts : site.StartsLine)
    (hspaced : ∀ line ∈ Text.splitLines source, Indent.IsSpaced line) {upper : List Text}
    (habove : site.above = upper ++ site.decorators) {span : Span} {byte : Nat}
    (hupper : Text.byteLength upper.flatten ≤ span.start) (hspan : span.start ≤ byte)
    (hbyte : byte < Text.byteLength upper.flatten + Text.byteLength (Lexeme.join site.before)) :
    (Listing.read dialect source).IsLeadingSpace span byte := by
  obtain ⟨line, rest, hopening⟩ := List.exists_cons_of_ne_nil (opening_ne_nil site)
  have hlines : site.lines = upper ++ line :: (rest ++ site.below) := by
    rw [← List.cons_append, ← hopening, lines, habove, opening]
    simp
  have hset := isSetIn_of_mem_opening h hstarts hspaced line (by simp [hopening])
  have hlength := hset.lt_byteLength
  have hline : (Listing.read dialect source).lineAt upper.length = _ := lineAt_eq h hlines
  refine ⟨_, List.mem_of_getElem? (Listing.lineAt_eq_ok_iff.1 hline), ⟨hupper, ?_⟩,
    hupper.trans hspan, ?_⟩
  · show span.start < Text.byteLength upper.flatten + Text.byteLength line
    omega
  · rw [hset.takeWhile_eq, List.length_replicate]
    exact hbyte

theorem byteLength_upper_le (dialect : Dialect) (kind : Kind) {upper : List Text}
    (habove : site.above = upper ++ site.decorators) (decorated : Bool) :
    Text.byteLength upper.flatten ≤
      if decorated = true ∧ site.decorators ≠ [] then Text.byteLength upper.flatten
      else (site.token dialect kind).start := by
  split
  · exact Nat.le_refl _
  · rw [start_token, habove, List.flatten_append, Text.byteLength_append, Text.byteLength_append]
    omega

end Site

/-! ### Two sites -/

namespace Site

variable {dialect : Dialect} {source : Text} {first second : Site} {kind kind' : Kind}

/-- Whether a site lies above another one and its decorators, with some lines between them. -/
structure LiesAbove (first second : Site) (between : List Text) : Prop where
  above_eq : second.above = (first.above ++ first.line :: between) ++ second.decorators
  below_eq : first.below = between ++ (second.opening ++ second.below)

theorem length_above_lt (hfirst : first.IsIn source) (hsecond : second.IsIn source)
    (hkind : first.lexeme.kind? dialect.keywords = some kind)
    (hkind' : second.lexeme.kind? dialect.keywords = some kind')
    (hlt : first.index dialect.keywords < second.index dialect.keywords)
    (hleads : (Listing.read dialect source).LeadsLine (second.index dialect.keywords)) :
    first.above.length < second.above.length := by
  have hearlier := Listing.tokenAt_eq_ok_iff.1 (tokenAt_index hfirst hkind)
  have hlater := Listing.tokenAt_eq_ok_iff.1 (tokenAt_index hsecond hkind')
  have hle : 1 + first.above.length ≤ 1 + second.above.length :=
    (Token.precedes_of_lt hlt hearlier hlater).line_le
  have hmem : first.token dialect kind ∈
      (Listing.read dialect source).tokens.take (second.index dialect.keywords) := by
    apply List.mem_of_getElem? (i := first.index dialect.keywords)
    rw [List.getElem?_take_of_lt hlt, hearlier]
  have hne : 1 + first.above.length ≠ 1 + second.above.length := hleads _ hlater _ hmem
  omega

private theorem exists_between (hfirst : first.IsIn source) (hsecond : second.IsIn source)
    (hlt : first.above.length < second.above.length) :
    ∃ between, second.above = first.above ++ first.line :: between ∧
      first.below = between ++ second.line :: second.below := by
  have hlines : first.above ++ first.line :: first.below =
      second.above ++ second.line :: second.below := hfirst.lines_eq.symm.trans hsecond.lines_eq
  rcases List.append_eq_append_iff.1 hlines with ⟨more, habove, hmore⟩ | ⟨more, habove, -⟩
  · cases more with
    | nil => simp [habove] at hlt
    | cons line between =>
      obtain ⟨rfl, hbelow⟩ := List.cons.inj hmore
      exact ⟨between, habove, hbelow⟩
  · rw [habove, List.length_append] at hlt
    omega

/-- A line that starts with a keyword stands above the decorators of every site below it. -/
theorem exists_liesAbove (hfirst : first.IsIn source) (hsecond : second.IsIn source)
    (hlt : first.above.length < second.above.length) (hstarts : first.StartsLine) :
    ∃ between, first.LiesAbove second between := by
  obtain ⟨lines, habove, hbelow⟩ := exists_between hfirst hsecond hlt
  obtain ⟨upper, hupper⟩ := exists_above_eq second
  -- The walk up from the second site stops at the latest when it comes to the line of the first.
  have hnot : first.line ∉ second.decorators := by
    intro hmem
    have hdecorator := List.mem_rtakeWhile_imp hmem
    rw [hstarts.not_isDecoratorLine] at hdecorator
    cases hdecorator
  rcases List.append_eq_append_iff.1 (habove.symm.trans hupper) with
    ⟨more, rfl, hmore⟩ | ⟨more, -, hmore⟩
  · cases more with
    | nil =>
      rw [List.nil_append] at hmore
      simp [← hmore] at hnot
    | cons line between =>
      obtain ⟨rfl, rfl⟩ := List.cons.inj hmore
      exact ⟨between, hupper, by simp [hbelow, opening]⟩
  · simp [hmore] at hnot

/-- The block at the upper one of two sites ends before the content of the first decorator of the
other, or not before the block there ends. -/
theorem LiesAbove.stop_le_or (dialect : Dialect) {between : List Text}
    (h : first.LiesAbove second between) (hk : ∀ word, dialect.keywords.classify word ≠ .newline)
    (hsecond : second.IsIn source) (hstarts : second.StartsLine)
    (hspaced : ∀ line ∈ Text.splitLines source, Indent.IsSpaced line) :
    (first.token dialect kind).start + Text.byteLength (first.blockText dialect) ≤
        Text.byteLength (first.above ++ first.line :: between).flatten +
          Text.byteLength (Lexeme.join second.before) ∨
      (second.token dialect kind').start + Text.byteLength (second.blockText dialect) ≤
        (first.token dialect kind).start + Text.byteLength (first.blockText dialect) := by
  have hset := isSetIn_of_mem_opening hsecond hstarts hspaced
  have hlevel := (hset second.line (by simp [opening])).level_eq dialect.indentWidth
  have hsingle : ∀ line ∈ second.opening, '\n' ∉ line.dropLast := fun line hmem =>
    (areLines hsecond).single line (mem_lines_of_mem_opening hmem)
  have htake := Block.take_of_isSetIn hk (1 + Indent.level dialect.indentWidth first.line) hset
    hsingle (opening_ne_nil second) between second.below
  rw [start_add_byteLength_blockText, start_add_byteLength_blockText, blockBelow, blockBelow,
    h.below_eq, h.above_eq, hlevel]
  rcases htake with hshort | ⟨hdepth, hwhole⟩
  · left
    simp only [List.flatten_append, List.flatten_cons, Text.byteLength_append] at hshort ⊢
    omega
  · right
    -- Below the second site both blocks read the same lines, the upper one at a smaller depth.
    have hlonger := Block.byteLength_take_le dialect
      (Nat.le_add_left_of_le hdepth : _ ≤ 1 + _) second.below
    rw [hwhole, opening]
    simp only [List.flatten_append, List.flatten_cons, List.flatten_nil, List.append_nil,
      Text.byteLength_append]
    omega

theorem start_le_byteLength (dialect : Dialect) (site : Site) (kind : Kind) (between : List Text) :
    (site.token dialect kind).start ≤
      Text.byteLength (site.above ++ site.line :: between).flatten := by
  rw [start_token, line_eq]
  simp only [List.flatten_append, List.flatten_cons, Text.byteLength_append]
  omega

end Site

/-! ### Two definitions -/

namespace Listing

theorem OpensBlock.lt_length {listing : Listing} {index : Nat} (h : listing.OpensBlock index) :
    index < listing.tokens.length := by
  obtain ⟨⟨keyword, hkeyword, -⟩, -⟩ := h
  exact (List.getElem?_eq_some_iff.1 hkeyword).1

theorem OpensBlock.exists_site {dialect : Dialect} {source : Text} {index : Nat}
    (h : (read dialect source).OpensBlock index) :
    ∃ (site : Site) (kind : Kind), site.IsIn source ∧ site.index dialect.keywords = index ∧
      site.lexeme.kind? dialect.keywords = some kind ∧ kind.isDefinition = true ∧
      site.precedesIdentifier dialect.keywords = true := by
  obtain ⟨⟨keyword, hkeyword, hkind⟩, name, hname, hident⟩ := h
  have hdef : keyword.kind.isDefinition = true := by
    rcases hkind with hkind | hkind <;> rw [hkind] <;> rfl
  have hdefines : (read dialect source).Defines keyword.kind name.literal keyword index :=
    ⟨hkeyword, rfl, name, hname, hident, rfl⟩
  obtain ⟨site, hsite, hindex, hfound, -, hnext⟩ :=
    hdefines.exists_site (Kind.ne_newline_of_isDefinition hdef)
  exact ⟨site, keyword.kind, hsite, hindex, hfound, hdef, hnext⟩

/-- Of two definitions, the later one with its decorators lies within the block of the earlier one,
or they share no more than the spaces before the first decorator. -/
theorem ofSource_decorated_apart {width : Nat} (hwidth : 1 ≤ width) {source : Text}
    (hspaced : ∀ line ∈ Text.splitLines source, Indent.IsSpaced line) :
    ∃ listing, ofSource ⟨width, .python⟩ source = .ok listing ∧
      ((∀ index, listing.OpensBlock index → listing.LeadsLine index) →
        ∀ i j, i < j → listing.OpensBlock i → listing.OpensBlock j →
          ∃ block decorated, listing.blockSpan i = .ok block ∧
            listing.definitionSpan true j = .ok decorated ∧
            (decorated.IsWithin block ∨ ∀ byte, decorated.Holds byte → block.Holds byte →
              listing.IsLeadingSpace decorated byte)) := by
  refine ⟨_, ofSource_eq_ok hwidth source, ?_⟩
  intro hleads i j hij hi hj
  obtain ⟨first, kind, hfirst, rfl, hkind, hdef, hname⟩ := hi.exists_site
  obtain ⟨second, kind', hsecond, rfl, hkind', hdef', hname'⟩ := hj.exists_site
  have hstarts := Site.startsLine hfirst hkind hdef (hleads _ hi)
  have hstarts' := Site.startsLine hsecond hkind' hdef' (hleads _ hj)
  have hlt := Site.length_above_lt hfirst hsecond hkind hkind' hij (hleads _ hj)
  obtain ⟨between, habove⟩ := Site.exists_liesAbove hfirst hsecond hlt hstarts
  have hupper := Site.byteLength_upper_le ⟨width, .python⟩ kind' habove.above_eq true
  refine ⟨_, _, Site.blockSpan_eq hfirst hkind hdef hname,
    Site.definitionSpan_eq hsecond hkind' hdef' hname' habove.above_eq true, ?_⟩
  rcases habove.stop_le_or ⟨width, .python⟩ Keywords.python_ne_newline hsecond hstarts' hspaced with
    hapart | hwithin
  · right
    intro byte hdecorated hblock
    apply Site.isLeadingSpace hsecond hstarts' hspaced habove.above_eq hupper hdecorated.1
    exact hblock.2.trans_le hapart
  · left
    have hstart := Site.start_le_byteLength ⟨width, .python⟩ first kind between
    exact ⟨hstart.trans hupper, hwithin⟩

/-- The block of a method reaches up to the `@` of the next one, whose decorators begin with the
spaces before it. -/
theorem ofSource_decorated_apart_methods :
    let source := "class A:\n    def f(): x\n    @p\n    @q(1)\n    def g(): y\n".toList
    ∃ listing, ofSource ⟨3, .python⟩ source = .ok listing ∧
      listing.blockSpan 4 = .ok ⟨13, 28⟩ ∧ listing.definitionSpan true 20 = .ok ⟨24, 56⟩ ∧
      ∀ byte, Span.Holds ⟨24, 56⟩ byte → Span.Holds ⟨13, 28⟩ byte →
        listing.IsLeadingSpace ⟨24, 56⟩ byte := by
  intro source
  have hspaced : ∀ line ∈ Text.splitLines source, Indent.IsSpaced line := by decide +kernel
  obtain ⟨listing, hlisting, hapart⟩ := ofSource_decorated_apart (by decide : 1 ≤ 3) hspaced
  obtain rfl := Except.ok.inj hlisting
  have hleads : ∀ index < (read ⟨3, .python⟩ source).tokens.length,
      (read ⟨3, .python⟩ source).OpensBlock index →
        (read ⟨3, .python⟩ source).LeadsLine index := by decide +kernel
  have hblock : (read ⟨3, .python⟩ source).blockSpan 4 = .ok ⟨13, 28⟩ := by decide +kernel
  have hspan : (read ⟨3, .python⟩ source).definitionSpan true 20 = .ok ⟨24, 56⟩ := by
    decide +kernel
  have hfour : (read ⟨3, .python⟩ source).OpensBlock 4 := by decide +kernel
  have htwenty : (read ⟨3, .python⟩ source).OpensBlock 20 := by decide +kernel
  obtain ⟨block, decorated, hblock', hspan', hshare⟩ :=
    hapart (fun index hopens => hleads index hopens.lt_length hopens) 4 20 (by decide) hfour htwenty
  obtain rfl := Except.ok.inj (hblock'.symm.trans hblock)
  obtain rfl := Except.ok.inj (hspan'.symm.trans hspan)
  exact ⟨_, rfl, hblock, hspan, hshare.resolve_left (by decide)⟩

end Listing

end Excerpt
