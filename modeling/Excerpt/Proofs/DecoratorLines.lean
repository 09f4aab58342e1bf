import Excerpt.Proofs.Decorators
/-!
# Decorators as lines and as tokens

The decorators above a token are looked for on the text of lines, by a column of bytes and by the
blanks of Unicode, of which tokens know only four: the others are tokens of their own, which are
ignored. Both views agree. The decorators are the longest run of aligned lines right above a token,
each of them has its `@` among the tokens, and a line whose first token is an `@` is aligned with
it. What is cut out for a definition is what is cut out without decorators, and these before it.
-/
namespace Excerpt

/-- Whether a line holds an `@` in a column, counted in bytes from one, behind nothing but blanks. -/
def Text.IsAligned (line : Text) (column : Nat) : Prop :=
  ∃ indent rest, line = indent ++ '@' :: rest ∧ byteLength indent + 1 = column ∧
    ∀ c ∈ indent, isBlank c = true

namespace Listing

/-- Whether the lines from an index up to the line of a token are aligned with the token, and the
line above them, if there is one, is not. -/
structure IsRun (listing : Listing) (token : Token) (upper : Nat) : Prop where
  le : upper ≤ token.line - 1
  aligned : ∀ number, upper ≤ number → number < token.line - 1 →
    ∃ line, listing.lines[number]? = some line ∧ line.text.IsAligned token.column
  maximal : upper = 0 ∨
    ∃ line, listing.lines[upper - 1]? = some line ∧ ¬ line.text.IsAligned token.column

/-- Whether a token is the `@` of a decorator, with none before it on its line but ignored ones. -/
structure IsSign (listing : Listing) (index : Nat) (sign : Token) : Prop where
  token_eq : listing.tokens[index]? = some sign
  kind_eq : sign.kind = .decorator
  literal_eq : sign.literal = ['@']
  before : ∀ earlier ∈ listing.tokens.take index, earlier.line = sign.line →
    earlier.kind = .ignored

/-- Whether the lines and the tokens of a listing tell the same decorators, and these are put before
a definition. -/
structure IsDecorated (source : Text) (listing : Listing) : Prop where
  decoratorSpan : ∀ index token, listing.tokens[index]? = some token →
    index + 1 ≠ listing.tokens.length → ∃ upper first own, listing.IsRun token upper ∧
      listing.lines[upper]? = some first ∧ listing.lines[token.line - 1]? = some own ∧
      listing.decoratorSpan index = .ok ⟨first.start, own.start⟩
  signs : ∀ number line column, listing.lines[number]? = some line → line.text.IsAligned column →
    ∃ index sign, listing.IsSign index sign ∧ sign.line = number + 1 ∧ sign.column = column
  aligned : ∀ index sign, listing.tokens[index]? = some sign → sign.kind = .decorator →
    sign.literal = ['@'] → listing.LeadsLine index →
      ∃ line, listing.lines[sign.line - 1]? = some line ∧ line.text.IsAligned sign.column
  definitionText : ∀ index keyword, listing.tokens[index]? = some keyword →
    listing.OpensBlock index → ∃ own above plain, listing.lines[keyword.line - 1]? = some own ∧
      listing.decorators index = .ok above ∧ listing.definitionText false index = .ok plain ∧
      listing.definitionText true index = .ok (if above = [] then plain
        else above ++ Text.slice source ⟨own.start, keyword.start⟩ ++ plain)

end Listing

/-! ### Lines -/

theorem Text.isAligned_iff {column : Nat} (h : 1 ≤ column) {line : Text} :
    line.IsAligned column ↔ Listing.isDecoratorLine column line = true := by
  rw [Listing.isDecoratorLine_iff]
  constructor
  · rintro ⟨indent, rest, hline, hlength, hblank⟩
    exact ⟨indent, rest, hline, Nat.eq_sub_of_add_eq hlength, List.all_eq_true.mpr hblank⟩
  · rintro ⟨indent, rest, hline, hlength, hblank⟩
    exact ⟨indent, rest, hline, by omega, List.all_eq_true.mp hblank⟩

theorem Listing.getElem?_splitLines (source : Text) (number : Nat) :
    (Text.splitLines source)[number]? = ((linesOf source)[number]?).map Line.text := by
  rw [linesOf, ← List.getElem?_map, Line.map_text_place]

/-! ### Blanks as lexemes -/

theorem Shape.isGap_or_of_isBlank {c : Char} (h : Text.isBlank c = true) (hc : c ≠ '\n') :
    isGap c = true ∨ ofChar c = .other := by
  have hstarts := starts_ofChar c
  cases hshape : ofChar c <;> rw [hshape] at hstarts
  case spaces => exact .inl ((ofChar_isGap_iff c).mp (.inl hshape))
  case tabs => exact .inl ((ofChar_isGap_iff c).mp (.inr (.inl hshape)))
  case control => exact .inl ((ofChar_isGap_iff c).mp (.inr (.inr hshape)))
  case newline => exact absurd hstarts hc
  case other => exact .inr rfl
  case word =>
    rw [Text.isBlank_of_startsWord hstarts] at h
    cases h
  case string =>
    rcases hstarts with rfl | rfl
    · exact absurd h (by decide)
    · exact absurd h (by decide)
  all_goals
    obtain rfl := hstarts
    exact absurd h (by decide)

namespace Lexeme

private theorem takeWhile_append_sign {p : Char → Bool} (hp : p '@' = false) (rest tail : Text) :
    (rest ++ '@' :: tail).takeWhile p = rest.takeWhile p ∧
      (rest ++ '@' :: tail).dropWhile p = rest.dropWhile p ++ '@' :: tail := by
  induction rest with
  | nil => simp [hp]
  | cons c rest ih =>
    rw [List.cons_append, List.takeWhile_cons, List.takeWhile_cons, List.dropWhile_cons,
      List.dropWhile_cons, ih.1, ih.2]
    split
    · exact ⟨rfl, rfl⟩
    · exact ⟨rfl, rfl⟩

private theorem splitAfter_append_sign {c : Char}
    (h : Shape.isGap c = true ∨ Shape.ofChar c = .other) (rest tail : Text) :
    splitAfter c (rest ++ '@' :: tail) =
      ((splitAfter c rest).1, (splitAfter c rest).2 ++ '@' :: tail) := by
  rw [← Shape.ofChar_isGap_iff] at h
  have hrun : ∀ d : Char, d ≠ '@' → ((rest ++ '@' :: tail).takeWhile (· = d),
      (rest ++ '@' :: tail).dropWhile (· = d)) =
        (rest.takeWhile (· = d), rest.dropWhile (· = d) ++ '@' :: tail) := by
    intro d hd
    have hsplit := takeWhile_append_sign (p := (· = d)) (by simpa using hd.symm) rest tail
    exact Prod.ext hsplit.1 hsplit.2
  rcases h with (hshape | hshape | hshape) | hshape
  · simpa only [splitAfter, hshape] using hrun ' ' (by decide)
  · simpa only [splitAfter, hshape] using hrun '\t' (by decide)
  · simp [splitAfter, hshape]
  · simp [splitAfter, hshape]

/-- No lexeme that starts in the blanks before an `@` takes it in. -/
theorem scan_append_sign {indent : Text} (hblank : ∀ c ∈ indent, Text.isBlank c = true)
    (hnewline : '\n' ∉ indent) (rest : Text) :
    scan (indent ++ '@' :: rest) = scan indent ++ ⟨.atSign, ['@']⟩ :: scan rest := by
  fun_induction scan indent with
  | case1 =>
    rw [List.nil_append, List.nil_append, scan]
    rfl
  | case2 c behind ih =>
    have hrest : ∀ d ∈ (splitAfter c behind).2, d ∈ behind := by
      intro d hd
      rw [← splitAfter_append c behind]
      exact List.mem_append_right _ hd
    have hc : c ≠ '\n' := by
      rintro rfl
      exact hnewline List.mem_cons_self
    have hshape := Shape.isGap_or_of_isBlank (hblank c List.mem_cons_self) hc
    rw [List.cons_append, scan, splitAfter_append_sign hshape, List.cons_append, ih]
    · exact fun d hd => hblank d (List.mem_cons_of_mem _ (hrest d hd))
    · exact fun hd => hnewline (List.mem_cons_of_mem _ (hrest _ hd))

theorem kind_eq_ignored_of_isBlank {keywords : Keywords} {indent : Text}
    (hblank : ∀ c ∈ indent, Text.isBlank c = true) (hnewline : '\n' ∉ indent) {lexeme : Lexeme}
    (hmem : lexeme ∈ scan indent) {kind : Kind} (hkind : lexeme.kind? keywords = some kind) :
    kind = .ignored := by
  obtain ⟨c, rest, rfl, hc⟩ := exists_of_mem_scan hmem
  rcases Shape.isGap_or_of_isBlank (hblank c hc) (ne_of_mem_of_not_mem hc hnewline) with hgap | hshape
  · rw [(kind?_eq_none_iff keywords c _).mpr hgap] at hkind
    cases hkind
  · rw [kind?, hshape, Option.some.injEq] at hkind
    exact hkind.symm

end Lexeme

/-! ### Sites -/

namespace Site

variable {dialect : Dialect} {site : Site} {source : Text} {kind : Kind}

theorem not_isDecoratorLine_of_getLast? {upper : List Text}
    (habove : site.above = upper ++ site.decorators) {line : Text}
    (hline : upper.getLast? = some line) :
    ¬ Listing.isDecoratorLine (Text.byteLength (Lexeme.join site.before) + 1) line = true := by
  have hupper : site.above.rdropWhile
      (Listing.isDecoratorLine (Text.byteLength (Lexeme.join site.before) + 1)) = upper := by
    have hjoin : site.above.rdropWhile _ ++ site.decorators = upper ++ site.decorators :=
      List.rdropWhile_append_rtakeWhile.trans habove
    exact List.append_cancel_right hjoin
  rw [← hupper] at hline
  obtain ⟨hne, rfl⟩ := List.mem_getLast?_eq_getLast hline
  exact List.rdropWhile_last_not _ _ hne

theorem exists_lineAt_above (h : site.IsIn source) {number : Nat} {text : Text}
    (htext : site.above[number]? = some text) :
    ∃ line, (Listing.linesOf source)[number]? = some line ∧ line.text = text := by
  rw [← Option.map_eq_some_iff, ← Listing.getElem?_splitLines, h.lines_eq, lines,
    List.getElem?_append_left (List.getElem?_eq_some_iff.mp htext).1, htext]

/-- The decorators of a site are the longest run of aligned lines right above it. -/
theorem isRun (dialect : Dialect) (h : site.IsIn source) (kind : Kind) {upper : List Text}
    (habove : site.above = upper ++ site.decorators) :
    (Listing.read dialect source).IsRun (site.token dialect kind) upper.length := by
  have hown : (site.token dialect kind).line - 1 = site.above.length := Nat.add_sub_cancel_left ..
  have haligned : ∀ line : Line, line.text.IsAligned (site.token dialect kind).column ↔
      Listing.isDecoratorLine (Text.byteLength (Lexeme.join site.before) + 1) line.text = true :=
    fun line => Text.isAligned_iff (Nat.le_add_left _ _)
  constructor
  case le =>
    rw [hown, habove, List.length_append]
    exact Nat.le_add_right _ _
  case aligned =>
    intro number hle hlt
    rw [hown] at hlt
    have htext := List.getElem?_eq_getElem hlt
    obtain ⟨line, hline, hsame⟩ := exists_lineAt_above h htext
    refine ⟨line, hline, (haligned line).mpr ?_⟩
    have hmem : line.text ∈ site.decorators := by
      apply List.mem_of_getElem? (i := number - upper.length)
      rw [hsame, ← htext, ← List.getElem?_append_right hle, ← habove]
    exact List.mem_rtakeWhile_imp hmem
  case maximal =>
    cases hlast : upper.getLast? with
    | none =>
      left
      rw [List.getLast?_eq_none_iff.mp hlast, List.length_nil]
    | some text =>
      right
      have hlength : upper.length - 1 < upper.length := by
        cases upper with
        | nil => cases hlast
        | cons _ _ => exact Nat.lt_succ_self _
      have htext : site.above[upper.length - 1]? = some text := by
        rw [habove, List.getElem?_append_left hlength, ← List.getLast?_eq_getElem?, hlast]
      obtain ⟨line, hline, hsame⟩ := exists_lineAt_above h htext
      refine ⟨line, hline, ?_⟩
      rw [haligned line, hsame]
      exact not_isDecoratorLine_of_getLast? habove hlast

theorem exists_lineAt_upper (h : site.IsIn source) {upper : List Text}
    (habove : site.above = upper ++ site.decorators) :
    ∃ line, (Listing.linesOf source)[upper.length]? = some line ∧
      line.start = Text.byteLength upper.flatten := by
  have hlines : Text.splitLines source = upper ++ (site.decorators ++ site.line :: site.below) := by
    rw [h.lines_eq, lines, habove, List.append_assoc]
  have hlength : upper.length < (Listing.linesOf source).length := by
    rw [Listing.linesOf, Line.length_place, hlines, List.length_append, List.length_append,
      List.length_cons]
    omega
  have hline := List.getElem?_eq_getElem hlength
  have hstart := Line.start_of_getElem?_place hline
  rw [hlines, List.take_left, Nat.zero_add] at hstart
  exact ⟨_, hline, hstart⟩

theorem exists_lineAt_line (dialect : Dialect) (h : site.IsIn source) (kind : Kind) :
    ∃ line, (Listing.read dialect source).lines[(site.token dialect kind).line - 1]? = some line ∧
      line.start = Text.byteLength site.above.flatten ∧ line.text = site.line := by
  have hown : (site.token dialect kind).line - 1 = site.above.length := Nat.add_sub_cancel_left ..
  rw [hown]
  exact ⟨_, Listing.lineAt_eq_ok_iff.mp (lineAt_eq h rfl), rfl, rfl⟩

/-! ### Signs -/

theorem isAligned_line (h : site.IsIn source)
    (hkind : site.lexeme.kind? dialect.keywords = some kind) (hsign : site.lexeme.text = ['@'])
    (hleads : (Listing.read dialect source).LeadsLine (site.index dialect.keywords)) :
    site.line.IsAligned (site.token dialect kind).column := by
  refine ⟨Lexeme.join site.before, Lexeme.join site.behind, ?_, rfl, ?_⟩
  · rw [line_eq, Lexeme.join_cons, hsign, List.singleton_append]
  · intro c hc
    exact Text.isBlank_of_isGap (isGap_of_mem_before h hkind hleads c hc)

theorem exists_isSign (hsign : dialect.keywords.classify ['@'] = .decorator) {number column : Nat}
    {line : Line} (hline : (Listing.linesOf source)[number]? = some line)
    (haligned : line.text.IsAligned column) :
    ∃ index sign, (Listing.read dialect source).IsSign index sign ∧ sign.line = number + 1 ∧
      sign.column = column := by
  obtain ⟨indent, rest, htext, rfl, hblank⟩ := haligned
  have hsplit : (Text.splitLines source)[number]? = some (indent ++ '@' :: rest) := by
    rw [Listing.getElem?_splitLines, hline, Option.map_some, htext]
  obtain ⟨hlength, hget⟩ := List.getElem?_eq_some_iff.mp hsplit
  have hlines := List.take_append_drop number (Text.splitLines source)
  rw [List.drop_eq_getElem_cons hlength, hget] at hlines
  have hnewline : '\n' ∉ indent := by
    have hsingle := (Text.areLines_splitLines source).single _ (List.mem_of_getElem? hsplit)
    exact Text.newline_not_mem_left hsingle (List.cons_ne_nil _ _)
  let site : Site := ⟨(Text.splitLines source).take number, Lexeme.scan indent, ⟨.atSign, ['@']⟩,
    Lexeme.scan rest, (Text.splitLines source).drop (number + 1)⟩
  have hown : site.line = indent ++ '@' :: rest := by
    simp [site, Site.line]
  have hsite : site.IsIn source := by
    constructor
    · rw [Site.lines, hown]
      exact hlines.symm
    · rw [hown]
      exact Lexeme.scan_append_sign hblank hnewline rest
  have hkind : site.lexeme.kind? dialect.keywords = some .decorator :=
    congrArg some hsign
  have habove : site.above.length = number := List.length_take_of_le hlength.le
  refine ⟨site.index dialect.keywords, site.token dialect .decorator, ⟨?_, rfl, rfl, ?_⟩, ?_, ?_⟩
  · exact Listing.tokenAt_eq_ok_iff.mp (tokenAt_index hsite hkind)
  · intro earlier hmem hsame
    rw [Listing.read_tokens, take_index hsite hkind] at hmem
    rcases List.mem_append.mp hmem with hmem | hmem
    · have hbounds := Token.bounds_of_mem_ofLines hmem
      have hown : (site.token dialect .decorator).line = 1 + site.above.length := rfl
      omega
    · -- The blanks before the sign may be tokens, but no more than ignored ones.
      obtain ⟨-, -, lexeme, hlexeme, hfound⟩ := Token.exists_of_mem_place _ _ hmem
      exact Lexeme.kind_eq_ignored_of_isBlank hblank hnewline hlexeme hfound
  · show 1 + site.above.length = number + 1
    rw [habove, Nat.add_comm]
  · show Text.byteLength (Lexeme.join (Lexeme.scan indent)) + 1 = _
    rw [Lexeme.join_scan]

/-! ### Definitions -/

theorem decorators_eq (h : site.IsIn source)
    (hkind : site.lexeme.kind? dialect.keywords = some kind) :
    (Listing.read dialect source).decorators (site.index dialect.keywords) =
      .ok site.decorators.flatten := by
  obtain ⟨upper, habove⟩ := exists_above_eq site
  have hcut := Text.slice_append upper.flatten site.decorators.flatten
    (site.line ++ site.below.flatten)
  have hsource := flatten_lines h
  rw [Listing.decorators, decoratorSpan_eq h hkind habove, Except.map, Listing.read_source]
  rw [habove, List.flatten_append] at hsource
  rw [habove, List.flatten_append, Text.byteLength_append, hsource, hcut]

theorem slice_before (h : site.IsIn source) (kind : Kind) :
    Text.slice source ⟨Text.byteLength site.above.flatten, (site.token dialect kind).start⟩ =
      Lexeme.join site.before := by
  have hcut := Text.slice_append site.above.flatten (Lexeme.join site.before)
    (Lexeme.join (site.lexeme :: site.behind) ++ site.below.flatten)
  have hsource := flatten_lines h
  rw [line_eq, List.append_assoc, ← List.append_assoc] at hsource
  rw [start_token, Text.byteLength_append, hsource, hcut]

theorem flatten_decorators_eq_nil_iff (h : site.IsIn source) :
    site.decorators.flatten = [] ↔ site.decorators = [] := by
  constructor
  · intro hnil
    by_contra hne
    obtain ⟨line, hline⟩ := List.exists_mem_of_ne_nil _ hne
    have hmem : line ∈ site.lines :=
      List.mem_append_left _ ((List.rtakeWhile_suffix _ _).mem hline)
    exact (areLines h).nonempty line hmem (List.flatten_eq_nil_iff.mp hnil line hline)
  · intro hnil
    rw [hnil, List.flatten_nil]

/-- With decorators, an excerpt is the one without them, with the decorators and what stands before
the keyword on its line before it. -/
theorem excerpt_true (dialect : Dialect) (h : site.IsIn source) :
    site.excerpt dialect true = if site.decorators.flatten = [] then site.excerpt dialect false
      else site.decorators.flatten ++ Lexeme.join site.before ++ site.excerpt dialect false := by
  have hplain : site.excerpt dialect false = site.blockText dialect := by
    rw [excerpt, if_neg (by simp)]
  rw [hplain, excerpt]
  simp only [flatten_decorators_eq_nil_iff h, ne_eq, true_and, ite_not]

end Site

/-! ### Listings -/

namespace Listing

/-- Where `@` is the sign of decorators, the lines and the tokens of a text tell the same ones, and
a definition is cut out with those above it. -/
theorem ofSource_isDecorated (dialect : Dialect) (hwidth : 1 ≤ dialect.indentWidth)
    (hsign : dialect.keywords.classify ['@'] = .decorator) (source : Text) :
    ∃ listing, ofSource dialect source = .ok listing ∧ listing.IsDecorated source := by
  refine ⟨read dialect source, ofSource_eq_ok hwidth source, ?_⟩
  constructor
  case decoratorSpan =>
    intro index token htoken hlast
    obtain ⟨site, kind, hsite, rfl, hkind, rfl⟩ := Site.exists_of_getElem? htoken hlast
    obtain ⟨upper, habove⟩ := Site.exists_above_eq site
    obtain ⟨own, hown, hstart, -⟩ := Site.exists_lineAt_line dialect hsite kind
    obtain ⟨first, hfirst, hupper⟩ := Site.exists_lineAt_upper hsite habove
    refine ⟨upper.length, first, own, Site.isRun dialect hsite kind habove, hfirst, hown, ?_⟩
    rw [Site.decoratorSpan_eq hsite hkind habove, hupper, hstart]
  case signs =>
    intro number line column hline haligned
    exact Site.exists_isSign hsign hline haligned
  case aligned =>
    intro index sign htoken hkind hliteral hleads
    have hlast : index + 1 ≠ (tokensOf dialect source).length := by
      rcases Token.mem_ofLines_or_eq_endOf htoken with ⟨hlast, -⟩ | ⟨-, rfl⟩
      · exact hlast
      · cases hliteral
    obtain ⟨site, kind, hsite, rfl, hlexeme, rfl⟩ := Site.exists_of_getElem? htoken hlast
    obtain ⟨line, hline, -, hsame⟩ := Site.exists_lineAt_line dialect hsite kind
    refine ⟨line, hline, ?_⟩
    rw [hsame]
    exact Site.isAligned_line hsite hlexeme hliteral hleads
  case definitionText =>
    intro index keyword hkeyword hopens
    obtain ⟨site, kind, hsite, rfl, hkind, hdef, hname⟩ := hopens.exists_site
    obtain rfl : site.token dialect kind = keyword := by
      have hown := tokenAt_eq_ok_iff.mp (Site.tokenAt_index hsite hkind)
      rwa [hkeyword, Option.some.injEq, eq_comm] at hown
    obtain ⟨own, hown, hstart, -⟩ := Site.exists_lineAt_line dialect hsite kind
    have htext := Site.definitionText_eq hsite hkind hdef hname
    refine ⟨own, _, _, hown, Site.decorators_eq hsite hkind, htext false, ?_⟩
    rw [htext true, hstart, Site.slice_before hsite kind, Site.excerpt_true dialect hsite]

/-- A no-break space takes up two bytes, as the two spaces before the keyword do, so the `@` behind
it is aligned with the keyword. The line above has its `@` in another column. -/
theorem ofSource_isDecorated_wide :
    let source := "class A:\n @o\n\u00a0@p\n  @q\n  def f: 0\n".toList
    ∃ listing, ofSource {} source = .ok listing ∧ listing.decoratorSpan 14 = .ok ⟨13, 23⟩ ∧
      (∃ index sign, listing.IsSign index sign ∧ sign.line = 3 ∧ sign.column = 3) ∧
      listing.definitionText true 14 = .ok "\u00a0@p\n  @q\n  def f: 0\n".toList := by
  intro source
  obtain ⟨listing, hlisting, h⟩ := ofSource_isDecorated {} (by decide) (by decide) source
  obtain rfl := Except.ok.inj hlisting
  have hline : (read {} source).lines[2]? = some ⟨3, 13, "\u00a0@p\n".toList⟩ := by decide +kernel
  have haligned : Text.IsAligned "\u00a0@p\n".toList 3 :=
    ⟨['\u00a0'], ['p', '\n'], rfl, by decide, List.forall_mem_singleton.mpr (by decide)⟩
  have hkeyword : (read {} source).tokens[14]? =
      some ⟨.functionKeyword, "def".toList, 5, 3, 1, 25, 28⟩ := by decide +kernel
  have hopens : (read {} source).OpensBlock 14 := by decide +kernel
  obtain ⟨own, above, plain, hown, habove, hplain, hwhole⟩ := h.definitionText 14 _ hkeyword hopens
  have hlast : (read {} source).lines[4]? = some ⟨5, 23, "  def f: 0\n".toList⟩ := by
    decide +kernel
  have hsigns : (read {} source).decorators 14 = .ok "\u00a0@p\n  @q\n".toList := by
    decide +kernel
  have hbody : (read {} source).definitionText false 14 = .ok "def f: 0\n".toList := by
    decide +kernel
  obtain rfl := Option.some.inj (hlast.symm.trans hown)
  obtain rfl := Except.ok.inj (hsigns.symm.trans habove)
  obtain rfl := Except.ok.inj (hbody.symm.trans hplain)
  exact ⟨_, rfl, by decide +kernel, h.signs 2 _ 3 hline haligned, hwhole⟩

end Listing

end Excerpt
