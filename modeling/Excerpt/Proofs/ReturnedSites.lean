import Excerpt.Proofs.Locality
import Excerpt.Proofs.Pairs
import Excerpt.Proofs.Returns
/-!
# Excerpts with carriage returns

With a carriage return before each newline of a text, a definition keeps its site: the keyword, what
stands before it on its line, and the number of tokens before it. The excerpt at the site is that of
the text, with a carriage return before each of its newlines.
-/
namespace Excerpt

/-! ### Lexemes -/

namespace Lexeme.Returns

variable {lexemes returned : List Lexeme}

theorem join_eq (h : Returns lexemes returned) : join returned = Text.crlf (join lexemes) := by
  induction h with
  | nil => rfl
  | keep hnewline _ _ ih =>
    rw [join_cons, join_cons, Text.crlf_append, Text.crlf_of_not_mem hnewline, ih]
  | gap => rfl
  | taken hnewline _ _ => simp [Text.crlf_of_not_mem hnewline]

theorem tokenCount_eq (h : Returns lexemes returned) (keywords : Keywords) :
    tokenCount keywords returned = tokenCount keywords lexemes := by
  induction h with
  | nil => rfl
  | keep _ _ _ ih =>
    simp only [tokenCount, List.countP_cons] at ih ⊢
    rw [ih]
  | gap => rfl
  | taken _ hshape _ => simp [tokenCount, isToken, kind?_remark hshape]

theorem any_next?_eq (h : Returns lexemes returned) (keywords : Keywords) :
    (next? keywords returned).any (·.kind? keywords == some .identifier) =
      (next? keywords lexemes).any (·.kind? keywords == some .identifier) := by
  induction h with
  | nil => rfl
  | @keep lexeme _ _ _ _ _ ih =>
    rw [next?, next?, List.find?_cons, List.find?_cons]
    cases lexeme.isToken keywords with
    | true => rfl
    | false => exact ih
  | gap => rfl
  | taken _ hshape _ => simp [next?, isToken, kind?_remark hshape]

theorem all_isSilent_eq (h : Returns lexemes returned) (keywords : Keywords) :
    returned.all (isSilent keywords) = lexemes.all (isSilent keywords) ∧
      (lexemes.all (isSilent keywords) = false →
        returned.takeWhile (isSilent keywords) = lexemes.takeWhile (isSilent keywords)) := by
  induction h with
  | nil => exact ⟨rfl, fun _ => rfl⟩
  | @keep lexeme rest rest' _ _ _ ih =>
    rw [List.all_cons, List.all_cons, List.takeWhile_cons, List.takeWhile_cons]
    cases lexeme.isSilent keywords with
    | true => simpa using ih
    | false => simp
  | gap =>
    refine ⟨rfl, ?_⟩
    intro hloud
    cases hloud
  | taken _ hshape _ => simp [isSilent, kind?_remark hshape]

theorem exists_of_append {keywords : Keywords} {before behind : List Lexeme} {lexeme : Lexeme}
    {kind : Kind} (h : Returns (before ++ lexeme :: behind) returned)
    (hkind : lexeme.kind? keywords = some kind) (hdef : kind.isDefinition = true) :
    ∃ behind', returned = before ++ lexeme :: behind' ∧ Returns behind behind' ∧
      '\n' ∉ join before ∧ '\n' ∉ lexeme.text := by
  generalize hlexemes : before ++ lexeme :: behind = lexemes at h
  induction h generalizing before with
  | nil => simp at hlexemes
  | @keep first rest rest' hnewline _ hrest ih =>
    cases before with
    | nil =>
      obtain ⟨rfl, rfl⟩ := List.cons.inj hlexemes
      exact ⟨rest', rfl, hrest, by simp, hnewline⟩
    | cons other before =>
      obtain ⟨rfl, hlater⟩ := List.cons.inj hlexemes
      obtain ⟨behind', rfl, hbehind, hbefore, hlexeme⟩ := ih hlater
      exact ⟨behind', rfl, hbehind, by simp [hnewline, hbefore], hlexeme⟩
  | gap =>
    have hmem : lexeme ∈ [(⟨.newline, ['\n']⟩ : Lexeme)] := by simp [← hlexemes]
    obtain rfl := List.mem_singleton.1 hmem
    cases hkind
    cases hdef
  | @taken shape text _ hshape _ =>
    have hmem : lexeme ∈ [⟨shape, text⟩, ⟨.newline, ['\n']⟩] := by simp [← hlexemes]
    rcases List.mem_pair.1 hmem with rfl | rfl
    · rw [kind?_remark hshape] at hkind
      cases hkind
      cases hdef
    · cases hkind
      cases hdef

end Lexeme.Returns

/-! ### Blocks and decorators -/

namespace Block

variable {dialect : Dialect} {depth : Nat}

theorem lastPart?_crlf {line : Text} (h : '\n' ∉ line.dropLast) :
    lastPart? dialect depth (Text.crlf line) = lastPart? dialect depth line := by
  obtain ⟨hall, htake⟩ := (Lexeme.returns_scan h).all_isSilent_eq dialect.keywords
  have hlead : lead? dialect.keywords (Text.crlf line) = lead? dialect.keywords line := by
    rw [lead?, lead?, hall]
    cases hsilent : (Lexeme.scan line).all (Lexeme.isSilent dialect.keywords) with
    | true => rfl
    | false => rw [htake hsilent]
  rw [lastPart?, lastPart?, Indent.level_crlf, hlead]

theorem take_crlf {lines : List Text} (h : Text.AreLines lines) :
    take dialect depth (lines.map Text.crlf) = (take dialect depth lines).map Text.crlf := by
  induction lines with
  | nil => rfl
  | cons line below ih =>
    obtain ⟨-, hsingle, -, hbelow⟩ := Text.AreLines.cons_iff.1 h
    rw [List.map_cons, take, take, lastPart?_crlf hsingle]
    cases hpart : lastPart? dialect depth line with
    | none => exact congrArg (Text.crlf line :: ·) (ih hbelow)
    | some part =>
      have hsame : Text.crlf part = part :=
        Text.crlf_of_not_mem (newline_not_mem_lastPart? hsingle hpart)
      dsimp only
      split
      · rfl
      · rw [List.map_singleton, hsame]

end Block

namespace Listing

theorem isDecoratorLine_iff {column : Nat} {line : Text} :
    isDecoratorLine column line = true ↔
      ∃ indent rest, line = indent ++ '@' :: rest ∧ Text.byteLength indent = column - 1 ∧
        indent.all Text.isBlank = true := by
  rw [isDecoratorLine, Text.splitAtByte?]
  constructor
  · intro h
    by_cases hcut : Text.IsBoundary line (column - 1)
    · simp only [if_pos hcut, Bool.and_eq_true, beq_iff_eq] at h
      obtain ⟨rest, hrest⟩ := List.head?_eq_some_iff.1 h.2
      refine ⟨_, rest, ?_, hcut, h.1⟩
      rw [← hrest, Text.takeBytes_append_dropBytes]
    · rw [if_neg hcut] at h
      cases h
  · intro h
    obtain ⟨indent, rest, rfl, hlength, hblank⟩ := h
    have hcut : Text.IsBoundary (indent ++ '@' :: rest) (Text.byteLength indent) :=
      congrArg Text.byteLength (Text.takeBytes_byteLength indent ('@' :: rest))
    rw [← hlength, if_pos hcut, Text.takeBytes_byteLength, Text.dropBytes_byteLength]
    simp [hblank]

theorem isDecoratorLine_append {tail : Text} (h : '@' ∉ tail) (column : Nat) (line : Text) :
    isDecoratorLine column (line ++ tail) = isDecoratorLine column line := by
  rw [Bool.eq_iff_iff, isDecoratorLine_iff, isDecoratorLine_iff]
  constructor
  · intro hlonger
    obtain ⟨indent, rest, hline, hlength, hblank⟩ := hlonger
    rcases List.append_eq_append_iff.1 hline with ⟨more, -, rfl⟩ | ⟨more, rfl, hmore⟩
    · simp at h
    · cases more with
      | nil =>
        rw [List.nil_append] at hmore
        simp [← hmore] at h
      | cons c more =>
        obtain ⟨rfl, -⟩ := List.cons.inj hmore
        exact ⟨indent, more, rfl, hlength, hblank⟩
  · intro hshort
    obtain ⟨indent, rest, rfl, hlength, hblank⟩ := hshort
    exact ⟨indent, rest ++ tail, by simp, hlength, hblank⟩

theorem isDecoratorLine_crlf (column : Nat) {line : Text} (h : '\n' ∉ line.dropLast) :
    isDecoratorLine column (Text.crlf line) = isDecoratorLine column line := by
  by_cases hlast : line.getLast? = some '\n'
  · rw [Text.crlf_eq_of_getLast? h hlast, isDecoratorLine_append (by decide)]
    nth_rewrite 2 [Text.eq_dropLast_append hlast]
    rw [isDecoratorLine_append (by decide)]
  · rw [Text.crlf_of_not_mem (Text.newline_not_mem h hlast)]

end Listing

/-! ### Sites -/

namespace Site

/-- A site of a text with a carriage return before each newline, where `behind` stands behind it on
its line. -/
def crlf (behind : List Lexeme) (site : Site) : Site where
  above := site.above.map Text.crlf
  before := site.before
  lexeme := site.lexeme
  behind := behind
  below := site.below.map Text.crlf

section IsIn

variable {dialect : Dialect} {site : Site} {source : Text} {kind : Kind}

/-- What a site keeps with a carriage return before each newline of its text. -/
structure IsKept (source : Text) (site : Site) (behind : List Lexeme) : Prop where
  isIn : (site.crlf behind).IsIn (Text.crlf source)
  line_eq : (site.crlf behind).line = Text.crlf site.line
  behind : Lexeme.Returns site.behind behind
  newline_not_mem_before : '\n' ∉ Lexeme.join site.before
  newline_not_mem_lexeme : '\n' ∉ site.lexeme.text

theorem exists_isKept (h : site.IsIn source)
    (hkind : site.lexeme.kind? dialect.keywords = some kind) (hdef : kind.isDefinition = true) :
    ∃ behind, site.IsKept source behind := by
  have hsingle := (Text.AreLines.cons_iff.1 (areLines_line_below h)).2.1
  have hreturns := Lexeme.returns_scan hsingle
  rw [h.scan_eq] at hreturns
  obtain ⟨behind, hscan, hbehind, hbefore, hlexeme⟩ := hreturns.exists_of_append hkind hdef
  have hline : (site.crlf behind).line = Text.crlf site.line := by
    rw [← Lexeme.join_scan (Text.crlf site.line), hscan]
    rfl
  have hisIn : (site.crlf behind).IsIn (Text.crlf source) := by
    constructor
    · rw [Text.splitLines_crlf, h.lines_eq, lines, lines, hline, List.map_append, List.map_cons]
      rfl
    · rw [hline, hscan]
      rfl
  exact ⟨behind, hisIn, hline, hbehind, hbefore, hlexeme⟩

theorem tokenCount_map_crlf (keywords : Keywords) {lines : List Text}
    (h : ∀ line ∈ lines, '\n' ∉ line.dropLast) :
    Lexeme.tokenCount keywords ((lines.map Text.crlf).flatMap Lexeme.scan) =
      Lexeme.tokenCount keywords (lines.flatMap Lexeme.scan) := by
  induction lines with
  | nil => rfl
  | cons line rest ih =>
    obtain ⟨hline, hrest⟩ := List.forall_mem_cons.1 h
    rw [List.map_cons, List.flatMap_cons, List.flatMap_cons, Lexeme.tokenCount_append,
      Lexeme.tokenCount_append, ih hrest, (Lexeme.returns_scan hline).tokenCount_eq]

theorem single_of_mem_above (h : site.IsIn source) :
    ∀ line ∈ site.above, '\n' ∉ line.dropLast := by
  intro line hmem
  exact (areLines h).single line (List.mem_append_left _ hmem)

theorem index_crlf (h : site.IsIn source) (behind : List Lexeme) (keywords : Keywords) :
    (site.crlf behind).index keywords = site.index keywords := by
  rw [index, index, Lexeme.tokenCount_append, Lexeme.tokenCount_append]
  congr 1
  exact tokenCount_map_crlf keywords (single_of_mem_above h)

private theorem rtakeWhile_map_crlf {p : Text → Bool} {lines : List Text}
    (h : ∀ line ∈ lines, p (Text.crlf line) = p line) :
    (lines.map Text.crlf).rtakeWhile p = (lines.rtakeWhile p).map Text.crlf := by
  induction lines using List.reverseRecOn with
  | nil => rfl
  | append_singleton lines line ih =>
    obtain ⟨hlines, hline⟩ := List.forall_mem_append.1 h
    rw [List.map_append, List.map_singleton, List.rtakeWhile_concat, List.rtakeWhile_concat,
      hline line List.mem_cons_self, ih hlines]
    split
    · rw [List.map_append, List.map_singleton]
    · rfl

theorem decorators_crlf (h : site.IsIn source) (behind : List Lexeme) :
    (site.crlf behind).decorators = site.decorators.map Text.crlf := by
  apply rtakeWhile_map_crlf
  intro line hmem
  exact Listing.isDecoratorLine_crlf _ (single_of_mem_above h line hmem)

theorem blockText_crlf (h : site.IsIn source) {behind : List Lexeme}
    (hkept : site.IsKept source behind) :
    (site.crlf behind).blockText dialect = Text.crlf (site.blockText dialect) := by
  have hlevel : Indent.level dialect.indentWidth (site.crlf behind).line =
      Indent.level dialect.indentWidth site.line := by
    rw [hkept.line_eq, Indent.level_crlf]
  have hbelow : (site.crlf behind).blockBelow dialect =
      (site.blockBelow dialect).map Text.crlf := by
    rw [blockBelow, blockBelow, hlevel]
    exact Block.take_crlf (Text.AreLines.cons_iff.1 (areLines_line_below h)).2.2.2
  rw [blockText, blockText, hbelow, Text.flatten_map_crlf, Text.crlf_append]
  congr 1
  show site.lexeme.text ++ Lexeme.join behind = Text.crlf (site.lexeme.text ++ _)
  rw [Text.crlf_append, Text.crlf_of_not_mem hkept.newline_not_mem_lexeme, hkept.behind.join_eq]
  rfl

/-- The excerpt at a site has a carriage return before each of its newlines too. -/
theorem excerpt_crlf (h : site.IsIn source) {behind : List Lexeme}
    (hkept : site.IsKept source behind) (decorated : Bool) :
    (site.crlf behind).excerpt dialect decorated = Text.crlf (site.excerpt dialect decorated) := by
  have hbefore : Text.crlf (Lexeme.join site.before) = Lexeme.join site.before :=
    Text.crlf_of_not_mem hkept.newline_not_mem_before
  have hnil : (site.crlf behind).decorators ≠ [] ↔ site.decorators ≠ [] := by
    simp [decorators_crlf h]
  simp only [excerpt, hnil, blockText_crlf h hkept]
  split
  · rw [Text.crlf_append, Text.crlf_append, hbefore, decorators_crlf h, Text.flatten_map_crlf]
    rfl
  · rfl

theorem precedesIdentifier_crlf {behind : List Lexeme} (hkept : site.IsKept source behind)
    (keywords : Keywords) :
    (site.crlf behind).precedesIdentifier keywords = site.precedesIdentifier keywords :=
  hkept.behind.any_next?_eq keywords

end IsIn

end Site

namespace Listing

variable {dialect : Dialect} {source : Text} {kind : Kind} {name : Text} {keyword : Token}
  {index : Nat}

theorem Defines.definitionText_crlf (h : (read dialect source).Defines kind name keyword index)
    (hdef : kind.isDefinition = true) (decorated : Bool) :
    (read dialect (Text.crlf source)).definitionText decorated index =
      ((read dialect source).definitionText decorated index).map Text.crlf := by
  obtain ⟨site, hsite, rfl, hkind, -, hname⟩ :=
    h.exists_site (Kind.ne_newline_of_isDefinition hdef)
  obtain ⟨behind, hkept⟩ := Site.exists_isKept hsite hkind hdef
  have hindex := Site.index_crlf hsite behind dialect.keywords
  have hreturned := Site.definitionText_eq hkept.isIn hkind hdef
    ((Site.precedesIdentifier_crlf hkept dialect.keywords).trans hname) decorated
  rw [hindex, Site.excerpt_crlf hsite hkept] at hreturned
  rw [hreturned, Site.definitionText_eq hsite hkind hdef hname]
  rfl

theorem Defines.exists_lineAt_crlf (h : (read dialect source).Defines kind name keyword index)
    (hdef : kind.isDefinition = true) :
    ∃ line line', (read dialect source).lineAt (keyword.line - 1) = .ok line ∧
      (read dialect (Text.crlf source)).lineAt (keyword.line - 1) = .ok line' ∧
      line'.text = Text.crlf line.text := by
  obtain ⟨site, hsite, -, hkind, rfl, -⟩ := h.exists_site (Kind.ne_newline_of_isDefinition hdef)
  obtain ⟨behind, hkept⟩ := Site.exists_isKept hsite hkind hdef
  have hline : (site.token dialect kind).line - 1 = site.above.length := Nat.add_sub_cancel_left ..
  have hlength : (site.crlf behind).above.length = site.above.length := List.length_map ..
  have hreturned : (read dialect (Text.crlf source)).lineAt (site.crlf behind).above.length = _ :=
    Site.lineAt_eq hkept.isIn rfl
  rw [hlength] at hreturned
  rw [hline]
  exact ⟨_, _, Site.lineAt_eq hsite rfl, hreturned, hkept.line_eq⟩

end Listing

end Excerpt
