import Excerpt.Proofs.ReturnedSites
import Mathlib.Data.List.Forall2
/-!
# Line endings do not matter

With a carriage return before each of its newlines a text has the same tokens and boundaries, up to
the columns of its newlines and the ends of its comments and open string literals. What is extracted
from it is what is extracted from the text, with a carriage return before each newline.
-/
namespace Excerpt

/-- Whether a token is a comment or an open string literal that ends where a newline starts. -/
structure Token.IsCut (source : Text) (token : Token) : Prop where
  kind_eq : token.kind = .ignored
  isOpen : token.literal.isOpen = true
  newline : (Text.dropBytes token.stop source).head? = some '\n'

/-- How a token of a text changes with a carriage return before each newline of the text. -/
structure Token.Returned (source : Text) (token returned : Token) : Prop where
  kind_eq : returned.kind = token.kind
  line_eq : returned.line = token.line
  depth_eq : returned.depth = token.depth
  column_eq : token.literal ≠ ['\n'] → returned.column = token.column
  column_newline : token.literal = ['\n'] → returned.column = token.column + 1
  literal_eq : ¬ token.IsCut source → returned.literal = token.literal
  literal_cut : token.IsCut source → returned.literal = token.literal ++ ['\r']

/-- What two listings have in common, of a source and of the source with a carriage return before
each of its newlines, and the texts that are extracted from the two. A function within a class comes
with the line of the class, and the mark between them stays as it is. -/
structure IsReturned (dialect : Dialect) (source : Text) (plain returned : Listing) : Prop where
  tokens : List.Forall₂ (Token.Returned source) plain.tokens returned.tokens
  boundaries : returned.boundaries = plain.boundaries
  extract_plain : ∀ decorated (target : Target), target.isPlain = true →
    (extract dialect (Text.crlf source) decorated target).result =
      (extract dialect source decorated target).result.map Text.crlf
  extract_scoped : ∀ decorated name scope, scope ≠ [] →
    let target := Target.ofFunction name (some scope)
    (∃ error, (extract dialect source decorated target).result = .error error ∧
      (extract dialect (Text.crlf source) decorated target).result = .error error) ∨
    ∃ scopeLine header body,
      plain.snippet decorated target = .ok (.ofMethod name scope scopeLine header body) ∧
      (extract dialect source decorated target).result =
        .ok (header ++ Snippet.separator ++ body) ∧
      (extract dialect (Text.crlf source) decorated target).result =
        .ok (Text.crlf header ++ Snippet.separator ++ Text.crlf body)

/-! ### Tokens -/

namespace Token

variable {dialect : Dialect} {keywords : Keywords} {source : Text} {row row' : Row}

private theorem dropBytes_stop {front text behind : Text} {start offset : Nat}
    (hsource : source = front ++ (text ++ behind)) (hoffset : start + offset = Text.byteLength front) :
    Text.dropBytes (start + (offset + Text.byteLength text)) source = behind := by
  rw [hsource, ← List.append_assoc, ← Nat.add_assoc, hoffset, ← Text.byteLength_append,
    Text.dropBytes_byteLength]

theorem place_cons {lexeme : Lexeme} {kind : Kind} (h : lexeme.kind? keywords = some kind)
    (offset : Nat) (rest : List Lexeme) :
    place keywords row offset (lexeme :: rest) =
      { kind, literal := lexeme.text, line := row.line.number, column := offset + 1,
        depth := row.depth, start := row.line.start + offset,
        stop := row.line.start + (offset + Text.byteLength lexeme.text) } ::
        place keywords row (offset + Text.byteLength lexeme.text) rest := by
  rw [place, h]

theorem returned_newline (hnumber : row'.line.number = row.line.number)
    (hdepth : row'.depth = row.depth) (offset : Nat) :
    List.Forall₂ (Returned source) (place keywords row offset [⟨.newline, ['\n']⟩])
      (place keywords row' (offset + 1) [⟨.newline, ['\n']⟩]) := by
  refine .cons ?_ .nil
  constructor
  case kind_eq => rfl
  case line_eq => exact hnumber
  case depth_eq => exact hdepth
  case column_eq => exact fun hne => absurd rfl hne
  case column_newline => exact fun _ => rfl
  case literal_eq => exact fun _ => rfl
  case literal_cut =>
    intro hcut
    cases hcut.kind_eq

/-- Lexemes that stand in a text behind `front` and before `behind` give the same tokens up to the
changes that a carriage return makes. -/
theorem returned_place {lexemes others : List Lexeme} (h : Lexeme.Returns lexemes others)
    (hnumber : row'.line.number = row.line.number) (hdepth : row'.depth = row.depth)
    {front behind : Text} {offset : Nat}
    (hsource : source = front ++ (Lexeme.join lexemes ++ behind))
    (hoffset : row.line.start + offset = Text.byteLength front)
    (hbehind : '\n' ∉ Lexeme.join lexemes → behind = []) :
    List.Forall₂ (Returned source) (place keywords row offset lexemes)
      (place keywords row' offset others) := by
  induction h generalizing front offset with
  | nil => exact .nil
  | @keep lexeme rest rest' hnewline hopen _ ih =>
    rw [Lexeme.join_cons, List.append_assoc] at hsource
    have hnext : List.Forall₂ (Returned source)
        (place keywords row (offset + Text.byteLength lexeme.text) rest)
        (place keywords row' (offset + Text.byteLength lexeme.text) rest') := by
      apply ih
      · rw [hsource, List.append_assoc front]
      · rw [Text.byteLength_append, ← hoffset, Nat.add_assoc]
      · intro hrest
        exact hbehind (by simp [hnewline, hrest])
    rw [place, place]
    cases hkind : lexeme.kind? keywords with
    | none => exact hnext
    | some kind =>
      refine .cons ?_ hnext
      constructor
      case kind_eq => rfl
      case line_eq => exact hnumber
      case depth_eq => exact hdepth
      case column_eq => exact fun _ => rfl
      case column_newline =>
        intro (hliteral : lexeme.text = ['\n'])
        simp [hliteral] at hnewline
      case literal_eq => exact fun _ => rfl
      case literal_cut =>
        -- An open lexeme without a newline behind it on its line ends the text.
        intro hcut
        have hrest := hopen hcut.isOpen
        have hnone : behind = [] := hbehind (by simp [hrest, hnewline])
        have hstop := hcut.newline
        rw [dropBytes_stop hsource hoffset, hrest, hnone] at hstop
        cases hstop
  | gap => exact returned_newline hnumber hdepth offset
  | @taken shape text hnewline hshape hopen =>
    have hoffset' : offset + Text.byteLength (text ++ ['\r']) =
        offset + Text.byteLength text + 1 := by
      rw [Text.byteLength_append, ← Nat.add_assoc]
      rfl
    rw [Lexeme.join_cons, List.append_assoc] at hsource
    rw [place_cons (Lexeme.kind?_remark hshape keywords text),
      place_cons (Lexeme.kind?_remark hshape keywords (text ++ ['\r'])), hoffset']
    refine .cons ?_ (returned_newline hnumber hdepth _)
    constructor
    case kind_eq => rfl
    case line_eq => exact hnumber
    case depth_eq => exact hdepth
    case column_eq => exact fun _ => rfl
    case column_newline =>
      intro (hliteral : text = ['\n'])
      simp [hliteral] at hnewline
    case literal_eq =>
      intro huncut
      apply absurd _ huncut
      constructor
      case kind_eq => rfl
      case isOpen => exact hopen
      case newline =>
        rw [dropBytes_stop hsource hoffset]
        rfl
    case literal_cut => exact fun _ => rfl

theorem returned_ofLines {lines : List Text} (h : Text.AreLines lines) {front : Text}
    (hsource : source = front ++ lines.flatten) (number start previous : Nat) :
    List.Forall₂ (Returned source)
      (ofLines dialect number (Text.byteLength front) previous lines)
      (ofLines dialect number start previous (lines.map Text.crlf)) := by
  induction lines generalizing front number start previous with
  | nil => exact .nil
  | cons line below ih =>
    obtain ⟨-, hsingle, hended, hbelow⟩ := Text.AreLines.cons_iff.1 h
    have hdepth : Indent.depthAfter dialect.indentWidth previous (Text.crlf line) =
        Indent.depthAfter dialect.indentWidth previous line := by
      rw [Indent.depthAfter, Indent.depthAfter, Indent.depth?_crlf]
    rw [List.flatten_cons] at hsource
    rw [List.map_cons, ofLines_cons, ofLines_cons, hdepth]
    have hjoin : source = front ++ (Lexeme.join (Lexeme.scan line) ++ below.flatten) := by
      rw [Lexeme.join_scan]
      exact hsource
    have hlast : '\n' ∉ Lexeme.join (Lexeme.scan line) → below.flatten = [] := by
      intro hnewline
      rw [Lexeme.join_scan] at hnewline
      by_contra hne
      apply hnewline
      apply List.mem_of_getLast?
      apply hended
      intro hnil
      exact hne (by rw [hnil, List.flatten_nil])
    apply List.rel_append
    · rw [ofRow, ofRow]
      refine returned_place (Lexeme.returns_scan hsingle) ?_ ?_ hjoin ?_ hlast
      · rfl
      · rfl
      · rfl
    · rw [← Text.byteLength_append]
      apply ih hbelow
      rw [hsource, List.append_assoc]

theorem returned_endOf (source : Text) :
    Returned source (endOf source) (endOf (Text.crlf source)) := by
  constructor
  case kind_eq => rfl
  case line_eq => exact congrArg (1 + ·) (Text.count_newline_crlf source)
  case depth_eq => rfl
  case column_eq =>
    intro _
    rw [endOf, endOf, Text.unfinishedLine_crlf]
  case column_newline =>
    intro hliteral
    cases hliteral
  case literal_eq => exact fun _ => rfl
  case literal_cut =>
    intro hcut
    cases hcut.kind_eq

theorem returned_tokensOf (dialect : Dialect) (source : Text) :
    List.Forall₂ (Returned source) (Listing.tokensOf dialect source)
      (Listing.tokensOf dialect (Text.crlf source)) := by
  rw [tokensOf_eq, tokensOf_eq, Text.splitLines_crlf]
  apply List.rel_append
  · have hsource : source = [] ++ (Text.splitLines source).flatten := by simp
    exact returned_ofLines (Text.areLines_splitLines source) hsource 1 0 1
  · exact .cons (returned_endOf source) .nil

end Token

/-! ### Boundaries -/

/-- What the boundaries at a row depend on: its number, the depth before it and its own. -/
def Row.step (row : Row) : Nat × Nat × Nat := (row.line.number, row.previous, row.depth)

theorem Row.step_place_crlf (width previous number start start' : Nat) (lines : List Text) :
    (place width previous (Line.place number start' (lines.map Text.crlf))).map step =
      (place width previous (Line.place number start lines)).map step := by
  induction lines generalizing previous number start start' with
  | nil => rfl
  | cons line rest ih =>
    simp only [List.map_cons, Line.place, place, Indent.depth?_crlf, step]
    rw [ih]

namespace Listing

theorem step_rowsOf_crlf (width : Nat) (source : Text) :
    (rowsOf width (Text.crlf source)).map Row.step = (rowsOf width source).map Row.step := by
  rw [rowsOf, rowsOf, linesOf, linesOf, Text.splitLines_crlf]
  exact Row.step_place_crlf width 1 1 0 0 (Text.splitLines source)

theorem boundariesOf_crlf (width : Nat) (source : Text) :
    boundariesOf width (Text.crlf source) = boundariesOf width source := by
  have hrows := step_rowsOf_crlf width source
  have hflat : ∀ rows : List Row, rows.flatMap Boundary.ofRow =
      (rows.map Row.step).flatMap fun step => Boundary.between step.1 step.2.1 step.2.2 := by
    intro rows
    rw [List.flatMap_map]
    rfl
  have hlast : ∀ rows : List Row, rows.getLast?.map Row.depth =
      (rows.map Row.step).getLast?.map fun step => step.2.2 := by
    intro rows
    rw [List.getLast?_map, Option.map_map]
    rfl
  rw [boundariesOf, boundariesOf, lastDepth, lastDepth, hflat, hflat, hlast, hlast, hrows,
    (Token.returned_endOf source).line_eq]

/-! ### Definitions -/

theorem is_identifier_returned {source : Text} {token returned : Token}
    (h : token.Returned source returned) (name : Text) :
    returned.is .identifier name = token.is .identifier name := by
  by_cases hkind : token.kind = .identifier
  · have huncut : ¬ token.IsCut source := by
      intro hcut
      rw [hcut.kind_eq] at hkind
      cases hkind
    rw [Token.is, Token.is, h.kind_eq, h.literal_eq huncut]
  · rw [Token.is, Token.is, h.kind_eq, beq_false_of_ne hkind, Bool.false_and, Bool.false_and]

def definitionPlaces (listing : Listing) (kind : Kind) (name : Text) : List (Nat × Nat) :=
  (listing.definitionKeywords kind name).map fun definition => (definition.1.line, definition.2)

private theorem places_returned {source : Text} {tokens others : List Token}
    (h : List.Forall₂ (Token.Returned source) tokens others) (kind : Kind) (name : Text) (n : Nat) :
    (((others.zip others.tail).zipIdx n).filter fun pair =>
        pair.1.1.kind == kind && pair.1.2.is .identifier name).map
      (fun pair => (pair.1.1.line, pair.2)) =
    (((tokens.zip tokens.tail).zipIdx n).filter fun pair =>
        pair.1.1.kind == kind && pair.1.2.is .identifier name).map
      (fun pair => (pair.1.1.line, pair.2)) := by
  induction h generalizing n with
  | nil => rfl
  | cons hfirst hrest ih =>
    cases hrest with
    | nil => rfl
    | cons hsecond _ =>
      rw [List.tail_cons, List.tail_cons, List.zip_cons_cons, List.zip_cons_cons, List.zipIdx_cons,
        List.zipIdx_cons, List.filter_cons, List.filter_cons, hfirst.kind_eq,
        is_identifier_returned hsecond]
      split
      · exact congrArg₂ List.cons (Prod.ext hfirst.line_eq rfl) (ih (n + 1))
      · exact ih (n + 1)

/-- What a search for a definition reads of the tokens is the same with carriage returns. -/
theorem definitionPlaces_crlf (dialect : Dialect) (source : Text) (kind : Kind) (name : Text) :
    (read dialect (Text.crlf source)).definitionPlaces kind name =
      (read dialect source).definitionPlaces kind name := by
  have htokens := places_returned (Token.returned_tokensOf dialect source) kind name 0
  simpa [definitionPlaces, definitionKeywords, Function.comp_def] using htokens

theorem definitions_eq_places (listing : Listing) (kind : Kind) (name : Text) :
    listing.definitions kind name = (listing.definitionPlaces kind name).map (·.2) := by
  rw [definitions, definitionPlaces, List.map_map]
  rfl

theorem method?_eq_places (listing : Listing) (name scope : Text) :
    listing.method? name scope =
      (listing.definitionPlaces .functionKeyword name).findSome? fun place =>
        (((listing.definitionPlaces .classKeyword scope).map (·.1)).find? (· < place.1)).map
          (place.2, ·) := by
  rw [method?, definitionLines, definitionPlaces, definitionPlaces, List.findSome?_map, List.map_map]
  rfl

section Snippet

variable (dialect : Dialect) (source : Text) (decorated : Bool)

theorem definitions_crlf (kind : Kind) (name : Text) :
    (read dialect (Text.crlf source)).definitions kind name =
      (read dialect source).definitions kind name := by
  rw [definitions_eq_places, definitions_eq_places, definitionPlaces_crlf]

theorem method?_crlf (name scope : Text) :
    (read dialect (Text.crlf source)).method? name scope =
      (read dialect source).method? name scope := by
  rw [method?_eq_places, method?_eq_places, definitionPlaces_crlf, definitionPlaces_crlf]

theorem text_snippet_crlf {target : Target} (h : target.isPlain = true) :
    ((read dialect (Text.crlf source)).snippet decorated target).map Snippet.text =
      (((read dialect source).snippet decorated target).map Snippet.text).map Text.crlf := by
  rw [text_snippet _ _ h, text_snippet _ _ h, definitions_crlf]
  cases hfirst : ((read dialect source).definitions target.kind target.name).head? with
  | none => rfl
  | some index =>
    obtain ⟨keyword, hdefines⟩ := mem_definitions_iff.1 (List.mem_of_head? hfirst)
    exact hdefines.definitionText_crlf target.isDefinition_kind decorated

theorem methodSnippet_crlf (name scope : Text) :
    (∃ error, (read dialect source).methodSnippet decorated name scope = .error error ∧
      (read dialect (Text.crlf source)).methodSnippet decorated name scope = .error error) ∨
    ∃ scopeLine header body,
      (read dialect source).methodSnippet decorated name scope =
        .ok (.ofMethod name scope scopeLine header body) ∧
      (read dialect (Text.crlf source)).methodSnippet decorated name scope =
        .ok (.ofMethod name scope scopeLine (Text.crlf header) (Text.crlf body)) := by
  rw [methodSnippet, methodSnippet, method?_crlf]
  cases hmethod : (read dialect source).method? name scope with
  | none =>
    left
    exact ⟨_, rfl, rfl⟩
  | some found =>
    right
    obtain ⟨index, scopeLine⟩ := found
    obtain ⟨⟨keyword, hdefines⟩, other, place, hother, rfl⟩ := of_method?_eq_some hmethod
    obtain ⟨header, header', hheader, hheader', htext⟩ := hother.exists_lineAt_crlf rfl
    obtain ⟨body, hbody⟩ := hdefines.exists_definitionText rfl decorated
    have hbody' := hdefines.definitionText_crlf rfl decorated
    rw [hbody] at hbody'
    refine ⟨other.line, header.text, body, ?_, ?_⟩
    · dsimp only
      rw [hheader, hbody]
      rfl
    · dsimp only
      rw [hheader', hbody', ← htext]
      rfl

end Snippet

end Listing

/-- Carriage returns before the newlines of a text change its tokens only where they stand. In what
is extracted they stand before the same newlines. -/
theorem isReturned_crlf (dialect : Dialect) (hwidth : 1 ≤ dialect.indentWidth) (source : Text) :
    ∃ plain returned, Listing.ofSource dialect source = .ok plain ∧
      Listing.ofSource dialect (Text.crlf source) = .ok returned ∧
      IsReturned dialect source plain returned := by
  refine ⟨_, _, Listing.ofSource_eq_ok hwidth source,
    Listing.ofSource_eq_ok hwidth (Text.crlf source), ?_⟩
  constructor
  case tokens => exact Token.returned_tokensOf dialect source
  case boundaries => exact Listing.boundariesOf_crlf dialect.indentWidth source
  case extract_plain =>
    intro decorated target hplain
    rw [result_extract hwidth, result_extract hwidth]
    exact Listing.text_snippet_crlf dialect source decorated hplain
  case extract_scoped =>
    intro decorated name scope hscope target
    have hfilter : (some scope).filter (· ≠ []) = some scope := by simp [hscope]
    rw [result_extract hwidth, result_extract hwidth, Listing.snippet, Listing.snippet,
      Listing.functionSnippet, Listing.functionSnippet, hfilter, Listing.definitions_crlf]
    cases (Listing.read dialect source).definitions .functionKeyword name with
    | nil =>
      left
      exact ⟨_, rfl, rfl⟩
    | cons first rest =>
      dsimp only
      rcases Listing.methodSnippet_crlf dialect source decorated name scope with
        ⟨error, hplain, hreturned⟩ | ⟨scopeLine, header, body, hplain, hreturned⟩
      · left
        rw [hplain, hreturned]
        exact ⟨error, rfl, rfl⟩
      · right
        rw [hplain, hreturned]
        exact ⟨scopeLine, header, body, rfl, rfl, rfl⟩

theorem isReturned_crlf_remarks :
    let source := "class A:\n    @a\n    def f(): # 1\n\n        y = 'z\\\n    f()\n".toList
    let target := Target.ofFunction "f".toList none
    let snippet := "    @a\n    def f(): # 1\n\n        y = 'z\\\n    ".toList
    (extract {} source true target).result = .ok snippet ∧
      (extract {} (Text.crlf source) true target).result = .ok (Text.crlf snippet) := by
  intro source target snippet
  have hfirst : (extract {} source true target).result = .ok snippet := by decide +kernel
  obtain ⟨plain, returned, -, -, h⟩ := isReturned_crlf {} (by decide) source
  refine ⟨hfirst, ?_⟩
  rw [h.extract_plain true target rfl, hfirst]
  rfl

end Excerpt
