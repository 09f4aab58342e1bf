import Excerpt.Listing.Search
import Excerpt.Proofs.Veil
/-!
# What comments and string literals leave alone

With its comments and string literals under a veil, a text has the same lines and boundaries, and
the same tokens but for the ignored ones. Its definitions are the same too: an ignored token is no
name, so nothing is defined by a token before it.
-/
namespace Excerpt

/-- The bytes at which the keywords of the definitions of a name start, or stop, as the edge says. -/
def Listing.definitionEdges (edge : Token → Nat) (listing : Listing) (kind : Kind) (name : Text) :
    List Nat :=
  (listing.definitions kind name).filterMap fun index => listing.tokens[index]?.map edge

/-- What two listings have in common that differ only in what comments and string literals hold. -/
structure Listing.Resembles (first second : Listing) : Prop where
  tokens : first.tokens.filter (·.kind ≠ .ignored) = second.tokens.filter (·.kind ≠ .ignored)
  lines : first.lines.map Line.span = second.lines.map Line.span
  boundaries : first.boundaries = second.boundaries
  starts : ∀ kind name, kind ≠ .ignored →
    first.definitionEdges Token.start kind name = second.definitionEdges Token.start kind name
  stops : ∀ kind name,
    first.definitionEdges Token.stop kind name = second.definitionEdges Token.stop kind name

/-! ### Rows -/

def Line.veil (line : Line) : Line := { line with text := Text.veil .code line.text }

def Row.veil (row : Row) : Row := { row with line := row.line.veil }

theorem Line.place_veil (number start : Nat) (texts : List Text) :
    place number start (texts.map (Text.veil .code)) = (place number start texts).map veil := by
  induction texts generalizing number start with
  | nil => rfl
  | cons text rest ih => simp [place, ih, veil]

theorem Row.place_veil (width previous : Nat) (lines : List Line) :
    place width previous (lines.map Line.veil) = (place width previous lines).map veil := by
  induction lines generalizing previous with
  | nil => rfl
  | cons line rest ih =>
    have hdepth : Indent.depth? width line.veil.text = Indent.depth? width line.text :=
      Indent.depth?_veil width line.text
    simp [place, ih, hdepth, veil]

theorem Listing.linesOf_veil (source : Text) :
    linesOf (Text.veil .code source) = (linesOf source).map Line.veil := by
  rw [linesOf, linesOf, Text.splitLines_veil, Line.place_veil]

theorem Listing.rowsOf_veil (width : Nat) (source : Text) :
    rowsOf width (Text.veil .code source) = (rowsOf width source).map Row.veil := by
  rw [rowsOf, rowsOf, linesOf_veil, Row.place_veil]

theorem Token.endOf_veil (source : Text) : endOf (Text.veil .code source) = endOf source := by
  simp [endOf, Text.unfinishedLine_veil]

theorem Listing.boundariesOf_veil (width : Nat) (source : Text) :
    boundariesOf width (Text.veil .code source) = boundariesOf width source := by
  have hlast : lastDepth width (Text.veil .code source) = lastDepth width source := by
    rw [lastDepth, lastDepth, rowsOf_veil, List.getLast?_map, Option.map_map]
    rfl
  rw [boundariesOf, boundariesOf, rowsOf_veil, List.flatMap_map, hlast, Token.endOf_veil]
  rfl

/-! ### Tokens -/

namespace Token

/-- How the tokens of a text change under a veil: each ignored one may become several, the last of
which stops where it stopped. -/
inductive Veils : List Token → List Token → Prop
  | nil : Veils [] []
  | keep {token : Token} {tokens others : List Token} (h : Veils tokens others) :
      Veils (token :: tokens) (token :: others)
  | hide {token last : Token} {tokens front others : List Token} (hkind : token.kind = .ignored)
      (hfront : ∀ other ∈ front, other.kind = .ignored) (hlast : last.kind = .ignored)
      (hstop : last.stop = token.stop) (h : Veils tokens others) :
      Veils (token :: tokens) (front ++ last :: others)

theorem Veils.append {first first' second second' : List Token} (h : Veils first first')
    (hsecond : Veils second second') : Veils (first ++ second) (first' ++ second') := by
  induction h with
  | nil => exact hsecond
  | keep _ ih => exact .keep ih
  | hide hkind hfront hlast hstop _ ih =>
    rw [List.append_assoc, List.cons_append, List.cons_append]
    exact .hide hkind hfront hlast hstop ih

private theorem byteLength_join_pluses (n : Nat) :
    Text.byteLength (Lexeme.join (List.replicate n ⟨.other, ['+']⟩)) = n := by
  rw [Lexeme.join, List.map_replicate, List.flatten_replicate_singleton, Text.byteLength_pluses]

private theorem exists_place_pluses (keywords : Keywords) (row : Row) (offset n : Nat) :
    ∃ front last, place keywords row offset (List.replicate (n + 1) ⟨.other, ['+']⟩) =
        front ++ [last] ∧ (∀ other ∈ front, other.kind = .ignored) ∧ last.kind = .ignored ∧
      last.stop = row.line.start + (offset + (n + 1)) := by
  rw [List.replicate_succ', place_append, byteLength_join_pluses]
  refine ⟨_, _, rfl, ?_, rfl, ?_⟩
  · intro other hmem
    obtain ⟨-, -, lexeme, hlexeme, hkind⟩ := exists_of_mem_place keywords row hmem
    rw [List.eq_of_mem_replicate hlexeme, Lexeme.kind?, Option.some.injEq] at hkind
    exact hkind.symm
  · rw [← Nat.add_assoc offset]
    rfl

theorem veils_place (keywords : Keywords) (row : Row) (offset : Nat) {lexemes : List Lexeme}
    (hne : ∀ lexeme ∈ lexemes, lexeme.text ≠ []) :
    Veils (place keywords row offset lexemes)
      (place keywords row.veil offset (lexemes.flatMap Lexeme.veil)) := by
  induction lexemes generalizing offset with
  | nil => exact .nil
  | cons lexeme rest ih =>
    obtain ⟨hfirst, hrest⟩ := List.forall_mem_cons.1 hne
    have hnext := ih (offset + Text.byteLength lexeme.text) hrest
    rw [List.flatMap_cons, Lexeme.veil]
    split
    · next hremark =>
      have hkind : lexeme.kind? keywords = some .ignored := by
        rcases hremark with h | h <;> simp [Lexeme.kind?, h]
      obtain ⟨n, hn⟩ := Nat.exists_eq_add_one_of_ne_zero (Text.byteLength_pos hfirst).ne'
      obtain ⟨front, last, hpluses, hfront, hlast, hstop⟩ :=
        exists_place_pluses keywords row.veil offset n
      rw [place_append, hn, hpluses, byteLength_join_pluses, List.append_assoc, place, hkind, hn]
      rw [hn] at hnext
      exact .hide rfl hfront hlast hstop hnext
    · rw [List.singleton_append, place, place]
      cases hkind : lexeme.kind? keywords with
      | none => exact hnext
      | some kind => exact .keep hnext

theorem veils_tokensOf (dialect : Dialect) (source : Text) :
    Veils (Listing.tokensOf dialect source) (Listing.tokensOf dialect (Text.veil .code source)) := by
  have hrows : ∀ rows : List Row, Veils (rows.flatMap (ofRow dialect.keywords))
      ((rows.map Row.veil).flatMap (ofRow dialect.keywords)) := by
    intro rows
    induction rows with
    | nil => exact .nil
    | cons row rest ih =>
      rw [List.map_cons, List.flatMap_cons, List.flatMap_cons]
      refine .append ?_ ih
      rw [ofRow, ofRow, show row.veil.line.text = Text.veil .code row.line.text from rfl,
        Lexeme.scan_veil]
      exact veils_place dialect.keywords row 0 fun _ => Lexeme.text_ne_nil_of_mem_scan
  rw [Listing.tokensOf, Listing.tokensOf, Listing.rowsOf_veil, endOf_veil]
  exact .append (hrows _) (.keep .nil)

/-! ### What a veil leaves alone -/

theorem Veils.filter_eq {tokens others : List Token} (h : Veils tokens others) :
    tokens.filter (·.kind ≠ .ignored) = others.filter (·.kind ≠ .ignored) := by
  induction h with
  | nil => rfl
  | keep _ ih => rw [List.filter_cons, List.filter_cons, ih]
  | hide hkind hfront hlast _ _ ih =>
    rw [List.filter_append, List.filter_cons_of_neg (by simp [hkind]),
      List.filter_cons_of_neg (by simp [hlast]), ih, List.self_eq_append_left,
      List.filter_eq_nil_iff]
    simpa using hfront

/-- The edges of the tokens of a kind that a name follows directly. -/
def edges (edge : Token → Nat) (kind : Kind) (name : Text) : List Token → List Nat
  | [] => []
  | token :: rest =>
    if token.kind == kind && rest.head?.any (·.is .identifier name) then
      edge token :: edges edge kind name rest
    else edges edge kind name rest

theorem Veils.any_head?_eq {tokens others : List Token} (h : Veils tokens others) (name : Text) :
    tokens.head?.any (·.is .identifier name) = others.head?.any (·.is .identifier name) := by
  have hignored : ∀ token : Token, token.kind = .ignored → token.is .identifier name = false := by
    intro token hkind
    simp [is, hkind]
  cases h with
  | nil => rfl
  | keep _ => rfl
  | @hide token last tokens front others hkind hfront hlast _ _ =>
    cases front with
    | nil => simp [hignored, hkind, hlast]
    | cons other front => simp [hignored, hkind, hfront other List.mem_cons_self]

theorem edges_append_of_ignored (edge : Token → Nat) (kind : Kind) (name : Text)
    {front rest : List Token} {last : Token} (hfront : ∀ other ∈ front, other.kind = .ignored)
    (hlast : last.kind = .ignored) :
    edges edge kind name (front ++ last :: rest) = edges edge kind name (last :: rest) := by
  induction front with
  | nil => rfl
  | cons other front ih =>
    obtain ⟨_, hfront⟩ := List.forall_mem_cons.1 hfront
    have hnext : (front ++ last :: rest).head?.any (·.is .identifier name) = false := by
      cases front with
      | nil => simp [is, hlast]
      | cons next front => simp [is, hfront next List.mem_cons_self]
    rw [List.cons_append, edges, hnext, Bool.and_false, ih hfront]
    rfl

/-- Definitions have the same edges under a veil; where an ignored token stands for the keyword,
this goes for its end only. -/
theorem Veils.edges_eq {tokens others : List Token} (h : Veils tokens others)
    {edge : Token → Nat} {kind : Kind} (hedge : kind = .ignored → edge = stop) (name : Text) :
    edges edge kind name tokens = edges edge kind name others := by
  induction h with
  | nil => rfl
  | keep hrest ih => rw [edges, edges, ih, hrest.any_head?_eq name]
  | hide hkind hfront hlast hstop hrest ih =>
    rw [edges_append_of_ignored edge kind name hfront hlast, edges, edges, ih,
      hrest.any_head?_eq name, hkind, hlast]
    by_cases hignored : kind = .ignored
    · rw [hedge hignored, hstop]
    · simp [Ne.symm hignored]

end Token

namespace Listing

theorem definitionEdges_eq (edge : Token → Nat) (listing : Listing) (kind : Kind) (name : Text) :
    listing.definitionEdges edge kind name = Token.edges edge kind name listing.tokens := by
  have hzip : ∀ front rest : List Token,
      ((((rest.zip rest.tail).zipIdx front.length).filter fun pair =>
        pair.1.1.kind == kind && pair.1.2.is .identifier name).map (·.2)).filterMap
          (fun index => (front ++ rest)[index]?.map edge) = Token.edges edge kind name rest := by
    intro front rest
    induction rest generalizing front with
    | nil => rfl
    | cons token rest ih =>
      cases rest with
      | nil => simp [Token.edges]
      | cons next rest =>
        have hrest := ih (front ++ [token])
        rw [List.length_append, List.length_singleton, List.append_assoc, List.singleton_append]
          at hrest
        rw [List.tail_cons, List.zip_cons_cons, List.zipIdx_cons, Token.edges, List.head?_cons,
          Option.any_some, ← hrest, List.filter_cons]
        split
        · simp
        · rfl
  have htokens := hzip [] listing.tokens
  simpa [definitionEdges, definitions, definitionKeywords, Function.comp_def] using htokens

/-- A veil over the comments and string literals of a text changes neither its lines and boundaries,
nor the tokens that are not ignored, nor where definitions are found. -/
theorem ofSource_veil (dialect : Dialect) (hwidth : 1 ≤ dialect.indentWidth) (source : Text) :
    ∃ plain veiled, ofSource dialect source = .ok plain ∧
      ofSource dialect (Text.veil .code source) = .ok veiled ∧ Resembles plain veiled := by
  have htokens := Token.veils_tokensOf dialect source
  refine ⟨_, _, ofSource_eq_ok hwidth source, ofSource_eq_ok hwidth (Text.veil .code source), ?_⟩
  constructor
  case tokens => exact htokens.filter_eq
  case lines =>
    rw [read_lines, read_lines, linesOf_veil, List.map_map]
    apply List.map_congr_left
    intro line _
    simp [Line.span, Line.stop, Line.veil]
  case boundaries => exact (boundariesOf_veil dialect.indentWidth source).symm
  case starts =>
    intro kind name hkind
    rw [definitionEdges_eq, definitionEdges_eq]
    exact htokens.edges_eq (fun h => absurd h hkind) name
  case stops =>
    intro kind name
    rw [definitionEdges_eq, definitionEdges_eq]
    exact htokens.edges_eq (fun _ => rfl) name

theorem ofSource_veil_keywords :
    let source := "def f(): # class A\n  x = \"\\\"class A\" 'def\\\n  class A: é".toList
    ∃ plain veiled, ofSource {} source = .ok plain ∧
      ofSource {} (Text.veil .code source) = .ok veiled ∧ Resembles plain veiled :=
  ofSource_veil {} (by decide) _

/-- Before a name, an ignored token is the string literal without a veil, and the last of its plus
signs with one. -/
theorem ofSource_veil_ignored :
    let source := "\"\" f".toList
    let starts := fun text =>
      (ofSource {} text).map (definitionEdges Token.start · .ignored "f".toList)
    starts source = .ok [0] ∧ starts (Text.veil .code source) = .ok [1] := by
  decide +kernel

end Listing

end Excerpt
