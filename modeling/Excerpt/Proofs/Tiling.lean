import Excerpt.Proofs.Literals
import Excerpt.Proofs.TokenOrder
/-!
# Tokens tile the text

Every byte of a text lies in exactly one token or in a gap before one. Between the tokens stand
spaces, tabs, carriage returns and form feeds only, and of the tokens only comments and string
literals hold any of these, so that the text is its gaps and literals in turn.
-/
namespace Excerpt

theorem Text.isBoundary_byteLength (first second : Text) :
    IsBoundary (first ++ second) (byteLength first) := by
  rw [IsBoundary, takeBytes_byteLength]

namespace Token

/-- The texts between consecutive tokens, the first of which follows the byte `start`. -/
def gaps (source : Text) : Nat → List Token → List Text
  | _, [] => []
  | start, token :: rest => Text.slice source ⟨start, token.start⟩ :: gaps source token.stop rest

/-- Whether a token is a comment or a string literal, closed or not: an ignored one that starts with
the mark of either and stays on its line. -/
def IsRemark (token : Token) : Prop :=
  token.kind = .ignored ∧ ∃ mark rest, token.literal = mark :: rest ∧
    (mark = '#' ∨ mark = '"' ∨ mark = '\'') ∧ '\n' ∉ rest

/-- What holds of the tokens of a text, as they lie in its bytes. -/
structure IsTiling (source : Text) (tokens : List Token) : Prop where
  start_lt : tokens.Pairwise fun first second => first.start < second.start
  stop_le : tokens.Pairwise fun first second => first.stop ≤ second.start
  boundary : ∀ token ∈ tokens,
    Text.IsBoundary source token.start ∧ Text.IsBoundary source token.stop
  literal_ne : ∀ token ∈ tokens.dropLast, token.literal ≠ []
  literal_eq : ∀ token ∈ tokens, Text.slice source token.span = token.literal
  gap : ∀ text ∈ gaps source 0 tokens, ∀ c ∈ text, Shape.isGap c = true
  solid : ∀ token ∈ tokens, ¬ token.IsRemark → ∀ c ∈ token.literal, Shape.isGap c = false
  last_eq : ∃ last, tokens.getLast? = some last ∧ last.kind = .endOfInput ∧ last.literal = [] ∧
    last.depth = 1 ∧ last.span = ⟨Text.byteLength source, Text.byteLength source⟩
  rebuilt : (List.zipWith (· ++ ·) (gaps source 0 tokens) (tokens.map literal)).flatten = source

/-! ### Covering a text piece by piece -/

/-- Whether consecutive tokens cover a text that starts at a byte: each stands behind gaps, and the
next one goes on where it stops. -/
inductive Covers : Nat → Text → List Token → Prop
  | nil {start : Nat} : Covers start [] []
  | cons {start : Nat} {gap rest : Text} {token : Token} {tokens : List Token}
      (hgap : ∀ c ∈ gap, Shape.isGap c = true)
      (hstart : token.start = start + Text.byteLength gap)
      (hstop : token.stop = token.start + Text.byteLength token.literal)
      (hrest : Covers token.stop rest tokens) :
      Covers start (gap ++ (token.literal ++ rest)) (token :: tokens)

theorem Covers.literal_append {start : Nat} {literal rest : Text} {token : Token}
    {tokens : List Token} (hstart : token.start = start) (hliteral : token.literal = literal)
    (hstop : token.stop = start + Text.byteLength literal)
    (h : Covers token.stop rest tokens) : Covers start (literal ++ rest) (token :: tokens) := by
  subst hstart hliteral
  exact .cons (List.forall_mem_nil _) rfl hstop h

theorem Covers.gap_append {start : Nat} {gap text : Text} {tokens : List Token}
    (hgap : ∀ c ∈ gap, Shape.isGap c = true) (hne : tokens ≠ [])
    (h : Covers (start + Text.byteLength gap) text tokens) :
    Covers start (gap ++ text) tokens := by
  cases h with
  | nil => exact absurd rfl hne
  | cons hmore hstart hstop hrest =>
    rw [← List.append_assoc]
    refine .cons ?_ ?_ hstop hrest
    · intro c hc
      exact (List.mem_append.1 hc).elim (hgap c) (hmore c)
    · rw [hstart, Text.byteLength_append, Nat.add_assoc]

private theorem covers_place (keywords : Keywords) (row : Row) {offset : Nat}
    {lexemes : List Lexeme} {text rest : Text} {tokens : List Token}
    (hscan : ∀ lexeme ∈ lexemes, lexeme ∈ Lexeme.scan text) (hne : tokens ≠ [])
    (h : Covers (row.line.start + offset + Text.byteLength (Lexeme.join lexemes)) rest tokens) :
    Covers (row.line.start + offset) (Lexeme.join lexemes ++ rest)
      (place keywords row offset lexemes ++ tokens) := by
  induction lexemes generalizing offset with
  | nil => exact h
  | cons lexeme behind ih =>
    obtain ⟨hfirst, hbehind⟩ := List.forall_mem_cons.1 hscan
    rw [Lexeme.join_cons, Text.byteLength_append, ← Nat.add_assoc, Nat.add_assoc _ offset] at h
    have hnext := ih hbehind h
    rw [Lexeme.join_cons, List.append_assoc, place]
    cases hkind : lexeme.kind? keywords with
    | none =>
      apply Covers.gap_append (Lexeme.isGap_of_kind?_eq_none hfirst hkind)
      · simp [hne]
      · rwa [Nat.add_assoc]
    | some kind =>
      exact .literal_append rfl rfl (Nat.add_assoc _ _ _).symm hnext

private theorem covers_ofLines (dialect : Dialect) (number start previous : Nat)
    {lines : List Text} {rest : Text} {tokens : List Token} (hne : tokens ≠ [])
    (h : Covers (start + Text.byteLength lines.flatten) rest tokens) :
    Covers start (lines.flatten ++ rest)
      (ofLines dialect number start previous lines ++ tokens) := by
  induction lines generalizing number start previous with
  | nil => exact h
  | cons line below ih =>
    rw [List.flatten_cons, Text.byteLength_append, ← Nat.add_assoc] at h
    have hbelow := ih (number + 1) (start + Text.byteLength line)
      (Indent.depthAfter dialect.indentWidth previous line) h
    rw [List.flatten_cons, List.append_assoc, ofLines_cons, List.append_assoc, ofRow]
    have hline := covers_place dialect.keywords
      ⟨⟨number, start, line⟩, previous, Indent.depthAfter dialect.indentWidth previous line⟩
      (fun _ hmem => hmem) (List.append_ne_nil_of_right_ne_nil _ hne)
      (by rwa [Lexeme.join_scan, Nat.add_zero])
    rwa [Lexeme.join_scan] at hline

theorem covers_tokensOf (dialect : Dialect) (source : Text) :
    Covers 0 source (Listing.tokensOf dialect source) := by
  have hend : Covers (Text.byteLength source) ([] ++ []) [endOf source] :=
    .literal_append rfl rfl rfl .nil
  have hlines := covers_ofLines dialect 1 0 1 (List.cons_ne_nil (endOf source) [])
    (by rwa [Text.flatten_splitLines, Nat.zero_add])
  rwa [Text.flatten_splitLines, List.append_nil, List.append_nil, ← tokensOf_eq] at hlines

/-! ### Where covering tokens lie -/

namespace Covers

variable {start : Nat} {text : Text} {tokens : List Token}

theorem exists_eq_of_mem (h : Covers start text tokens) (front : Text)
    (hfront : start = Text.byteLength front) {token : Token} (hmem : token ∈ tokens) :
    ∃ before behind, front ++ text = before ++ token.literal ++ behind ∧
      token.start = Text.byteLength before ∧
      token.stop = Text.byteLength (before ++ token.literal) := by
  induction h generalizing front with
  | nil => simp at hmem
  | @cons start gap rest first tokens hgap hstart hstop hrest ih =>
    have hbefore : first.start = Text.byteLength (front ++ gap) := by
      rw [hstart, hfront, Text.byteLength_append]
    have hbehind : first.stop = Text.byteLength (front ++ gap ++ first.literal) := by
      rw [hstop, hbefore, Text.byteLength_append _ first.literal]
    rcases List.mem_cons.1 hmem with rfl | hmem
    · exact ⟨front ++ gap, rest, by simp, hbefore, hbehind⟩
    · simpa using ih _ hbehind hmem

theorem gaps_cons {front gap rest : Text} {token : Token} (tokens : List Token)
    (hstart : token.start = Text.byteLength front + Text.byteLength gap) :
    gaps (front ++ (gap ++ (token.literal ++ rest))) (Text.byteLength front) (token :: tokens) =
      gap :: gaps (front ++ (gap ++ (token.literal ++ rest))) token.stop tokens := by
  rw [gaps, hstart, ← List.append_assoc, Text.slice_append]

theorem isGap_of_mem_gaps (h : Covers start text tokens) (front : Text)
    (hfront : start = Text.byteLength front) :
    ∀ gap ∈ gaps (front ++ text) start tokens, ∀ c ∈ gap, Shape.isGap c = true := by
  induction h generalizing front with
  | nil => simp [gaps]
  | @cons start gap rest token tokens hgap hstart hstop hrest ih =>
    subst hfront
    have hbehind : token.stop = Text.byteLength (front ++ gap ++ token.literal) := by
      rw [hstop, hstart, Text.byteLength_append, Text.byteLength_append]
    rw [gaps_cons tokens hstart, List.forall_mem_cons]
    exact ⟨hgap, by simpa using ih _ hbehind⟩

theorem flatten_zipWith_gaps (h : Covers start text tokens) (front : Text)
    (hfront : start = Text.byteLength front) :
    (List.zipWith (· ++ ·) (gaps (front ++ text) start tokens) (tokens.map literal)).flatten =
      text := by
  induction h generalizing front with
  | nil => rfl
  | @cons start gap rest token tokens hgap hstart hstop hrest ih =>
    subst hfront
    have hbehind : token.stop = Text.byteLength (front ++ gap ++ token.literal) := by
      rw [hstop, hstart, Text.byteLength_append, Text.byteLength_append]
    have hnext := ih _ hbehind
    rw [List.append_assoc, List.append_assoc] at hnext
    rw [gaps_cons tokens hstart, List.map_cons, List.zipWith_cons_cons, List.flatten_cons, hnext,
      List.append_assoc]

end Covers

theorem isGap_of_mem_literal {dialect : Dialect} {source : Text} {token : Token}
    (h : token ∈ Listing.tokensOf dialect source) (hremark : ¬ token.IsRemark) :
    ∀ c ∈ token.literal, Shape.isGap c = false := by
  intro d hd
  have hend : token ≠ endOf source := by
    intro hend
    rw [hend] at hd
    cases hd
  obtain ⟨lexeme, hlexeme, hkind, htext⟩ := exists_lexeme_of_mem h hend
  obtain ⟨c, rest, hc, hstarts, hcontinues⟩ := Lexeme.exists_eq_of_mem_scan hlexeme
  have hgap : ¬ (lexeme.shape = .spaces ∨ lexeme.shape = .tabs ∨ lexeme.shape = .control) := by
    rw [← Lexeme.kind?_eq_none_iff_shape dialect.keywords, hkind]
    simp
  have hplain : lexeme.shape ≠ .comment ∧ lexeme.shape ≠ .string := by
    constructor
    all_goals
      intro hshape
      rw [hshape] at hstarts hcontinues
      rw [Lexeme.kind?, hshape, Option.some.injEq] at hkind
      apply hremark
      refine ⟨hkind.symm, c, rest, htext ▸ hc, ?_, fun hmem => hcontinues _ hmem rfl⟩
    · exact .inl hstarts
    · exact .inr hstarts
  rw [← htext, hc] at hd
  apply Shape.isGap_eq_false_of_shape hgap hplain
  rcases List.mem_cons.1 hd with rfl | hd
  · exact .inl hstarts
  · exact .inr (hcontinues d hd)

end Token

namespace Listing

/-- The tokens of a text tile it. -/
theorem ofSource_isTiling (dialect : Dialect) (hwidth : 1 ≤ dialect.indentWidth) (source : Text) :
    ∃ listing, ofSource dialect source = .ok listing ∧
      Token.IsTiling source listing.tokens := by
  have hcovers := Token.covers_tokensOf dialect source
  have horder := Token.pairwise_tokensOf dialect source
  have hplace : ∀ token ∈ tokensOf dialect source, ∃ before behind,
      source = before ++ token.literal ++ behind ∧ token.start = Text.byteLength before ∧
        token.stop = Text.byteLength (before ++ token.literal) :=
    fun token hmem => hcovers.exists_eq_of_mem [] rfl hmem
  refine ⟨read dialect source, ofSource_eq_ok hwidth source, ?_⟩
  constructor
  case start_lt => exact horder.imp fun h => h.start_lt.trans_le h.stop_le
  case stop_le => exact horder.imp fun h => h.stop_le
  case boundary =>
    intro token hmem
    obtain ⟨before, behind, hsource, hstart, hstop⟩ := hplace token hmem
    rw [hstart, hstop]
    constructor
    · rw [hsource, List.append_assoc]
      exact Text.isBoundary_byteLength _ _
    · rw [hsource]
      exact Text.isBoundary_byteLength _ _
  case literal_ne =>
    intro token hmem hnil
    obtain ⟨before, behind, -, hstart, hstop⟩ := hplace token
      ((List.dropLast_sublist _).subset hmem)
    rw [read_tokens, Token.tokensOf_eq, List.dropLast_concat] at hmem
    have hfull := (Token.bounds_of_mem_ofLines hmem).2.2.2.1
    rw [hnil, List.append_nil] at hstop
    omega
  case literal_eq =>
    intro token hmem
    obtain ⟨before, behind, hsource, hstart, hstop⟩ := hplace token hmem
    rw [Token.span, hstart, hstop, hsource, Text.byteLength_append, Text.slice_append]
  case gap => exact hcovers.isGap_of_mem_gaps [] rfl
  case solid => exact fun token => Token.isGap_of_mem_literal
  case last_eq => exact ⟨Token.endOf source, by simp [Token.tokensOf_eq], rfl, rfl, rfl, rfl⟩
  case rebuilt => exact hcovers.flatten_zipWith_gaps [] rfl

theorem ofSource_isTiling_remarks :
    ∃ listing, ofSource {} "\tdef é(x): # a b\r\n \x0c'it\\' s ".toList = .ok listing ∧
      Token.IsTiling "\tdef é(x): # a b\r\n \x0c'it\\' s ".toList listing.tokens :=
  ofSource_isTiling {} (by decide) _

end Listing

end Excerpt
