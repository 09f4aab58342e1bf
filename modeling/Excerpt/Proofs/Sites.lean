import Excerpt.Proofs.Blocks
/-!
# Sites of tokens

The site of a token is its place in the text: a lexeme, with the lexemes before and behind it on its
line and the lines above and below. A site splits the tokens of a text in two, and gives the block
that a definition opens there as lines of the text.
-/
namespace Excerpt

/-- A lexeme of a text with all that surrounds it. -/
structure Site where
  above : List Text
  before : List Lexeme
  lexeme : Lexeme
  behind : List Lexeme
  below : List Text

namespace Site

def line (site : Site) : Text := Lexeme.join (site.before ++ site.lexeme :: site.behind)

def lines (site : Site) : List Text := site.above ++ site.line :: site.below

/-- Whether a site lies in a text: the text has its lines, and its line has its lexemes. -/
structure IsIn (site : Site) (source : Text) : Prop where
  lines_eq : Text.splitLines source = site.lines
  scan_eq : Lexeme.scan site.line = site.before ++ site.lexeme :: site.behind

end Site

namespace Lexeme

def isToken (keywords : Keywords) (lexeme : Lexeme) : Bool := (lexeme.kind? keywords).isSome

def next? (keywords : Keywords) (lexemes : List Lexeme) : Option Lexeme :=
  lexemes.find? (isToken keywords)

def tokenCount (keywords : Keywords) (lexemes : List Lexeme) : Nat :=
  lexemes.countP (isToken keywords)

theorem tokenCount_append (keywords : Keywords) (first second : List Lexeme) :
    tokenCount keywords (first ++ second) =
      tokenCount keywords first + tokenCount keywords second :=
  List.countP_append

end Lexeme

def Site.index (keywords : Keywords) (site : Site) : Nat :=
  Lexeme.tokenCount keywords (site.above.flatMap Lexeme.scan ++ site.before)

/-! ### Counting tokens -/

namespace Token

theorem length_place (keywords : Keywords) (row : Row) (offset : Nat) (lexemes : List Lexeme) :
    (place keywords row offset lexemes).length = Lexeme.tokenCount keywords lexemes := by
  induction lexemes generalizing offset with
  | nil => rfl
  | cons lexeme rest ih =>
    rw [place]
    cases hkind : lexeme.kind? keywords with
    | none => simp [Lexeme.tokenCount, Lexeme.isToken, hkind, ih]
    | some kind => simp [Lexeme.tokenCount, Lexeme.isToken, hkind, ih]

theorem length_ofLines (dialect : Dialect) (number start previous : Nat) (lines : List Text) :
    (ofLines dialect number start previous lines).length =
      Lexeme.tokenCount dialect.keywords (lines.flatMap Lexeme.scan) := by
  induction lines generalizing number start previous with
  | nil => rfl
  | cons line below ih =>
    rw [ofLines_cons, List.length_append, ih, ofRow, length_place, List.flatMap_cons,
      Lexeme.tokenCount_append]

theorem head?_place (keywords : Keywords) (row : Row) (offset : Nat) (lexemes : List Lexeme) :
    (place keywords row offset lexemes).head?.map (fun token => (token.kind, token.literal)) =
      (Lexeme.next? keywords lexemes).bind fun lexeme =>
        (lexeme.kind? keywords).map fun kind => (kind, lexeme.text) := by
  induction lexemes generalizing offset with
  | nil => rfl
  | cons lexeme rest ih =>
    rw [place, Lexeme.next?]
    cases hkind : lexeme.kind? keywords with
    | none =>
      rw [List.find?_cons_of_neg (by simp [Lexeme.isToken, hkind])]
      exact ih _
    | some kind =>
      rw [List.find?_cons_of_pos (by simp [Lexeme.isToken, hkind])]
      simp [hkind]

end Token

namespace Site

private theorem exists_split_of_lt_countP {α : Type} {p : α → Bool} {items : List α} {i : Nat}
    (h : i < items.countP p) :
    ∃ before item behind, items = before ++ item :: behind ∧ p item = true ∧
      before.countP p = i := by
  induction items generalizing i with
  | nil => simp at h
  | cons item rest ih =>
    by_cases hp : p item = true
    · cases i with
      | zero => exact ⟨[], item, rest, rfl, hp, rfl⟩
      | succ i =>
        rw [List.countP_cons_of_pos hp] at h
        obtain ⟨before, found, behind, rfl, hfound, hcount⟩ := ih (by omega : i < rest.countP p)
        exact ⟨item :: before, found, behind, rfl, hfound, by
          rw [List.countP_cons_of_pos hp, hcount]⟩
    · rw [List.countP_cons_of_neg hp] at h
      obtain ⟨before, found, behind, rfl, hfound, hcount⟩ := ih h
      exact ⟨item :: before, found, behind, rfl, hfound, by
        rw [List.countP_cons_of_neg hp, hcount]⟩

private theorem exists_line_of_lt_tokenCount {keywords : Keywords} {lines : List Text} {i : Nat}
    (h : i < Lexeme.tokenCount keywords (lines.flatMap Lexeme.scan)) :
    ∃ above line below, lines = above ++ line :: below ∧
      ∃ j < Lexeme.tokenCount keywords (Lexeme.scan line),
        i = Lexeme.tokenCount keywords (above.flatMap Lexeme.scan) + j := by
  induction lines generalizing i with
  | nil => simp [Lexeme.tokenCount] at h
  | cons line rest ih =>
    rw [List.flatMap_cons, Lexeme.tokenCount_append] at h
    by_cases hi : i < Lexeme.tokenCount keywords (Lexeme.scan line)
    · exact ⟨[], line, rest, rfl, i, hi, (Nat.zero_add i).symm⟩
    · obtain ⟨above, found, below, rfl, j, hj, heq⟩ :=
        ih (Nat.sub_lt_left_of_lt_add (Nat.le_of_not_lt hi) h)
      refine ⟨line :: above, found, below, rfl, j, hj, ?_⟩
      rw [List.flatMap_cons, Lexeme.tokenCount_append]
      omega

theorem exists_of_lt_length (dialect : Dialect) {source : Text} {i : Nat}
    (h : i + 1 < (Listing.tokensOf dialect source).length) :
    ∃ site : Site, site.IsIn source ∧ site.index dialect.keywords = i ∧
      site.lexeme.isToken dialect.keywords = true := by
  rw [Token.tokensOf_eq, List.length_append, List.length_singleton, Token.length_ofLines] at h
  obtain ⟨above, text, below, hlines, j, hj, hi⟩ :=
    exists_line_of_lt_tokenCount (Nat.lt_of_succ_lt_succ h)
  obtain ⟨before, lexeme, behind, hscan, htoken, hcount⟩ := exists_split_of_lt_countP hj
  have hline : line ⟨above, before, lexeme, behind, below⟩ = text := by
    rw [line, ← hscan, Lexeme.join_scan]
  refine ⟨⟨above, before, lexeme, behind, below⟩, ⟨?_, ?_⟩, ?_, htoken⟩
  · rw [hlines, lines, hline]
  · rw [hline, hscan]
  · rw [index, Lexeme.tokenCount_append, hi, ← hcount]
    rfl

/-! ### The tokens around a site -/

def row (dialect : Dialect) (site : Site) : Row where
  line := ⟨1 + site.above.length, Text.byteLength site.above.flatten, site.line⟩
  previous := site.above.foldl (Indent.depthAfter dialect.indentWidth) 1
  depth := Indent.depthAfter dialect.indentWidth
    (site.above.foldl (Indent.depthAfter dialect.indentWidth) 1) site.line

def token (dialect : Dialect) (site : Site) (kind : Kind) : Token where
  kind := kind
  literal := site.lexeme.text
  line := 1 + site.above.length
  column := Text.byteLength (Lexeme.join site.before) + 1
  depth := (site.row dialect).depth
  start := Text.byteLength site.above.flatten + Text.byteLength (Lexeme.join site.before)
  stop := Text.byteLength site.above.flatten +
    (Text.byteLength (Lexeme.join site.before) + Text.byteLength site.lexeme.text)

def tokensBefore (dialect : Dialect) (site : Site) : List Token :=
  Token.ofLines dialect 1 0 1 site.above ++
    Token.place dialect.keywords (site.row dialect) 0 site.before

def tokensBehind (dialect : Dialect) (site : Site) : List Token :=
  Token.place dialect.keywords (site.row dialect)
    (Text.byteLength (Lexeme.join site.before) + Text.byteLength site.lexeme.text) site.behind

def tokensBelow (dialect : Dialect) (site : Site) : List Token :=
  Token.ofLines dialect (1 + site.above.length + 1)
    (Text.byteLength site.above.flatten + Text.byteLength site.line) (site.row dialect).depth
    site.below

section IsIn

variable {dialect : Dialect} {site : Site} {source : Text} {kind : Kind}

theorem ofRow_row (h : site.IsIn source)
    (hkind : site.lexeme.kind? dialect.keywords = some kind) :
    Token.ofRow dialect.keywords (site.row dialect) =
      Token.place dialect.keywords (site.row dialect) 0 site.before ++
        site.token dialect kind :: site.tokensBehind dialect := by
  rw [Token.ofRow, show (site.row dialect).line.text = site.line from rfl, h.scan_eq,
    Token.place_append, Token.place, hkind, Nat.zero_add]
  rfl

theorem length_tokensBefore (dialect : Dialect) (site : Site) :
    (site.tokensBefore dialect).length = site.index dialect.keywords := by
  rw [tokensBefore, List.length_append, Token.length_ofLines, Token.length_place, index,
    Lexeme.tokenCount_append]

/-- A site splits the tokens of a text into those before it, its own, those behind it on its line
and those below. -/
theorem tokensOf_split (h : site.IsIn source)
    (hkind : site.lexeme.kind? dialect.keywords = some kind) :
    Listing.tokensOf dialect source = site.tokensBefore dialect ++ site.token dialect kind ::
      (site.tokensBehind dialect ++ (site.tokensBelow dialect ++ [Token.endOf source])) := by
  have hrow := ofRow_row h hkind
  rw [row] at hrow
  rw [Token.tokensOf_eq, h.lines_eq, lines, Token.ofLines_append, Token.ofLines_cons,
    Nat.zero_add, hrow]
  simp [tokensBefore, tokensBelow, row]

theorem tokensOf_eq (h : site.IsIn source)
    (hkind : site.lexeme.kind? dialect.keywords = some kind) :
    ∃ front, front.length = site.index dialect.keywords ∧
      Listing.tokensOf dialect source = front ++ site.token dialect kind ::
        (site.tokensBehind dialect ++ (site.tokensBelow dialect ++ [Token.endOf source])) :=
  ⟨site.tokensBefore dialect, length_tokensBefore dialect site, tokensOf_split h hkind⟩

/-- A token other than the last one stands at a site that has its index. -/
theorem exists_of_getElem? {index : Nat} {token : Token}
    (htoken : (Listing.tokensOf dialect source)[index]? = some token)
    (hlast : index + 1 ≠ (Listing.tokensOf dialect source).length) :
    ∃ (site : Site) (kind : Kind), site.IsIn source ∧ site.index dialect.keywords = index ∧
      site.lexeme.kind? dialect.keywords = some kind ∧ site.token dialect kind = token := by
  have hlength := (List.getElem?_eq_some_iff.1 htoken).1
  obtain ⟨site, hsite, rfl, hlexeme⟩ := exists_of_lt_length dialect
    (by omega : index + 1 < (Listing.tokensOf dialect source).length)
  obtain ⟨kind, hkind⟩ := Option.isSome_iff_exists.1 hlexeme
  obtain ⟨front, hfront, htokens⟩ := tokensOf_eq hsite hkind
  rw [htokens, ← hfront] at htoken
  exact ⟨site, kind, hsite, rfl, hkind, by simpa using htoken⟩

theorem flatten_lines (h : site.IsIn source) :
    source = site.above.flatten ++ (site.line ++ site.below.flatten) := by
  rw [← Text.flatten_splitLines source, h.lines_eq, lines, List.flatten_append, List.flatten_cons]

theorem byteLength_eq (h : site.IsIn source) :
    Text.byteLength source = Text.byteLength site.above.flatten + Text.byteLength site.line +
      Text.byteLength site.below.flatten := by
  have hsource := congrArg Text.byteLength (flatten_lines h)
  simpa [Nat.add_assoc] using hsource

theorem areLines (h : site.IsIn source) : Text.AreLines site.lines := by
  rw [← h.lines_eq]
  exact Text.areLines_splitLines source

theorem areLines_line_below (h : site.IsIn source) : Text.AreLines (site.line :: site.below) :=
  (areLines h).sublist (List.sublist_append_right _ _)

theorem row_depth (h : site.IsIn source)
    (hkind : site.lexeme.kind? dialect.keywords = some kind) (hn : kind ≠ .newline) :
    (site.row dialect).depth = 1 + Indent.level dialect.indentWidth site.line := by
  have hsingle := (Text.AreLines.cons_iff.1 (areLines_line_below h)).2.1
  have hmem : site.lexeme ∈ Lexeme.scan site.line := by simp [h.scan_eq]
  exact Indent.depthAfter_of_hasContent _ _ (Indent.hasContent_of_mem_scan hsingle hmem hkind hn)

end IsIn

/-! ### The block at a site -/

/-- The lines of the block that a definition opens at a site, below its first line. -/
def blockBelow (dialect : Dialect) (site : Site) : List Text :=
  Block.take dialect (1 + Indent.level dialect.indentWidth site.line) site.below

def blockText (dialect : Dialect) (site : Site) : Text :=
  Lexeme.join (site.lexeme :: site.behind) ++ (site.blockBelow dialect).flatten

def precedesIdentifier (keywords : Keywords) (site : Site) : Bool :=
  (Lexeme.next? keywords site.behind).any (·.kind? keywords == some .identifier)

end Site

namespace Listing

theorem blockSpan_of_split {listing : Listing} {front rest : List Token} {keyword : Token}
    (h : listing.tokens = front ++ keyword :: rest) (hdef : keyword.kind.isDefinition = true)
    (hname : rest.head?.any (·.kind == .identifier) = true) :
    listing.blockSpan front.length = .ok ⟨keyword.start,
      ((rest.tail.find? keyword.endsBlock).map Token.start).getD
        (Text.byteLength listing.source)⟩ := by
  have htoken : listing.tokenAt front.length = .ok keyword := by
    simp [tokenAt, h]
  have hnext : listing.isIdentifierAt (front.length + 1) = true := by
    rw [isIdentifierAt, h, List.getElem?_append_right (by omega), Nat.add_sub_cancel_left,
      List.getElem?_cons_succ, ← List.head?_eq_getElem?]
    exact hname
  have hdrop : listing.tokens.drop (front.length + 2) = rest.tail := by
    rw [h, List.drop_append, List.drop_eq_nil_of_le (by omega), Nat.add_sub_cancel_left,
      List.nil_append, List.drop_succ_cons, List.drop_one]
  simp only [blockSpan, htoken, hdef, hnext, blockEnd?, hdrop, bind, Except.bind, pure, Except.pure,
    Bool.and_self, if_true]

end Listing

namespace Site

variable {dialect : Dialect} {site : Site} {source : Text} {kind : Kind}

theorem line_eq (site : Site) :
    site.line = Lexeme.join site.before ++ Lexeme.join (site.lexeme :: site.behind) := by
  rw [line, Lexeme.join_append]

theorem start_token (dialect : Dialect) (site : Site) (kind : Kind) :
    (site.token dialect kind).start =
      Text.byteLength (site.above.flatten ++ Lexeme.join site.before) := by
  rw [Text.byteLength_append]
  rfl

theorem start_add_byteLength_blockText (dialect : Dialect) (site : Site) (kind : Kind) :
    (site.token dialect kind).start + Text.byteLength (site.blockText dialect) =
      Text.byteLength site.above.flatten + Text.byteLength site.line +
        Text.byteLength (site.blockBelow dialect).flatten := by
  rw [start_token, blockText, line_eq, Text.byteLength_append, Text.byteLength_append,
    Text.byteLength_append]
  omega

theorem head?_tokensBehind :
    (site.tokensBehind dialect).head?.any (·.kind == .identifier) =
      site.precedesIdentifier dialect.keywords := by
  have hhead := Token.head?_place dialect.keywords (site.row dialect)
    (Text.byteLength (Lexeme.join site.before) + Text.byteLength site.lexeme.text) site.behind
  rw [precedesIdentifier]
  cases hnext : Lexeme.next? dialect.keywords site.behind with
  | none =>
    rw [hnext, Option.bind_none, Option.map_eq_none_iff] at hhead
    simp [tokensBehind, hhead]
  | some lexeme =>
    have htoken := List.find?_some hnext
    obtain ⟨found, hfound⟩ := Option.isSome_iff_exists.1 htoken
    rw [hnext, Option.bind_some, hfound, Option.map_some, Option.map_eq_some_iff] at hhead
    obtain ⟨token, htoken, hpair⟩ := hhead
    have hkind := congrArg Prod.fst hpair
    dsimp only at hkind
    rw [tokensBehind, htoken]
    simp [hkind, hfound]

private theorem start_find?_below (h : site.IsIn source)
    (hkind : site.lexeme.kind? dialect.keywords = some kind) (hn : kind ≠ .newline) :
    (((site.tokensBelow dialect ++ [Token.endOf source]).find?
        (site.token dialect kind).endsBlock).map Token.start).getD (Text.byteLength source) =
      Text.byteLength site.above.flatten + Text.byteLength site.line +
        Text.byteLength (site.blockBelow dialect).flatten := by
  have hbelow := Token.start_find?_ofLines dialect (site.token dialect kind)
    (Text.AreLines.cons_iff.1 (areLines_line_below h)).2.2.2 (1 + site.above.length + 1)
    (Text.byteLength site.above.flatten + Text.byteLength site.line) (site.row dialect).depth
    (Nat.lt_succ_self _)
  have hsize := byteLength_eq h
  have hdepth : (site.token dialect kind).depth =
      1 + Indent.level dialect.indentWidth site.line := row_depth h hkind hn
  rw [hdepth] at hbelow
  rw [blockBelow, ← hbelow, List.find?_append, tokensBelow, ← hsize]
  cases Token.ofLines dialect (1 + site.above.length + 1)
      (Text.byteLength site.above.flatten + Text.byteLength site.line) (site.row dialect).depth
      site.below |>.find? (site.token dialect kind).endsBlock with
  | some token => rfl
  | none =>
    -- The token at the end starts where the text ends, so it does not matter whether it is found.
    rw [Option.none_or, List.find?_singleton]
    split <;> rfl

/-- The block of a definition is the text that its site gives. -/
theorem blockSpan_eq (h : site.IsIn source)
    (hkind : site.lexeme.kind? dialect.keywords = some kind) (hdef : kind.isDefinition = true)
    (hname : site.precedesIdentifier dialect.keywords = true) :
    (Listing.read dialect source).blockSpan (site.index dialect.keywords) =
      .ok ⟨(site.token dialect kind).start,
        (site.token dialect kind).start + Text.byteLength (site.blockText dialect)⟩ := by
  have hn := Kind.ne_newline_of_isDefinition hdef
  obtain ⟨front, hlength, htokens⟩ := tokensOf_eq h hkind
  have hhead := head?_tokensBehind.trans hname
  cases hbehind : site.tokensBehind dialect with
  | nil => simp [hbehind] at hhead
  | cons first more =>
    rw [hbehind] at hhead htokens
    have hmore : more.find? (site.token dialect kind).endsBlock = none := by
      apply List.find?_eq_none.2
      intro token hmem
      have hmem' : token ∈ site.tokensBehind dialect := by simp [hbehind, hmem]
      have hline := (Token.exists_of_mem_place _ _ hmem').1
      have hsame : token.line = (site.token dialect kind).line := hline
      simp [Token.endsBlock, hsame]
    have hspan : (Listing.read dialect source).blockSpan front.length = _ :=
      Listing.blockSpan_of_split htokens hdef hhead
    rw [List.cons_append, List.tail_cons, List.find?_append, hmore, Option.none_or] at hspan
    rw [← hlength, hspan, Listing.read_source, start_find?_below h hkind hn,
      start_add_byteLength_blockText]

end Site

end Excerpt
