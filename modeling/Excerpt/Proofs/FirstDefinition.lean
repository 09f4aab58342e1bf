import Excerpt.Proofs.Sites
/-!
# The first definition of a name

A definition is a keyword with the defined name as the next token, so it never spans two lines. The
first definition in the tokens of a text is therefore found by going through the lines, and through
the lexemes of each.
-/
namespace Excerpt

/-- Whether a lexeme is a keyword of a kind that is directly followed by a name. -/
def Lexeme.defines (keywords : Keywords) (kind : Kind) (name : Text) (lexeme : Lexeme)
    (behind : List Lexeme) : Bool :=
  lexeme.kind? keywords == some kind &&
    (next? keywords behind).any fun next =>
      next.kind? keywords == some .identifier && next.text == name

namespace Site

def findIn? (keywords : Keywords) (kind : Kind) (name : Text) (below : List Text) :
    List Lexeme → Option Site
  | [] => none
  | lexeme :: behind =>
    if lexeme.defines keywords kind name behind then some ⟨[], [], lexeme, behind, below⟩
    else (findIn? keywords kind name below behind).map fun site =>
      { site with before := lexeme :: site.before }

def find? (keywords : Keywords) (kind : Kind) (name : Text) : List Text → Option Site
  | [] => none
  | line :: below =>
    (findIn? keywords kind name below (Lexeme.scan line)).or
      ((find? keywords kind name below).map fun site => { site with above := line :: site.above })

section Find

variable {keywords : Keywords} {kind : Kind} {name : Text} {site : Site}

theorem findIn?_below (below below' : List Text) (lexemes : List Lexeme) :
    findIn? keywords kind name below' lexemes =
      (findIn? keywords kind name below lexemes).map fun site => { site with below := below' } := by
  induction lexemes with
  | nil => rfl
  | cons lexeme behind ih =>
    rw [findIn?, findIn?]
    split
    · rfl
    · rw [ih, Option.map_map, Option.map_map]
      rfl

theorem of_findIn?_eq_some {below : List Text} {lexemes : List Lexeme}
    (h : findIn? keywords kind name below lexemes = some site) :
    site.above = [] ∧ site.below = below ∧ lexemes = site.before ++ site.lexeme :: site.behind ∧
      site.lexeme.defines keywords kind name site.behind = true := by
  induction lexemes generalizing site with
  | nil => cases h
  | cons lexeme behind ih =>
    rw [findIn?] at h
    split at h
    · next hdef =>
      cases h
      exact ⟨rfl, rfl, rfl, hdef⟩
    · obtain ⟨found, hfound, rfl⟩ := Option.map_eq_some_iff.1 h
      obtain ⟨habove, hbelow, rfl, hdef⟩ := ih hfound
      exact ⟨habove, hbelow, rfl, hdef⟩

theorem find?_eq_none_iff {lines : List Text} :
    find? keywords kind name lines = none ↔
      ∀ line ∈ lines, findIn? keywords kind name [] (Lexeme.scan line) = none := by
  induction lines with
  | nil => simp [find?]
  | cons line below ih =>
    rw [find?, Option.or_eq_none_iff, Option.map_eq_none_iff, ih, findIn?_below [] below,
      Option.map_eq_none_iff, List.forall_mem_cons]

theorem find?_eq_some_iff {lines : List Text} :
    find? keywords kind name lines = some site ↔ lines = site.lines ∧
      (∀ line ∈ site.above, findIn? keywords kind name [] (Lexeme.scan line) = none) ∧
      findIn? keywords kind name site.below (Lexeme.scan site.line) =
        some { site with above := [] } := by
  induction lines generalizing site with
  | nil => simp [find?, lines]
  | cons line below ih =>
    rw [find?, Option.or_eq_some_iff]
    constructor
    · rintro (h | ⟨hline, h⟩)
      · -- The site is on the first line.
        obtain ⟨habove, hbelow, hscan, -⟩ := of_findIn?_eq_some h
        have hline : site.line = line := by rw [Site.line, ← hscan, Lexeme.join_scan]
        obtain ⟨above, before, lexeme, behind, rest⟩ := site
        subst habove hbelow
        refine ⟨by rw [lines, hline]; rfl, by simp, ?_⟩
        rw [hline]
        exact h
      · -- It is further down, and the first line joins those above it.
        obtain ⟨found, hfound, rfl⟩ := Option.map_eq_some_iff.1 h
        obtain ⟨rfl, habove, hown⟩ := ih.1 hfound
        refine ⟨rfl, ?_, hown⟩
        intro text hmem
        rcases List.mem_cons.1 hmem with rfl | hmem
        · rw [findIn?_below found.lines [], hline]
          rfl
        · exact habove text hmem
    · rintro ⟨hlines, habove, hown⟩
      obtain ⟨above, before, lexeme, behind, rest⟩ := site
      cases above with
      | nil =>
        obtain ⟨hline, hbelow⟩ := List.cons.inj hlines
        left
        rw [hline, hbelow]
        exact hown
      | cons top above =>
        obtain ⟨hline, hbelow⟩ := List.cons.inj hlines
        right
        constructor
        · rw [findIn?_below [] below, hline, habove top List.mem_cons_self]
          rfl
        · have hfound : find? keywords kind name below =
              some ⟨above, before, lexeme, behind, rest⟩ :=
            ih.2 ⟨hbelow, fun text hmem => habove text (List.mem_cons_of_mem _ hmem), hown⟩
          rw [hfound, hline]
          rfl

theorem find?_line {lines above : List Text} (h : find? keywords kind name lines = some site)
    (habove : find? keywords kind name above = none) (below : List Text) :
    find? keywords kind name (above ++ site.line :: below) =
      some { site with above := above, below := below } := by
  obtain ⟨-, -, hown⟩ := find?_eq_some_iff.1 h
  have hmoved : findIn? keywords kind name below (Lexeme.scan site.line) = _ :=
    findIn?_below site.below below _
  rw [hown] at hmoved
  exact find?_eq_some_iff.2 ⟨rfl, find?_eq_none_iff.1 habove, hmoved⟩

end Find

end Site

/-! ### Definitions among tokens -/

namespace Token

/-- The index of the first definition of a name among consecutive tokens. -/
def firstDefinition? (kind : Kind) (name : Text) : List Token → Option Nat
  | [] => none
  | token :: rest =>
    if token.kind == kind && rest.head?.any (·.is .identifier name) then some 0
    else (firstDefinition? kind name rest).map (· + 1)

theorem firstDefinition?_append {kind : Kind} {name : Text} {first second : List Token}
    (h : ∀ token, first.getLast? = some token → token.kind = kind →
      second.head?.any (·.is .identifier name) = false) :
    firstDefinition? kind name (first ++ second) = (firstDefinition? kind name first).or
      ((firstDefinition? kind name second).map (· + first.length)) := by
  induction first with
  | nil => simp [firstDefinition?]
  | cons token rest ih =>
    rw [List.cons_append, firstDefinition?, firstDefinition?]
    cases rest with
    | nil =>
      by_cases hkind : token.kind = kind
      · have hnext := h token rfl hkind
        simp [firstDefinition?, hnext]
      · simp [firstDefinition?, hkind]
    | cons next rest =>
      rw [List.cons_append, List.head?_cons, List.head?_cons, ← List.cons_append]
      split
      · rfl
      · rw [ih (by simpa using h)]
        cases firstDefinition? kind name (next :: rest) with
        | some index => rfl
        | none => simp [Function.comp_def, Nat.add_assoc]

private theorem any_is_eq {keywords : Keywords} {name : Text} {tokens : List Token}
    {lexemes : List Lexeme}
    (h : tokens.head?.map (fun token => (token.kind, token.literal)) =
      (Lexeme.next? keywords lexemes).bind fun lexeme =>
        (lexeme.kind? keywords).map fun kind => (kind, lexeme.text)) :
    tokens.head?.any (·.is .identifier name) =
      (Lexeme.next? keywords lexemes).any fun next =>
        next.kind? keywords == some .identifier && next.text == name := by
  have hany : tokens.head?.any (·.is .identifier name) =
      (tokens.head?.map fun token => (token.kind, token.literal)).any
        fun pair => pair.1 == .identifier && pair.2 == name := by
    cases tokens.head? <;> rfl
  rw [hany, h]
  cases Lexeme.next? keywords lexemes with
  | none => rfl
  | some lexeme => cases hkind : lexeme.kind? keywords <;> simp [hkind]

theorem firstDefinition?_place (keywords : Keywords) (row : Row) (kind : Kind) (name : Text)
    (below : List Text) (offset : Nat) (lexemes : List Lexeme) :
    firstDefinition? kind name (place keywords row offset lexemes) =
      (Site.findIn? keywords kind name below lexemes).map fun site =>
        Lexeme.tokenCount keywords site.before := by
  induction lexemes generalizing offset with
  | nil => rfl
  | cons lexeme behind ih =>
    rw [place, Site.findIn?, Lexeme.defines]
    cases hkind : lexeme.kind? keywords with
    | none =>
      have hcount : ∀ before, Lexeme.tokenCount keywords (lexeme :: before) =
          Lexeme.tokenCount keywords before := by
        intro before
        simp [Lexeme.tokenCount, Lexeme.isToken, hkind]
      simp [ih, hcount, Function.comp_def]
    | some found =>
      have hcount : ∀ before, Lexeme.tokenCount keywords (lexeme :: before) =
          Lexeme.tokenCount keywords before + 1 := by
        intro before
        simp [Lexeme.tokenCount, Lexeme.isToken, hkind]
      have hnext : ∀ next, (place keywords row next behind).head?.any (·.is .identifier name) = _ :=
        fun next => any_is_eq (head?_place keywords row next behind)
      rw [firstDefinition?, hnext]
      by_cases hdef : (found == kind && (Lexeme.next? keywords behind).any fun next =>
          next.kind? keywords == some .identifier && next.text == name) = true
      · rw [if_pos hdef, if_pos (by simpa using hdef)]
        rfl
      · rw [if_neg hdef, if_neg (by simpa using hdef), ih]
        simp [hcount, Function.comp_def]

theorem firstDefinition?_ofLines (dialect : Dialect) {kind : Kind} (hn : kind ≠ .newline)
    (name : Text) {lines : List Text} (hlines : Text.AreLines lines)
    (number start previous : Nat) (source : Text) :
    firstDefinition? kind name
        (ofLines dialect number start previous lines ++ [endOf source]) =
      (Site.find? dialect.keywords kind name lines).map (Site.index dialect.keywords) := by
  induction lines generalizing number start previous with
  | nil => simp [firstDefinition?, Site.find?]
  | cons line below ih =>
    obtain ⟨-, -, hended, hbelow⟩ := Text.AreLines.cons_iff.1 hlines
    rw [ofLines_cons, List.append_assoc, Site.find?, firstDefinition?_append, ih hbelow, ofRow,
      firstDefinition?_place dialect.keywords _ kind name below, length_place]
    · cases hline : Site.findIn? dialect.keywords kind name below (Lexeme.scan line) with
      | some site =>
        obtain ⟨habove, -⟩ := Site.of_findIn?_eq_some hline
        simp [Site.index, habove]
      | none =>
        cases Site.find? dialect.keywords kind name below with
        | none => rfl
        | some site =>
          simp only [Option.map_none, Option.map_some, Option.none_or, Site.index,
            List.flatMap_cons, Lexeme.tokenCount_append, Option.some.injEq]
          omega
    · -- A finished line ends with its newline, and what follows an unfinished one is the end.
      intro token hlast hkind
      by_cases hnil : below = []
      · subst hnil
        rfl
      · obtain ⟨last, hrow, hnewline⟩ := getLast?_ofRow dialect.keywords
          ⟨⟨number, start, line⟩, previous, Indent.depthAfter dialect.indentWidth previous line⟩
          (hended hnil)
        rw [hrow, Option.some.injEq] at hlast
        rw [← hkind, ← hlast] at hn
        exact absurd hnewline hn

end Token

namespace Listing

theorem head?_definitions (listing : Listing) (kind : Kind) (name : Text) :
    (listing.definitions kind name).head? = Token.firstDefinition? kind name listing.tokens := by
  have hzip : ∀ (tokens : List Token) (start : Nat),
      ((((tokens.zip tokens.tail).zipIdx start).filter fun pair =>
        pair.1.1.kind == kind && pair.1.2.is .identifier name).map (·.2)).head? =
        (Token.firstDefinition? kind name tokens).map (· + start) := by
    intro tokens
    induction tokens with
    | nil => intro start; rfl
    | cons token rest ih =>
      intro start
      cases rest with
      | nil => simp [Token.firstDefinition?]
      | cons next rest =>
        have hrest := ih (start + 1)
        rw [List.tail_cons, List.zip_cons_cons, List.zipIdx_cons, Token.firstDefinition?,
          List.head?_cons, Option.any_some, List.filter_cons]
        split
        · simp
        · rw [List.tail_cons] at hrest
          rw [hrest, Option.map_map]
          congr 1
          funext index
          simp only [Function.comp_apply]
          omega
  have htokens := hzip listing.tokens 0
  simpa [definitions, definitionKeywords, Function.comp_def] using htokens

/-- The first definition of a name is where going through the lines finds it. -/
theorem head?_definitions_read (dialect : Dialect) (source : Text) {kind : Kind}
    (hn : kind ≠ .newline) (name : Text) :
    ((read dialect source).definitions kind name).head? =
      (Site.find? dialect.keywords kind name (Text.splitLines source)).map
        (Site.index dialect.keywords) := by
  rw [head?_definitions]
  exact Token.firstDefinition?_ofLines dialect hn name (Text.areLines_splitLines source) 1 0 1 source

end Listing

end Excerpt
