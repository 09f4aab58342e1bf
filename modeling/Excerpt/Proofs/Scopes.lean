import Excerpt.Proofs.Failures
import Excerpt.Proofs.Nesting
import Excerpt.Proofs.Positions
/-!
# Functions within a class

A function that is asked for within a class is looked up by lines alone: the first definition of it
on a line below the first declaration of the class is taken, whether it belongs to the class or not.
As definitions come in the order of their lines and blocks are nested, a class that has such a
definition in its own block gets the first one there, with the whole of its block.
-/
namespace Excerpt

namespace Listing

/-- Whether a definition of a function is the one that is found within a class: the first one on a
line below the first declaration of the class, which is `outer`. -/
structure IsMethod (listing : Listing) (name scope : Text) (outer : Token) (place : Nat)
    (keyword : Token) (index : Nat) : Prop where
  declares : listing.FirstDefines .classKeyword scope outer place
  defines : listing.Defines .functionKeyword name keyword index
  below : outer.line < keyword.line
  first : ∀ other earlier, earlier < index →
    listing.Defines .functionKeyword name other earlier → other.line ≤ outer.line

/-- Whether a line is that of a token, with the newline that ends it. -/
structure IsHeader (listing : Listing) (token : Token) (line : Line) : Prop where
  lineAt_eq : listing.lineAt (token.line - 1) = .ok line
  start_le : line.start ≤ token.start
  stop_le : token.stop ≤ line.stop
  ended : line.text.getLast? = some '\n'

/-- Whether a definition of a function stands in the block of a class, below its first line. -/
structure IsOwn (listing : Listing) (name : Text) (outer : Token) (block : Span) (keyword : Token)
    (index : Nat) : Prop where
  defines : listing.Defines .functionKeyword name keyword index
  below : outer.line < keyword.line
  start_le : block.start ≤ keyword.start
  start_lt : keyword.start < block.stop

/-! ### The definition that is found -/

theorem FirstDefines.unique {listing : Listing} {kind : Kind} {name : Text} {first other : Token}
    {place index : Nat} (h : listing.FirstDefines kind name first place)
    (h' : listing.FirstDefines kind name other index) : first = other ∧ place = index := by
  have hplace : place = index := by
    apply Nat.le_antisymm
    · exact Nat.le_of_not_lt fun hlt => h.first other index hlt h'.defines
    · exact Nat.le_of_not_lt fun hlt => h'.first first place hlt h.defines
  subst hplace
  exact ⟨h.defines.keyword_unique h'.defines, rfl⟩

theorem IsMethod.index_unique {listing : Listing} {name scope : Text}
    {outer outer' keyword keyword' : Token} {place place' index index' : Nat}
    (h : listing.IsMethod name scope outer place keyword index)
    (h' : listing.IsMethod name scope outer' place' keyword' index') : index = index' := by
  obtain ⟨rfl, -⟩ := h.declares.unique h'.declares
  apply Nat.le_antisymm
  · apply Nat.le_of_not_lt
    intro hlt
    exact absurd (h.first keyword' index' hlt h'.defines) (Nat.not_le.mpr h'.below)
  · apply Nat.le_of_not_lt
    intro hlt
    exact absurd (h'.first keyword index hlt h.defines) (Nat.not_le.mpr h.below)

theorem pairwise_definitionKeywords (listing : Listing) (kind : Kind) (name : Text) :
    (listing.definitionKeywords kind name).Pairwise fun first second => first.2 < second.2 := by
  have hindices : ((listing.tokens.zip listing.tokens.tail).zipIdx).Pairwise
      fun first second => first.2 < second.2 := by
    rw [← List.pairwise_map (f := Prod.snd) (R := (· < ·)), List.zipIdx_map_snd]
    exact List.pairwise_lt_range'
  rw [definitionKeywords, List.pairwise_map]
  exact hindices.filter _

variable {dialect : Dialect} {source name scope : Text} {outer keyword : Token}
  {place index : Nat}

theorem FirstDefines.find?_definitionLines
    (h : (read dialect source).FirstDefines .classKeyword scope outer place) (line : Nat) :
    ((read dialect source).definitionLines .classKeyword scope).find? (· < line) =
      if outer.line < line then some outer.line else none := by
  split
  · next hlt =>
    obtain ⟨front, rest, hsplit⟩ :=
      List.append_of_mem (mem_definitionKeywords_iff.mpr h.defines)
    have hfront : front = [] := by
      rw [List.eq_nil_iff_forall_not_mem]
      rintro ⟨other, earlier⟩ hmem
      have horder := pairwise_definitionKeywords (read dialect source) .classKeyword scope
      have hother := mem_definitionKeywords_iff.mp (hsplit ▸ List.mem_append_left _ hmem)
      rw [hsplit] at horder
      have hbefore := (List.pairwise_append.mp horder).2.2 _ hmem _ List.mem_cons_self
      exact h.first other earlier hbefore hother
    rw [definitionLines, hsplit, hfront, List.nil_append, List.map_cons,
      List.find?_cons_of_pos (by simpa using hlt)]
  · next hle =>
    apply List.find?_eq_none.mpr
    intro found hfound
    obtain ⟨other, later, hother, rfl⟩ := mem_definitionLines_iff.mp hfound
    have hlater : place ≤ later := Nat.le_of_not_lt fun hlt => h.first other later hlt hother
    have hline := h.defines.line_le hother hlater
    simp only [decide_eq_true_eq]
    omega

theorem exists_isMethod {line : Nat}
    (h : (read dialect source).method? name scope = some (index, line)) :
    ∃ outer place keyword, (read dialect source).IsMethod name scope outer place keyword index ∧
      outer.line = line := by
  obtain ⟨-, declared, place', hdeclared, -⟩ := of_method?_eq_some h
  obtain ⟨outer, place, hfirst, -⟩ := hdeclared.exists_first
  obtain ⟨front, ⟨keyword, found⟩, rest, hsplit, hfound, hbefore⟩ :=
    List.findSome?_eq_some_iff.mp h
  simp only [hfirst.find?_definitionLines] at hfound hbefore
  by_cases hbelow : outer.line < keyword.line
  · rw [if_pos hbelow, Option.map_some, Option.some.injEq, Prod.mk.injEq] at hfound
    obtain ⟨rfl, hline⟩ := hfound
    have hmem : (keyword, found) ∈ (read dialect source).definitionKeywords .functionKeyword name :=
      hsplit ▸ List.mem_append_right _ List.mem_cons_self
    refine ⟨outer, place, keyword, ⟨hfirst, mem_definitionKeywords_iff.mp hmem, hbelow, ?_⟩, hline⟩
    -- An earlier definition stands in the front part, where nothing was found.
    intro other earlier hlt hother
    have hplace := mem_definitionKeywords_iff.mpr hother
    have horder := pairwise_definitionKeywords (read dialect source) .functionKeyword name
    rw [hsplit] at hplace horder
    rcases List.mem_append.mp hplace with hmem | hmem
    · have hnone := hbefore _ hmem
      apply Nat.le_of_not_lt
      intro hmore
      rw [if_pos hmore] at hnone
      cases hnone
    · have hrest := (List.pairwise_cons.mp (List.pairwise_append.mp horder).2.1).1
      rcases List.mem_cons.mp hmem with heq | hmem
      · rw [Prod.mk.injEq] at heq
        omega
      · have hafter : found < earlier := hrest _ hmem
        omega
  · rw [if_neg hbelow] at hfound
    cases hfound

/-- A search by lines finds the first definition of the function below the first declaration of the
class. -/
theorem method?_eq_some_iff {line : Nat} :
    (read dialect source).method? name scope = some (index, line) ↔
      ∃ outer place keyword, (read dialect source).IsMethod name scope outer place keyword index ∧
        outer.line = line := by
  constructor
  · exact exists_isMethod
  · rintro ⟨outer, place, keyword, h, rfl⟩
    cases hfound : (read dialect source).method? name scope with
    | none =>
      have hline := method?_read_eq_none_iff.mp hfound outer place h.declares keyword index h.defines
      exact absurd hline (Nat.not_le.mpr h.below)
    | some found =>
      obtain ⟨outer', place', keyword', h', hline⟩ := exists_isMethod hfound
      obtain ⟨rfl, -⟩ := h.declares.unique h'.declares
      rw [Option.some.injEq, Prod.ext_iff]
      exact ⟨h'.index_unique h, hline.symm⟩

/-! ### The line of the class -/

theorem IsMethod.exists_isHeader
    (h : (read dialect source).IsMethod name scope outer place keyword index) :
    ∃ header, (read dialect source).IsHeader outer header := by
  obtain ⟨site, hsite, -, -, rfl, -⟩ := h.declares.defines.exists_site (by decide)
  obtain ⟨lower, hlower, -, -, rfl, -⟩ := h.defines.exists_site (by decide)
  have hbelow : site.below ≠ [] := by
    intro hnil
    have hlines := congrArg List.length (hsite.lines_eq.symm.trans hlower.lines_eq)
    have hline : 1 + site.above.length < 1 + lower.above.length := h.below
    simp only [Site.lines, hnil, List.length_append, List.length_cons, List.length_nil] at hlines
    omega
  obtain ⟨header, hheader, hstart, hstop⟩ := Site.exists_lineAt dialect hsite .classKeyword
  refine ⟨header, hheader, hstart, hstop, ?_⟩
  have hown : (site.token dialect .classKeyword).line - 1 = site.above.length :=
    Nat.add_sub_cancel_left ..
  have hentry : (read dialect source).lineAt site.above.length = _ := Site.lineAt_eq hsite rfl
  rw [hown, hentry, Except.ok.injEq] at hheader
  rw [← hheader]
  exact (Text.AreLines.cons_iff.mp (Site.areLines_line_below hsite)).2.2.1 hbelow

theorem text_functionSnippet_eq_ok_iff (hscope : scope ≠ []) {decorated : Bool} {text : Text} :
    ((read dialect source).functionSnippet decorated name (some scope)).map Snippet.text =
        .ok text ↔
      ∃ outer place keyword index header body,
        (read dialect source).IsMethod name scope outer place keyword index ∧
        (read dialect source).IsHeader outer header ∧
        (read dialect source).definitionText decorated index = .ok body ∧
        text = header.text ++ Snippet.separator ++ body := by
  have hfilter : (some scope).filter (· ≠ []) = some scope := by simp [hscope]
  rw [functionSnippet, hfilter]
  cases hdefined : (read dialect source).definitions .functionKeyword name with
  | nil =>
    refine iff_of_false (by simp [Except.map]) ?_
    rintro ⟨outer, place, keyword, index, header, body, h, -⟩
    exact definitions_eq_nil_iff.mp hdefined keyword index h.defines
  | cons _ _ =>
    dsimp only
    rw [methodSnippet]
    cases hfound : (read dialect source).method? name scope with
    | none =>
      refine iff_of_false (by simp [Except.map]) ?_
      rintro ⟨outer, place, keyword, index, header, body, h, -⟩
      rw [method?_eq_some_iff.mpr ⟨outer, place, keyword, h, rfl⟩] at hfound
      cases hfound
    | some found =>
      obtain ⟨index, line⟩ := found
      obtain ⟨outer, place, keyword, h, rfl⟩ := exists_isMethod hfound
      obtain ⟨header, hheader⟩ := h.exists_isHeader
      obtain ⟨body, hbody⟩ := h.defines.exists_definitionText rfl decorated
      simp only [hheader.lineAt_eq, hbody, bind, Except.bind, pure, Except.pure, Except.map,
        Snippet.text, Except.ok.injEq]
      constructor
      · rintro rfl
        exact ⟨outer, place, keyword, index, header, body, h, hheader, hbody, rfl⟩
      · rintro ⟨outer', place', keyword', index', header', body', h', hheader', hbody', rfl⟩
        obtain rfl := h.index_unique h'
        obtain ⟨rfl, -⟩ := h.declares.unique h'.declares
        have hline := hheader.lineAt_eq.symm.trans hheader'.lineAt_eq
        rw [hbody, Except.ok.injEq] at hbody'
        rw [Except.ok.injEq] at hline
        rw [hline, hbody']

/-! ### Blocks within blocks -/

theorem Defines.exists_blockSpan {kind : Kind}
    (h : (read dialect source).Defines kind name keyword index) (hdef : kind.isDefinition = true) :
    ∃ stop, (read dialect source).blockSpan index = .ok ⟨keyword.start, stop⟩ := by
  obtain ⟨site, hsite, rfl, hkind, rfl, hname⟩ :=
    h.exists_site (Kind.ne_newline_of_isDefinition hdef)
  exact ⟨_, Site.blockSpan_eq hsite hkind hdef hname⟩

/-- A class that has a definition of the function in its block gets its first one, as a whole. -/
theorem IsMethod.isOwn (h : (read dialect source).IsMethod name scope outer place keyword index)
    {block : Span} (hblock : (read dialect source).blockSpan place = .ok block)
    {other : Token} {later : Nat} (hown : (read dialect source).IsOwn name outer block other later) :
    index ≤ later ∧ (read dialect source).IsOwn name outer block keyword index ∧
      ∃ inner, (read dialect source).blockSpan index = .ok inner ∧ inner.IsWithin block := by
  have hle : index ≤ later := by
    apply Nat.le_of_not_lt
    intro hlt
    exact absurd (h.first other later hlt hown.defines) (Nat.not_le.mpr hown.below)
  have hplace : place < index := by
    apply Nat.lt_of_not_le
    intro hbefore
    exact absurd (h.defines.line_le h.declares.defines hbefore) (Nat.not_le.mpr h.below)
  have hstart : keyword.start < block.stop :=
    (Token.start_le_of_le hle h.defines.keyword_eq hown.defines.keyword_eq).trans_lt hown.start_lt
  obtain ⟨stop, hinner⟩ := h.defines.exists_blockSpan rfl
  obtain ⟨outerStop, outerKeyword, outerLast, hupper, rfl⟩ := exists_isBlock hblock
  obtain ⟨innerStop, innerKeyword, innerLast, hlower, hspan⟩ := exists_isBlock hinner
  have hfirst : outerKeyword.start ≤ keyword.start :=
    Token.start_le_of_le hplace.le hupper.first_eq h.defines.keyword_eq
  refine ⟨hle, ⟨h.defines, h.below, hfirst, hstart⟩, _, hinner, ?_⟩
  rw [hspan]
  rcases hupper.nested_or_apart hlower hplace with hnested | hapart
  · constructor
    · exact Token.start_le_of_le hplace.le hupper.first_eq hlower.first_eq
    · exact Token.start_le_of_le hnested hlower.last_eq hupper.last_eq
  · have hlast := Token.start_le_of_le hapart hupper.last_eq h.defines.keyword_eq
    exact absurd hstart (Nat.not_lt.mpr hlast)

end Listing

/-- A function within a class is shown below the line of the class: the first definition of it below
the first declaration of the class. If the block of the class has a definition of the function, the
first one there is shown, and its block lies within that of the class. -/
theorem extract_method (dialect : Dialect) (hwidth : 1 ≤ dialect.indentWidth) (source : Text)
    (decorated : Bool) (name : Text) {scope : Text} (hscope : scope ≠ []) :
    ∃ listing, Listing.ofSource dialect source = .ok listing ∧
      (∀ text, (extract dialect source decorated (.ofFunction name (some scope))).result = .ok text ↔
        ∃ outer place keyword index header body,
          listing.IsMethod name scope outer place keyword index ∧
          listing.IsHeader outer header ∧ listing.definitionText decorated index = .ok body ∧
          text = header.text ++ Snippet.separator ++ body) ∧
      ∀ outer place keyword index, listing.IsMethod name scope outer place keyword index →
        ∃ block, listing.blockSpan place = .ok block ∧
          ∀ other later, listing.IsOwn name outer block other later →
            index ≤ later ∧ listing.IsOwn name outer block keyword index ∧
            ∃ inner, listing.blockSpan index = .ok inner ∧ inner.IsWithin block := by
  refine ⟨_, Listing.ofSource_eq_ok hwidth source, ?_, ?_⟩
  · intro text
    rw [result_extract hwidth]
    exact Listing.text_functionSnippet_eq_ok_iff hscope
  · intro outer place keyword index h
    obtain ⟨stop, hblock⟩ := h.declares.defines.exists_blockSpan rfl
    refine ⟨_, hblock, ?_⟩
    intro other later hown
    exact h.isOwn hblock hown

theorem extract_method_nested :
    let source := "def f: 0\nclass A:\n\tclass B:\n\t\tdef f: 1\n\tdef f: 2\n".toList
    let listing := Listing.read {} source
    (extract {} source true (.ofFunction "f".toList (some "A".toList))).result =
        .ok "class A:\n#----\ndef f: 1\n\t".toList ∧
      listing.blockSpan 5 = .ok ⟨9, 49⟩ ∧
      ∃ inner, listing.blockSpan 13 = .ok inner ∧ inner.IsWithin ⟨9, 49⟩ := by
  intro source listing
  have hresult : (extract {} source true (.ofFunction "f".toList (some "A".toList))).result =
      .ok "class A:\n#----\ndef f: 1\n\t".toList := by decide +kernel
  have hclass : listing.definitions .classKeyword "A".toList = [5] := by decide +kernel
  have hmethod : listing.method? "f".toList "A".toList = some (13, 2) := by decide +kernel
  have hstart : listing.tokens[13]?.map Token.start = some 30 := by decide +kernel
  have hblock : listing.blockSpan 5 = .ok ⟨9, 49⟩ := by decide +kernel
  obtain ⟨_, hlisting, hfound, hown⟩ :=
    extract_method {} (by decide) source true "f".toList (by decide : "A".toList ≠ [])
  obtain rfl := Except.ok.inj hlisting
  obtain ⟨outer, place, keyword, index, header, body, h, -⟩ := (hfound _).mp hresult
  have hplace : place ∈ listing.definitions .classKeyword "A".toList :=
    Listing.mem_definitions_iff.mpr ⟨outer, h.declares.defines⟩
  have hindex : listing.method? "f".toList "A".toList = some (index, outer.line) :=
    Listing.method?_eq_some_iff.mpr ⟨outer, place, keyword, h, rfl⟩
  rw [hclass, List.mem_singleton] at hplace
  rw [hmethod, Option.some.injEq, Prod.mk.injEq] at hindex
  obtain ⟨rfl, -⟩ := hindex
  subst hplace
  have hkeyword : keyword.start = 30 := by
    have htoken : listing.tokens[13]? = some keyword := h.defines.keyword_eq
    rwa [htoken, Option.map_some, Option.some.injEq] at hstart
  obtain ⟨block, hspan, hall⟩ := hown outer 5 keyword 13 h
  obtain rfl := Except.ok.inj (hblock.symm.trans hspan)
  have hinside : listing.IsOwn "f".toList outer ⟨9, 49⟩ keyword 13 :=
    ⟨h.defines, h.below, by rw [hkeyword]; decide, by rw [hkeyword]; decide⟩
  exact ⟨hresult, hblock, (hall keyword 13 hinside).2.2⟩

end Excerpt
