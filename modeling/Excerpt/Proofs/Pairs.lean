import Excerpt.Proofs.Excerpts
import Excerpt.Proofs.TokenOrder
/-!
# Definitions as pairs of tokens

A name is defined where a keyword is directly followed by an identifier of that name. The pairs come
in the order of their lines. Each lies at a site of the text, so the definition it opens can be cut
out, and its line is there to be shown.
-/
namespace Excerpt

namespace Listing

/-- Whether a name is defined at an index: a keyword of the kind stands there, and directly behind
it the name. -/
structure Defines (listing : Listing) (kind : Kind) (name : Text) (keyword : Token) (index : Nat) :
    Prop where
  keyword_eq : listing.tokens[index]? = some keyword
  kind_eq : keyword.kind = kind
  exists_next : ∃ next, listing.tokens[index + 1]? = some next ∧ next.kind = .identifier ∧
    next.literal = name

theorem mem_definitionKeywords_iff {listing : Listing} {kind : Kind} {name : Text}
    {keyword : Token} {index : Nat} :
    (keyword, index) ∈ listing.definitionKeywords kind name ↔
      listing.Defines kind name keyword index := by
  simp only [definitionKeywords, List.mem_map, List.mem_filter, List.mem_zipIdx_iff_getElem?,
    List.getElem?_zip_eq_some, List.getElem?_tail, Token.is, Bool.and_eq_true, beq_iff_eq,
    Prod.mk.injEq]
  constructor
  · rintro ⟨⟨⟨first, next⟩, place⟩, ⟨⟨hfirst, hnext⟩, hkind, hident, hname⟩, rfl, rfl⟩
    exact ⟨hfirst, hkind, next, hnext, hident, hname⟩
  · intro h
    obtain ⟨next, hnext, hident, hname⟩ := h.exists_next
    exact ⟨⟨⟨keyword, next⟩, index⟩, ⟨⟨h.keyword_eq, hnext⟩, h.kind_eq, hident, hname⟩, rfl, rfl⟩

theorem mem_definitions_iff {listing : Listing} {kind : Kind} {name : Text} {index : Nat} :
    index ∈ listing.definitions kind name ↔
      ∃ keyword, listing.Defines kind name keyword index := by
  simp only [definitions, List.mem_map, Prod.exists, mem_definitionKeywords_iff,
    exists_eq_right]

theorem definitions_eq_nil_iff {listing : Listing} {kind : Kind} {name : Text} :
    listing.definitions kind name = [] ↔
      ∀ keyword index, ¬ listing.Defines kind name keyword index := by
  simp only [List.eq_nil_iff_forall_not_mem, mem_definitions_iff, not_exists]
  exact forall_comm

theorem mem_definitionLines_iff {listing : Listing} {kind : Kind} {name : Text} {line : Nat} :
    line ∈ listing.definitionLines kind name ↔
      ∃ keyword index, listing.Defines kind name keyword index ∧ keyword.line = line := by
  simp only [definitionLines, List.mem_map, Prod.exists, mem_definitionKeywords_iff]

theorem Defines.keyword_unique {listing : Listing} {kind kind' : Kind} {name name' : Text}
    {keyword keyword' : Token} {index : Nat} (h : listing.Defines kind name keyword index)
    (h' : listing.Defines kind' name' keyword' index) : keyword = keyword' := by
  have heq := h.keyword_eq
  rw [h'.keyword_eq, Option.some.injEq] at heq
  exact heq.symm

/-- A function is found within a class exactly if one of its definitions stands on a line below some
declaration of the class. -/
theorem method?_eq_none_iff {listing : Listing} {name scope : Text} :
    listing.method? name scope = none ↔
      ∀ keyword index, listing.Defines .functionKeyword name keyword index →
        ∀ other place, listing.Defines .classKeyword scope other place →
          keyword.line ≤ other.line := by
  simp only [method?, List.findSome?_eq_none_iff, Option.map_eq_none_iff, List.find?_eq_none,
    Prod.forall, mem_definitionKeywords_iff, mem_definitionLines_iff, decide_eq_true_eq, not_lt]
  constructor
  · intro h keyword index hdefines other place hother
    exact h keyword index hdefines other.line ⟨other, place, hother, rfl⟩
  · rintro h keyword index hdefines line ⟨other, place, hother, rfl⟩
    exact h keyword index hdefines other place hother

theorem of_method?_eq_some {listing : Listing} {name scope : Text} {index line : Nat}
    (h : listing.method? name scope = some (index, line)) :
    (∃ keyword, listing.Defines .functionKeyword name keyword index) ∧
      ∃ keyword place, listing.Defines .classKeyword scope keyword place ∧ keyword.line = line := by
  obtain ⟨⟨keyword, place⟩, hmem, hfound⟩ := List.exists_of_findSome?_eq_some h
  obtain ⟨found, hline, hpair⟩ := Option.map_eq_some_iff.1 hfound
  rw [Prod.mk.injEq] at hpair
  obtain ⟨rfl, rfl⟩ := hpair
  exact ⟨⟨keyword, mem_definitionKeywords_iff.1 hmem⟩,
    mem_definitionLines_iff.1 (List.mem_of_find?_eq_some hline)⟩

section Read

variable {dialect : Dialect} {source : Text} {kind : Kind} {name : Text} {keyword : Token}
  {index : Nat}

theorem Defines.exists_site (h : (read dialect source).Defines kind name keyword index)
    (hn : kind ≠ .newline) :
    ∃ site : Site, site.IsIn source ∧ site.index dialect.keywords = index ∧
      site.lexeme.kind? dialect.keywords = some kind ∧ site.token dialect kind = keyword ∧
      site.precedesIdentifier dialect.keywords = true := by
  obtain ⟨next, hnext, hident, -⟩ := h.exists_next
  have hlast : index + 1 ≠ (tokensOf dialect source).length :=
    (List.getElem?_eq_some_iff.1 hnext).1.ne
  obtain ⟨site, found, hsite, rfl, hkind, hown⟩ := Site.exists_of_getElem? h.keyword_eq hlast
  have hfound : found = kind := by
    rw [← h.kind_eq, ← hown]
    rfl
  subst hfound
  exact ⟨site, hsite, rfl, hkind, hown, Site.precedesIdentifier_of_next hsite hkind hn hnext hident⟩

theorem Defines.exists_definitionText (h : (read dialect source).Defines kind name keyword index)
    (hdef : kind.isDefinition = true) (decorated : Bool) :
    ∃ text, (read dialect source).definitionText decorated index = .ok text := by
  obtain ⟨site, hsite, rfl, hkind, -, hname⟩ :=
    h.exists_site (Kind.ne_newline_of_isDefinition hdef)
  exact ⟨_, Site.definitionText_eq hsite hkind hdef hname decorated⟩

theorem Defines.exists_lineAt (h : (read dialect source).Defines kind name keyword index)
    (hn : kind ≠ .newline) :
    ∃ line, (read dialect source).lineAt (keyword.line - 1) = .ok line := by
  obtain ⟨site, hsite, -, -, rfl, -⟩ := h.exists_site hn
  have hline : (site.token dialect kind).line - 1 = site.above.length := Nat.add_sub_cancel_left ..
  rw [hline]
  exact ⟨_, Site.lineAt_eq hsite rfl⟩

theorem Defines.line_le {kind' : Kind} {name' : Text} {keyword' : Token} {index' : Nat}
    (h : (read dialect source).Defines kind name keyword index)
    (h' : (read dialect source).Defines kind' name' keyword' index') (hle : index ≤ index') :
    keyword.line ≤ keyword'.line := by
  rcases Nat.lt_or_eq_of_le hle with hlt | rfl
  · exact (Token.precedes_of_lt hlt h.keyword_eq h'.keyword_eq).line_le
  · rw [h.keyword_unique h']

end Read

end Listing

end Excerpt
