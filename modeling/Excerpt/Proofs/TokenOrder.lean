import Excerpt.Proofs.Dedent
/-!
# The order of tokens

The tokens of a text follow one another by their bytes and by their lines, and those of one line
have one depth, except that the token at the end of the text is always at the margin. A block is a
stretch of tokens: it reaches from a keyword to the first token that ends it, or to the last one.
-/
namespace Excerpt

/-- What holds of any two tokens of a text, the second of which comes later. -/
structure Token.Precedes (source : Text) (first second : Token) : Prop where
  start_lt : first.start < first.stop
  stop_le : first.stop ≤ second.start
  line_le : first.line ≤ second.line
  depth_eq : first.line = second.line → first.depth = second.depth ∨ second = endOf source

/-- A block as a stretch of tokens, up to the first one that ends it, or else to the last one. -/
structure Token.IsBlock (tokens : List Token) (index stop : Nat) (keyword last : Token) : Prop where
  lt : index < stop
  first_eq : tokens[index]? = some keyword
  isDefinition : keyword.kind.isDefinition = true
  last_eq : tokens[stop]? = some last
  ends : keyword.endsBlock last = true ∨ stop + 1 = tokens.length
  inside : ∀ n token, index < n → n < stop → tokens[n]? = some token →
    keyword.endsBlock token = false

/-! ### The bytes and lines of tokens -/

theorem Text.length_splitLines_le (text : Text) :
    (splitLines text).length ≤ 1 + text.count '\n' := by
  induction text with
  | nil => simp [splitLines]
  | cons c rest ih =>
    rw [splitLines]
    by_cases hc : c = '\n'
    · simp only [hc, if_true, List.length_cons, List.count_cons_self]
      omega
    · rw [if_neg hc, List.count_cons_of_ne hc]
      cases hs : splitLines rest with
      | nil => simp
      | cons line lines =>
        rw [hs] at ih
        simpa using ih

namespace Token

section Place

variable {keywords : Keywords} {row : Row}

private theorem bytes_of_mem_place {offset : Nat} {lexemes : List Lexeme}
    (hne : ∀ lexeme ∈ lexemes, lexeme.text ≠ []) {token : Token}
    (h : token ∈ place keywords row offset lexemes) :
    row.line.start + offset ≤ token.start ∧ token.start < token.stop ∧
      token.stop ≤ row.line.start + offset + Text.byteLength (Lexeme.join lexemes) := by
  induction lexemes generalizing offset with
  | nil => simp [place] at h
  | cons lexeme rest ih =>
    obtain ⟨hfirst, hrest⟩ := List.forall_mem_cons.1 hne
    have hpos := Text.byteLength_pos hfirst
    rw [place] at h
    rw [Lexeme.join_cons, Text.byteLength_append]
    cases hkind : lexeme.kind? keywords with
    | none =>
      rw [hkind] at h
      have hlater := ih hrest h
      omega
    | some kind =>
      rw [hkind] at h
      rcases List.mem_cons.1 h with rfl | h
      · dsimp only
        omega
      · have hlater := ih hrest h
        omega

private theorem pairwise_place (source : Text) {offset : Nat} {lexemes : List Lexeme}
    (hne : ∀ lexeme ∈ lexemes, lexeme.text ≠ []) :
    (place keywords row offset lexemes).Pairwise (Precedes source) := by
  induction lexemes generalizing offset with
  | nil => exact .nil
  | cons lexeme rest ih =>
    obtain ⟨hfirst, hrest⟩ := List.forall_mem_cons.1 hne
    have hpos := Text.byteLength_pos hfirst
    rw [place]
    cases hkind : lexeme.kind? keywords with
    | none => exact ih hrest
    | some kind =>
      refine List.pairwise_cons.2 ⟨?_, ih hrest⟩
      intro token hmem
      obtain ⟨hline, hdepth, -⟩ := exists_of_mem_place keywords row hmem
      have hbytes := bytes_of_mem_place hrest hmem
      refine ⟨?_, ?_, ?_, ?_⟩
      · dsimp only
        omega
      · dsimp only
        omega
      · exact hline.ge
      · intro _
        exact .inl hdepth.symm

end Place

section Lines

variable {dialect : Dialect}

theorem bounds_of_mem_ofLines {number start previous : Nat} {lines : List Text} {token : Token}
    (h : token ∈ ofLines dialect number start previous lines) :
    number ≤ token.line ∧ token.line < number + lines.length ∧ start ≤ token.start ∧
      token.start < token.stop ∧ token.stop ≤ start + Text.byteLength lines.flatten := by
  induction lines generalizing number start previous with
  | nil => simp at h
  | cons line below ih =>
    rw [ofLines_cons] at h
    rw [List.length_cons, List.flatten_cons, Text.byteLength_append]
    rcases List.mem_append.1 h with h | h
    · have hline := (exists_of_mem_place _ _ h).1
      have hbytes := bytes_of_mem_place (fun _ => Lexeme.text_ne_nil_of_mem_scan) h
      rw [Lexeme.join_scan] at hbytes
      dsimp only at hline hbytes
      omega
    · have hlater := ih h
      omega

private theorem pairwise_ofLines (source : Text) (number start previous : Nat)
    (lines : List Text) :
    (ofLines dialect number start previous lines).Pairwise (Precedes source) := by
  induction lines generalizing number start previous with
  | nil => exact .nil
  | cons line below ih =>
    rw [ofLines_cons]
    refine List.pairwise_append.2 ⟨pairwise_place source (fun _ => Lexeme.text_ne_nil_of_mem_scan), ih _ _ _, ?_⟩
    intro first hfirst second hsecond
    have hline := (exists_of_mem_place _ _ hfirst).1
    have hbytes := bytes_of_mem_place (fun _ => Lexeme.text_ne_nil_of_mem_scan) hfirst
    have hlater := bounds_of_mem_ofLines hsecond
    rw [Lexeme.join_scan] at hbytes
    dsimp only at hline hbytes
    refine ⟨by omega, by omega, by omega, ?_⟩
    intro hsame
    omega

theorem pairwise_tokensOf (dialect : Dialect) (source : Text) :
    (Listing.tokensOf dialect source).Pairwise (Precedes source) := by
  rw [tokensOf_eq]
  refine List.pairwise_append.2 ⟨pairwise_ofLines source _ _ _ _, List.pairwise_singleton _ _, ?_⟩
  intro first hfirst second hsecond
  obtain rfl := List.mem_singleton.1 hsecond
  have hbounds := bounds_of_mem_ofLines hfirst
  have hcount := Text.length_splitLines_le source
  rw [Text.flatten_splitLines] at hbounds
  refine ⟨hbounds.2.2.2.1, ?_, ?_, ?_⟩
  · change first.stop ≤ Text.byteLength source
    omega
  · change first.line ≤ 1 + source.count '\n'
    omega
  · intro _
    exact .inr rfl

theorem precedes_of_lt {source : Text} {i j : Nat} {first second : Token} (hij : i < j)
    (hfirst : (Listing.tokensOf dialect source)[i]? = some first)
    (hsecond : (Listing.tokensOf dialect source)[j]? = some second) :
    Precedes source first second := by
  obtain ⟨hi, rfl⟩ := List.getElem?_eq_some_iff.1 hfirst
  obtain ⟨hj, rfl⟩ := List.getElem?_eq_some_iff.1 hsecond
  exact List.pairwise_iff_getElem.1 (pairwise_tokensOf dialect source) i j hi hj hij

theorem getElem?_last (dialect : Dialect) (source : Text) :
    (Listing.tokensOf dialect source)[(Listing.tokensOf dialect source).length - 1]? =
      some (endOf source) := by
  simp [tokensOf_eq]

theorem start_le_of_le {source : Text} {i j : Nat} {first second : Token} (hij : i ≤ j)
    (hfirst : (Listing.tokensOf dialect source)[i]? = some first)
    (hsecond : (Listing.tokensOf dialect source)[j]? = some second) :
    first.start ≤ second.start := by
  rcases Nat.lt_or_eq_of_le hij with hlt | rfl
  · have horder := precedes_of_lt hlt hfirst hsecond
    exact (horder.start_lt.trans_le horder.stop_le).le
  · rw [hfirst, Option.some.injEq] at hsecond
    rw [hsecond]

theorem eq_last_of_endOf {source : Text} {i : Nat}
    (h : (Listing.tokensOf dialect source)[i]? = some (endOf source)) :
    i + 1 = (Listing.tokensOf dialect source).length := by
  have hi := (List.getElem?_eq_some_iff.1 h).1
  by_contra hne
  have horder := precedes_of_lt (by omega) h (getElem?_last dialect source)
  exact absurd horder.start_lt (Nat.lt_irrefl _)

end Lines

end Token

/-! ### Blocks as stretches of tokens -/

namespace Listing

theorem exists_of_blockSpan {listing : Listing} {index : Nat} {span : Span}
    (h : listing.blockSpan index = .ok span) :
    ∃ keyword name, listing.tokens[index]? = some keyword ∧ keyword.kind.isDefinition = true ∧
      listing.tokens[index + 1]? = some name ∧ name.kind = .identifier ∧
      span = ⟨keyword.start, ((listing.blockEnd? keyword (index + 2)).map Token.start).getD
        (Text.byteLength listing.source)⟩ := by
  unfold blockSpan tokenAt at h
  cases hkeyword : listing.tokens[index]? with
  | none => simp [hkeyword, bind, Except.bind] at h
  | some keyword =>
    simp only [hkeyword, bind, Except.bind] at h
    split at h
    · next hpair =>
      rw [Bool.and_eq_true, isIdentifierAt] at hpair
      obtain ⟨hdef, hident⟩ := hpair
      cases hname : listing.tokens[index + 1]? with
      | none => simp [hname] at hident
      | some name =>
        rw [hname, Option.any_some, beq_iff_eq] at hident
        exact ⟨keyword, name, rfl, hdef, rfl, hident, (Except.ok.inj h).symm⟩
    · cases h

theorem blockEnd?_eq_succ {listing : Listing} {anchor token : Token} {index : Nat}
    (h : listing.tokens[index]? = some token) (hline : token.line = anchor.line) :
    listing.blockEnd? anchor index = listing.blockEnd? anchor (index + 1) := by
  obtain ⟨hlength, hget⟩ := List.getElem?_eq_some_iff.1 h
  rw [blockEnd?, blockEnd?, List.drop_eq_getElem_cons hlength, hget,
    List.find?_cons_of_neg (by simp [Token.endsBlock, hline])]

variable {dialect : Dialect} {source : Text} {index : Nat}

theorem line_next {keyword name : Token}
    (hkeyword : (tokensOf dialect source)[index]? = some keyword) (hn : keyword.kind ≠ .newline)
    (hname : (tokensOf dialect source)[index + 1]? = some name)
    (hident : name.kind = .identifier) : name.line = keyword.line := by
  have hlast : index + 1 ≠ (tokensOf dialect source).length :=
    (List.getElem?_eq_some_iff.1 hname).1.ne
  obtain ⟨site, kind, hsite, rfl, hkind, rfl⟩ := Site.exists_of_getElem? hkeyword hlast
  obtain ⟨front, hlength, htokens⟩ := Site.tokensOf_eq hsite hkind
  have hhead := Site.head?_tokensBehind.trans
    (Site.precedesIdentifier_of_next hsite hkind hn hname hident)
  cases hbehind : site.tokensBehind dialect with
  | nil => simp [hbehind] at hhead
  | cons next rest =>
    have hmem : next ∈ site.tokensBehind dialect := by simp [hbehind]
    have hline : next.line = (site.row dialect).line.number := (Token.exists_of_mem_place _ _ hmem).1
    rw [htokens, ← hlength, hbehind, List.getElem?_append_right (by omega),
      Nat.add_sub_cancel_left] at hname
    have hnext : next = name := by simpa using hname
    rw [← hnext, hline]
    rfl

/-- The block of a definition is a stretch of tokens, and it covers the bytes from the start of the
first of them to the start of the one behind them. -/
theorem exists_isBlock {span : Span} (h : (read dialect source).blockSpan index = .ok span) :
    ∃ stop keyword last, Token.IsBlock (tokensOf dialect source) index stop keyword last ∧
      span = ⟨keyword.start, last.start⟩ := by
  obtain ⟨keyword, name, hkeyword, hdef, hname, hident, rfl⟩ := exists_of_blockSpan h
  have hn := Kind.ne_newline_of_isDefinition hdef
  -- The name stands on the line of the keyword, so the search may as well start with it.
  rw [← blockEnd?_eq_succ hname (line_next hkeyword hn hname hident)]
  simp only [read_tokens, read_source, blockEnd?] at hkeyword hname ⊢
  cases hfind : ((tokensOf dialect source).drop (index + 1)).find? keyword.endsBlock with
  | some last =>
    obtain ⟨hends, more, hmore, hlast, hbefore⟩ := List.find?_eq_some_iff_getElem.1 hfind
    have hlast' : (tokensOf dialect source)[index + 1 + more]? = some last := by
      rw [← List.getElem?_drop, List.getElem?_eq_getElem hmore, hlast]
    refine ⟨index + 1 + more, keyword, last, ⟨by omega, hkeyword, hdef, hlast', .inl hends, ?_⟩, rfl⟩
    intro n token hlo hhi htoken
    have hfirst := hbefore (n - (index + 1)) (by omega)
    rw [List.getElem_drop, Bool.not_eq_true'] at hfirst
    obtain ⟨_, rfl⟩ := List.getElem?_eq_some_iff.1 htoken
    simpa only [Nat.add_sub_cancel' (by omega : index + 1 ≤ n)] using hfirst
  | none =>
    have hlength := (List.getElem?_eq_some_iff.1 hname).1
    refine ⟨(tokensOf dialect source).length - 1, keyword, Token.endOf source,
      ⟨by omega, hkeyword, hdef, Token.getElem?_last dialect source, .inr (by omega), ?_⟩, rfl⟩
    intro n token hlo hhi htoken
    have hmem : token ∈ (tokensOf dialect source).drop (index + 1) := by
      apply List.mem_of_getElem? (i := n - (index + 1))
      rw [List.getElem?_drop, Nat.add_sub_cancel' (by omega), htoken]
    simpa using List.find?_eq_none.1 hfind token hmem

end Listing

end Excerpt
