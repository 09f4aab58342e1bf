import Excerpt.Proofs.Literals
import Excerpt.Proofs.Sites
/-!
# Blocks by indentation

Unless the keyword table gives a word the kind of a newline, the end of a block can be read off the
text alone: the block of a definition ends at the first line with content below it that is no deeper
than the line of the definition, right behind the gaps that this line begins with.
-/
namespace Excerpt

namespace Block

/-- The byte behind the gaps of the first line with content that is at most so deep, among
consecutive lines of which the first starts at `start`. -/
def dedent? (width depth : Nat) : Nat → List Text → Option Nat
  | _, [] => none
  | start, line :: below =>
    if Indent.hasContent line = true ∧ Indent.contentDepth width line ≤ depth then
      some (start + Text.byteLength (line.takeWhile Shape.isGap))
    else dedent? width depth (start + Text.byteLength line) below

/-- The byte at which a block ends that starts at a given byte of a text: where a line below is no
deeper than the line of that byte, or else at the end of the text. -/
def stopOf (width : Nat) (source : Text) (start : Nat) : Nat :=
  let lines := Text.splitLines source
  let own := (Text.takeBytes start source).count '\n'
  let depth := Indent.contentDepth width (lines.getD own [])
  (dedent? width depth (Text.byteLength (lines.take (own + 1)).flatten)
    (lines.drop (own + 1))).getD (Text.byteLength source)

end Block

/-! ### The gaps at the start of a line -/

theorem Keywords.classify_ne_newline {keywords : Keywords}
    (h : ∀ entry ∈ keywords.entries, entry.2 ≠ .newline) (word : Text) :
    keywords.classify word ≠ .newline := by
  intro hword
  have hne : keywords.classify word ≠ .identifier := by simp [hword]
  exact h _ (mem_of_classify_ne hne) hword

private theorem Lexeme.takeWhile_isSilent {keywords : Keywords}
    (hk : ∀ word, keywords.classify word ≠ .newline) {text : Text} {c : Char}
    (h : (text.dropWhile Shape.isGap).head? = some c) (hc : c ≠ '\n') :
    (scan text).all (isSilent keywords) = false ∧
      join ((scan text).takeWhile (isSilent keywords)) = text.takeWhile Shape.isGap := by
  fun_induction scan text with
  | case1 => simp at h
  | case2 d rest ih =>
    cases hd : Shape.isGap d with
    | true =>
      have hsilent : isSilent keywords ⟨Shape.ofChar d, d :: (splitAfter d rest).1⟩ = true := by
        rw [isSilent, (kind?_eq_none_iff keywords d _).2 hd]
        rfl
      rw [dropWhile_isGap hd] at h
      obtain ⟨hall, hjoin⟩ := ih h
      rw [List.all_cons, hsilent, hall, List.takeWhile_cons_of_pos hsilent, join_cons, hjoin,
        takeWhile_isGap hd]
      exact ⟨rfl, rfl⟩
    | false =>
      rw [List.dropWhile_cons_of_neg (by simp [hd]), List.head?_cons, Option.some.injEq] at h
      subst h
      have hloud : isSilent keywords ⟨Shape.ofChar d, d :: (splitAfter d rest).1⟩ = false := by
        cases hkind : kind? keywords ⟨Shape.ofChar d, d :: (splitAfter d rest).1⟩ with
        | none => simp [(kind?_eq_none_iff keywords d _).1 hkind] at hd
        | some kind =>
          have hn : kind ≠ .newline := by
            rintro rfl
            exact hc ((kind?_eq_newline_iff hk d _).1 hkind)
          simp [isSilent, hkind, hn]
      rw [List.all_cons, hloud, List.takeWhile_cons_of_neg (by simp [hloud]),
        List.takeWhile_cons_of_neg (by simp [hd])]
      exact ⟨rfl, rfl⟩

private theorem Indent.head?_of_hasContent {line : Text} (h : hasContent line = true) :
    ∃ c, (line.dropWhile Shape.isGap).head? = some c ∧ c ≠ '\n' := by
  induction line with
  | nil => simp [hasContent] at h
  | cons c rest ih =>
    by_cases hn : c = '\n'
    · simp [hasContent, hn] at h
    · cases hc : Shape.isGap c with
      | true =>
        rw [hasContent, List.takeWhile_cons_of_pos (by simpa using hn), List.any_cons, hc] at h
        rw [List.dropWhile_cons_of_pos hc]
        exact ih h
      | false =>
        rw [List.dropWhile_cons_of_neg (by simp [hc])]
        exact ⟨c, rfl, hn⟩

namespace Block

theorem lead?_eq {keywords : Keywords} (hk : ∀ word, keywords.classify word ≠ .newline)
    {line : Text} (hline : '\n' ∉ line.dropLast) :
    lead? keywords line =
      if Indent.hasContent line = true then some (line.takeWhile Shape.isGap) else none := by
  rw [lead?]
  cases hcontent : Indent.hasContent line with
  | true =>
    obtain ⟨c, hhead, hc⟩ := Indent.head?_of_hasContent hcontent
    obtain ⟨hall, hjoin⟩ := Lexeme.takeWhile_isSilent hk hhead hc
    rw [hall, hjoin]
    rfl
  | false =>
    have hall : (Lexeme.scan line).all (Lexeme.isSilent keywords) = true := by
      cases hsilent : (Lexeme.scan line).all (Lexeme.isSilent keywords) with
      | true => rfl
      | false =>
        rw [Indent.hasContent_of_not_silent hline hsilent] at hcontent
        cases hcontent
    rw [hall]
    rfl

/-- Taking the lines of a block comes to the same as looking for the line that ends it. -/
theorem dedent?_eq {dialect : Dialect} (hk : ∀ word, dialect.keywords.classify word ≠ .newline)
    (depth start : Nat) {lines : List Text} (hlines : Text.AreLines lines) :
    (dedent? dialect.indentWidth depth start lines).getD
        (start + Text.byteLength lines.flatten) =
      start + Text.byteLength (take dialect depth lines).flatten := by
  induction lines generalizing start with
  | nil => rfl
  | cons line below ih =>
    obtain ⟨-, hsingle, -, hbelow⟩ := Text.AreLines.cons_iff.1 hlines
    have hnext := ih (start + Text.byteLength line) hbelow
    rw [dedent?, take, lastPart?, lead?_eq hk hsingle, Indent.contentDepth_eq]
    by_cases hcontent : Indent.hasContent line = true
    · by_cases hle : 1 + Indent.level dialect.indentWidth line ≤ depth
      · simp only [hcontent, hle, and_self, if_true, flatten_lastLine, Option.getD_some]
      · simpa [hcontent, hle, Nat.add_assoc] using hnext
    · simpa [hcontent, Nat.add_assoc] using hnext

end Block

/-! ### The block of a definition -/

namespace Site

variable {dialect : Dialect} {site : Site} {source : Text} {kind : Kind}

private theorem below_eq_nil (h : site.IsIn source)
    (hkind : site.lexeme.kind? dialect.keywords = some kind) (hn : kind ≠ .newline)
    (hbehind : site.tokensBehind dialect = []) : site.below = [] := by
  apply Classical.byContradiction
  intro hbelow
  have hended := (Text.AreLines.cons_iff.1 (areLines_line_below h)).2.2.1 hbelow
  obtain ⟨last, hlast, hnewline⟩ :=
    Token.getLast?_ofRow dialect.keywords (site.row dialect) hended
  rw [ofRow_row h hkind, hbehind, List.getLast?_append, List.getLast?_singleton, Option.some_or,
    Option.some.injEq] at hlast
  rw [← hlast] at hnewline
  exact hn hnewline

theorem precedesIdentifier_of_next (h : site.IsIn source)
    (hkind : site.lexeme.kind? dialect.keywords = some kind) (hn : kind ≠ .newline) {name : Token}
    (hname : (Listing.tokensOf dialect source)[site.index dialect.keywords + 1]? = some name)
    (hident : name.kind = .identifier) : site.precedesIdentifier dialect.keywords = true := by
  obtain ⟨front, hlength, htokens⟩ := tokensOf_eq h hkind
  rw [htokens, ← hlength, List.getElem?_append_right (by omega), Nat.add_sub_cancel_left,
    List.getElem?_cons_succ, ← List.head?_eq_getElem?] at hname
  rw [← head?_tokensBehind]
  cases hbehind : site.tokensBehind dialect with
  | nil =>
    rw [hbehind, tokensBelow, below_eq_nil h hkind hn hbehind] at hname
    simp only [Token.ofLines_nil, List.nil_append, List.head?_cons, Option.some.injEq] at hname
    rw [← hname] at hident
    cases hident
  | cons first more =>
    rw [hbehind, List.cons_append, List.head?_cons, Option.some.injEq] at hname
    simp [hname, hident]

theorem count_newline_before (h : site.IsIn source)
    (hne : Lexeme.join (site.lexeme :: site.behind) ≠ []) :
    (site.above.flatten ++ Lexeme.join site.before).count '\n' = site.above.length := by
  obtain ⟨habove, hline, hended⟩ := Text.AreLines.append_iff.1 (areLines h)
  have hsingle := (Text.AreLines.cons_iff.1 hline).2.1
  rw [line, Lexeme.join_append] at hsingle
  have hbefore := Text.newline_not_mem_left hsingle hne
  rw [List.count_append, Text.count_newline_flatten habove (hended (by simp)),
    List.count_eq_zero.2 hbefore, Nat.add_zero]

theorem stopOf_eq (hk : ∀ word, dialect.keywords.classify word ≠ .newline) (h : site.IsIn source)
    (kind : Kind) :
    Block.stopOf dialect.indentWidth source (site.token dialect kind).start =
      (site.token dialect kind).start + Text.byteLength (site.blockText dialect) := by
  have hne : Lexeme.join (site.lexeme :: site.behind) ≠ [] :=
    Lexeme.join_ne_nil h.scan_eq (List.cons_ne_nil _ _)
  have hbefore : Text.takeBytes (site.token dialect kind).start source =
      site.above.flatten ++ Lexeme.join site.before := by
    have hsource := flatten_lines h
    rw [line_eq, List.append_assoc, ← List.append_assoc] at hsource
    rw [hsource, start_token, Text.takeBytes_byteLength]
  have hown : site.lines.getD site.above.length [] = site.line := by simp [lines]
  have htake : site.lines.take (site.above.length + 1) = site.above ++ [site.line] := by
    rw [lines, List.take_append, List.take_of_length_le (by omega), Nat.add_sub_cancel_left]
    rfl
  have hdrop : site.lines.drop (site.above.length + 1) = site.below := by
    simp [lines, List.drop_append]
  have hstart : Text.byteLength (site.above ++ [site.line]).flatten =
      Text.byteLength site.above.flatten + Text.byteLength site.line := by
    simp
  have hdedent := Block.dedent?_eq hk (1 + Indent.level dialect.indentWidth site.line)
    (Text.byteLength site.above.flatten + Text.byteLength site.line)
    (Text.AreLines.cons_iff.1 (areLines_line_below h)).2.2.2
  rw [Block.stopOf, hbefore, count_newline_before h hne, h.lines_eq, hown, htake, hdrop,
    Indent.contentDepth_eq, hstart, byteLength_eq h, hdedent, start_add_byteLength_blockText,
    blockBelow]

end Site

/-- The block of a definition reaches from its keyword to the first character that is no gap on the
first line with content below that is no deeper than the line of the keyword, or to the end of the
text if there is no such line. -/
theorem Listing.blockSpan_eq_stopOf (dialect : Dialect) (hwidth : 1 ≤ dialect.indentWidth)
    (htable : ∀ entry ∈ dialect.keywords.entries, entry.2 ≠ .newline) (source : Text) (index : Nat)
    {keyword name : Token} (hkeyword : (tokensOf dialect source)[index]? = some keyword)
    (hdef : keyword.kind.isDefinition = true)
    (hname : (tokensOf dialect source)[index + 1]? = some name)
    (hident : name.kind = .identifier) :
    (do (← ofSource dialect source).blockSpan index) =
      .ok ⟨keyword.start, Block.stopOf dialect.indentWidth source keyword.start⟩ := by
  have hlast := (List.getElem?_eq_some_iff.1 hname).1
  obtain ⟨site, hsite, rfl, htoken⟩ := Site.exists_of_lt_length dialect hlast
  obtain ⟨kind, hkind⟩ := Option.isSome_iff_exists.1 htoken
  have hown : keyword = site.token dialect kind := by
    obtain ⟨front, hlength, htokens⟩ := Site.tokensOf_eq hsite hkind
    rw [htokens, ← hlength] at hkeyword
    simpa [eq_comm] using hkeyword
  subst hown
  have hn : kind ≠ .newline := by
    rintro rfl
    cases hdef
  have hnext := Site.precedesIdentifier_of_next hsite hkind hn hname hident
  have hstop := Site.stopOf_eq (Keywords.classify_ne_newline htable) hsite kind
  rw [ofSource_eq_ok hwidth, hstop]
  exact Site.blockSpan_eq hsite hkind hdef hnext

theorem Listing.blockSpan_eq_stopOf_nested :
    let source := ("if x:\n    class A:\n\t\t# note\n  \t\n        y = 'z\n\r\n" ++
      "    \x0cdef f(): pass\n").toList
    (tokensOf {} source)[4]? = some ⟨.classKeyword, "class".toList, 2, 5, 2, 10, 15⟩ ∧
      (tokensOf {} source)[5]? = some ⟨.identifier, "A".toList, 2, 11, 2, 16, 17⟩ ∧
      (do (← ofSource {} source).blockSpan 4) = .ok ⟨10, 54⟩ := by
  intro source
  have hkeyword : (tokensOf {} source)[4]? =
      some ⟨.classKeyword, "class".toList, 2, 5, 2, 10, 15⟩ := by decide +kernel
  have hname : (tokensOf {} source)[5]? =
      some ⟨.identifier, "A".toList, 2, 11, 2, 16, 17⟩ := by decide +kernel
  have hstop : Block.stopOf 4 source 10 = 54 := by decide +kernel
  refine ⟨hkeyword, hname, ?_⟩
  rw [blockSpan_eq_stopOf {} (by decide) (by decide +kernel) source 4 hkeyword rfl hname rfl, hstop]

end Excerpt
