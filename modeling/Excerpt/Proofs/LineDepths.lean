import Excerpt.Proofs.GapLines
/-!
# Depths of lines

A line with content says itself how deep its tokens are: by the run of spaces, or of tabs, that it
begins with. Gaps of another kind behind that run count for nothing, and neither do the lines above
and below. The first token of the line stands where its gaps end.
-/
namespace Excerpt

/-- Whether the tokens on the line that follows a text begin behind the gaps of that line and are as
deep as it says. Only the last token of the listing, which stands for the end, need not be. -/
structure Listing.IsIndented (width : Nat) (above line : Text) (listing : Listing) : Prop where
  first : ∃ token, listing.tokens.find? (·.line = 1 + above.count '\n') = some token ∧
    token.start = Text.byteLength (above ++ line.takeWhile Shape.isGap)
  depth : ∀ token ∈ listing.tokens.dropLast, token.line = 1 + above.count '\n' →
    token.depth = Indent.contentDepth width line
  last : listing.tokens.getLast?.map Token.kind = some .endOfInput

/-! ### A line and what follows it -/

namespace Text

/-- What may follow a line without its newline: nothing, or this newline and the next lines. -/
inductive FollowsLine : Text → Prop where
  | nil : FollowsLine []
  | newline (rest : Text) : FollowsLine ('\n' :: rest)

/-- A text that is cut around one of its lines has this line, with the newline that ends it, between
the lines above and those below. -/
theorem splitLines_around {above line behind : Text} (habove : EndsLine above)
    (hline : '\n' ∉ line) (hne : line ≠ []) (hbehind : behind = [] ∨ behind.head? = some '\n') :
    ∃ ending below, FollowsLine ending ∧
      splitLines (above ++ line ++ behind) = splitLines above ++ (line ++ ending) :: below := by
  rw [List.append_assoc, splitLines_append habove]
  cases behind with
  | nil =>
    refine ⟨[], [], .nil, ?_⟩
    rw [List.append_nil, splitLines_body hline hne]
  | cons c rest =>
    obtain rfl : c = '\n' := by simpa using hbehind
    exact ⟨['\n'], splitLines rest, .newline [], by rw [splitLines_body_append hline]⟩

section Predicate

variable {ending : Text} (h : FollowsLine ending) {p : Char → Bool} (hp : p '\n' = false)

include h hp

theorem takeWhile_append_ending (line : Text) :
    (line ++ ending).takeWhile p = line.takeWhile p := by
  have hnil : ending.takeWhile p = [] := by
    cases h with
    | nil => rfl
    | newline rest => exact List.takeWhile_cons_of_neg (by simp [hp])
  rw [List.takeWhile_append, hnil, List.append_nil]
  split
  · next hlength => exact ((List.takeWhile_prefix p).eq_of_length hlength).symm
  · rfl

theorem dropWhile_append_ending (line : Text) :
    (line ++ ending).dropWhile p = line.dropWhile p ++ ending := by
  have hall : (line ++ ending).takeWhile p ++ (line ++ ending).dropWhile p = line ++ ending :=
    List.takeWhile_append_dropWhile
  conv_rhs at hall => rw [← List.takeWhile_append_dropWhile (p := p) (l := line)]
  rw [takeWhile_append_ending h hp, List.append_assoc] at hall
  exact List.append_cancel_left hall

end Predicate

end Text

namespace Indent

variable {line ending : Text} (h : Text.FollowsLine ending)

include h

theorem hasContent_append_ending : hasContent (line ++ ending) = hasContent line := by
  rw [hasContent, hasContent, Text.takeWhile_append_ending h (by decide)]

theorem level_append_ending (width : Nat) : level width (line ++ ending) = level width line := by
  rw [level, level, Text.takeWhile_append_ending h (by decide),
    Text.takeWhile_append_ending h (by decide)]

theorem afterRun_append_ending : afterRun (line ++ ending) = afterRun line ++ ending := by
  have hhead : (line ++ ending).head? = some ' ' ↔ line.head? = some ' ' := by
    cases line with
    | nil => cases h <;> simp
    | cons c rest => rfl
  unfold afterRun
  simp only [hhead]
  split
  · exact Text.dropWhile_append_ending h (by decide) line
  · exact Text.dropWhile_append_ending h (by decide) line

/-- The depth of a line does not hang on whether a newline ends it. -/
theorem depth?_append_ending (width : Nat) :
    depth? width (line ++ ending) = depth? width line := by
  have hbare : isBare (line ++ ending) = isBare line := by
    rw [isBare, isBare, afterRun_append_ending h, Text.dropWhile_append_ending h (by decide)]
    cases (afterRun line).dropWhile Shape.isControl with
    | nil => cases h <;> rfl
    | cons c rest => rfl
  rw [depth?, depth?, hbare, level_append_ending h]

end Indent

/-! ### The first token of a line -/

theorem Token.start_head?_place (keywords : Keywords) (row : Row) (offset : Nat) {text : Text}
    (h : text.dropWhile Shape.isGap ≠ []) :
    (place keywords row offset (Lexeme.scan text)).head?.map start =
      some (row.line.start + (offset + Text.byteLength (text.takeWhile Shape.isGap))) := by
  fun_induction Lexeme.scan text generalizing offset with
  | case1 => simp at h
  | case2 c rest ih =>
    rw [place]
    cases hc : Shape.isGap c with
    | true =>
      rw [Lexeme.dropWhile_isGap hc] at h
      rw [(Lexeme.kind?_eq_none_iff keywords c _).mpr hc, Lexeme.takeWhile_isGap hc,
        Text.byteLength_append, ← Nat.add_assoc offset]
      exact ih _ h
    | false =>
      cases hkind : Lexeme.kind? keywords ⟨Shape.ofChar c, c :: (Lexeme.splitAfter c rest).1⟩ with
      | none => simp [(Lexeme.kind?_eq_none_iff keywords c _).mp hkind] at hc
      | some kind => simp [hc]

namespace Listing

theorem find?_line_tokensOf (dialect : Dialect) {source line : Text} {above below : List Text}
    (hlines : Text.splitLines source = above ++ line :: below)
    (hcontent : line.dropWhile Shape.isGap ≠ []) :
    ∃ token, (tokensOf dialect source).find? (·.line = 1 + above.length) = some token ∧
      token.start = Text.byteLength (above.flatten ++ line.takeWhile Shape.isGap) := by
  let row := Row.below dialect.indentWidth above line
  have hupper : (Token.ofLines dialect 1 0 1 above).find? (·.line = 1 + above.length) = none := by
    rw [List.find?_eq_none]
    intro token hmem
    have hbounds := Token.bounds_of_mem_ofLines hmem
    rw [decide_eq_true_eq]
    omega
  have hhead := Token.start_head?_place dialect.keywords row 0 hcontent
  obtain ⟨token, hfirst, hstart⟩ := Option.map_eq_some_iff.mp hhead
  obtain ⟨rest, hrow⟩ := List.head?_eq_some_iff.mp hfirst
  have hline : token.line = 1 + above.length :=
    (Token.exists_of_mem_place dialect.keywords row (List.mem_of_head? hfirst)).1
  refine ⟨token, ?_, ?_⟩
  · rw [Token.tokensOf_eq, hlines, List.append_cons above, Token.ofLines_append,
      Token.ofLines_concat, Token.ofRow, List.append_assoc, List.append_assoc, List.find?_append,
      hupper, Option.none_or]
    change ((Token.place dialect.keywords row 0 (Lexeme.scan line) ++ _).find? _) = _
    rw [hrow, List.cons_append, List.find?_cons_of_pos (by simpa using hline)]
  · rw [hstart, Text.byteLength_append, Nat.zero_add]
    rfl

/-- The tokens on a line with content are as deep as the line says, and the first of them stands
behind its gaps, whatever stands above and below the line. -/
theorem ofSource_isIndented (dialect : Dialect) (hwidth : 1 ≤ dialect.indentWidth)
    {above line behind : Text} (habove : Text.EndsLine above) (hline : '\n' ∉ line)
    (hbehind : behind = [] ∨ behind.head? = some '\n')
    (hcontent : ∃ c ∈ line, Shape.isGap c = false) :
    ∃ listing, ofSource dialect (above ++ line ++ behind) = .ok listing ∧
      listing.IsIndented dialect.indentWidth above line := by
  obtain ⟨c, hc, hgap⟩ := hcontent
  obtain ⟨ending, below, hending, hlines⟩ :=
    Text.splitLines_around habove hline (List.ne_nil_of_mem hc) hbehind
  have hlength := habove.length_splitLines
  refine ⟨read dialect (above ++ line ++ behind), ofSource_eq_ok hwidth _, ?_⟩
  constructor
  case first =>
    have hinside : (line ++ ending).dropWhile Shape.isGap ≠ [] := by
      intro hnil
      rw [List.dropWhile_eq_nil_iff.mp hnil c (List.mem_append_left _ hc)] at hgap
      cases hgap
    have hfirst := find?_line_tokensOf dialect hlines hinside
    rwa [hlength, Text.flatten_splitLines, Text.takeWhile_append_ending hending (by decide)]
      at hfirst
  case depth =>
    have hloud : Indent.hasContent line = true := by
      rw [Indent.hasContent_iff (fun hmem => hline ((List.dropLast_sublist _).subset hmem))]
      exact ⟨c, hc, fun heq => hline (heq ▸ hc), hgap⟩
    intro token hmem hnumber
    rw [read_tokens, Token.tokensOf_eq, List.dropLast_concat] at hmem
    rw [← hlength] at hnumber
    rw [Token.depth_of_line hlines hmem hnumber, List.foldl_concat,
      Indent.depthAfter_of_hasContent _ _ ((Indent.hasContent_append_ending hending).trans hloud),
      Indent.level_append_ending hending, ← Indent.contentDepth_eq]
  case last =>
    rw [read_tokens, Token.tokensOf_eq, List.getLast?_concat]
    rfl

theorem ofSource_isIndented_mixed :
    let above := "class A:\n\t\tx\n".toList
    let line := "  \t\x0cé = 'y\r".toList
    let behind := "\n\n z".toList
    Text.EndsLine above ∧ '\n' ∉ line ∧ behind.head? = some '\n' ∧
      (∃ c ∈ line, Shape.isGap c = false) ∧ Indent.contentDepth 2 line = 2 ∧
      ∃ listing, ofSource ⟨2, .python⟩ (above ++ line ++ behind) = .ok listing ∧
        listing.IsIndented 2 above line := by
  intro above line behind
  have habove : Text.EndsLine above := .inr (by decide)
  have hline : '\n' ∉ line := by decide
  have hbehind : behind.head? = some '\n' := by decide
  have hcontent : ∃ c ∈ line, Shape.isGap c = false := ⟨'é', by decide, by decide⟩
  exact ⟨habove, hline, hbehind, hcontent, by decide,
    ofSource_isIndented ⟨2, .python⟩ (by decide) habove hline (.inr hbehind) hcontent⟩

end Listing

end Excerpt
