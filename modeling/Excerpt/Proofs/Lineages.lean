import Excerpt.Proofs.Replay
import Mathlib.Data.List.Chain
/-!
# Lineages

The ancestor of a token is one level shallower than the token, so a lineage is no longer than the
depth at which it starts. A text that is indented step by step has no gaps between its levels: the
lineage of every token then reaches the root, and between a token and its ancestor stands nothing
that is as shallow as the ancestor.
-/
namespace Excerpt

namespace Indent

def contentDepths (width : Nat) (lines : List Text) : List Nat :=
  (lines.filter hasContent).map (contentDepth width)

/-- Whether a text is indented step by step: its first line with content is at the margin, and each
later one at most one level deeper than the one before it. -/
structure IsRegular (width : Nat) (source : Text) : Prop where
  first : ∀ depth ∈ (contentDepths width (Text.splitLines source)).head?, depth = 1
  later : (contentDepths width (Text.splitLines source)).IsChain
    fun upper lower => lower ≤ upper + 1

end Indent

namespace Listing

/-- Whether the search for the ancestors of a token goes up one level at a time, until it reaches the
root or finds no ancestor. -/
structure Ascends (listing : Listing) (index : Nat) (token : Token) : Prop where
  parent : ∀ place parent, listing.ancestor index = .ok (.found place parent) →
    place < index ∧ listing.tokens[place]? = some parent ∧ parent.kind ≠ .newline ∧
      parent.depth + 1 = token.depth
  length_lt : (listing.ancestors index).indices.length < token.depth
  ending : (listing.ancestors index).ending = .ok () ∨
    ∃ kind name, (listing.ancestors index).ending = .error (.notFound kind name)

/-- Whether all that stands between two tokens, newlines apart, is deeper than a given depth. -/
def IsDeeper (listing : Listing) (depth first last : Nat) : Prop :=
  ∀ n other, first < n → n < last → listing.tokens[n]? = some other →
    other.kind ≠ .newline → depth < other.depth

/-- Whether a token is enclosed by an ancestor at each level above it, and whatever stands between it
and its ancestor is deeper than the ancestor. -/
structure IsEnclosed (listing : Listing) (index : Nat) (token : Token) : Prop where
  length_eq : (listing.ancestors index).indices.length + 1 = token.depth
  root : (listing.ancestors index).ending = .ok ()
  between : ∀ place parent, listing.ancestor index = .ok (.found place parent) →
    listing.IsDeeper parent.depth place index

/-! ### The search for an ancestor -/

variable {listing : Listing} {index depth place : Nat} {token parent : Token}

theorem parent?_succ (h : listing.tokens[index]? = some token) (depth : Nat) :
    listing.parent? (index + 1) depth =
      if isParent depth token = true then some (token, index)
      else listing.parent? index depth := by
  have hlength := (List.getElem?_eq_some_iff.mp h).1
  have hcount : (listing.tokens.take index).length = index := by simp [hlength.le]
  have hfront : (listing.tokens.take (index + 1)).zipIdx.reverse =
      (token, index) :: (listing.tokens.take index).zipIdx.reverse := by
    rw [List.take_add_one, h, Option.toList_some, List.zipIdx_append, hcount, List.reverse_append]
    simp
  rw [parent?, hfront, List.find?_cons]
  cases isParent depth token with
  | true => rfl
  | false => rfl

theorem of_parent?_eq_some (h : listing.parent? index depth = some (parent, place)) :
    listing.tokens[place]? = some parent ∧ parent.kind ≠ .newline ∧ parent.depth = depth - 1 := by
  have hmem := List.mem_reverse.mp (List.mem_of_find?_eq_some h)
  have hparent := List.find?_some h
  simp only [List.mem_zipIdx_iff_getElem?, List.getElem?_take] at hmem
  simp only [isParent, Bool.and_eq_true, bne_iff_ne, beq_iff_eq] at hparent
  split at hmem
  · exact ⟨hmem, hparent⟩
  · cases hmem

theorem ancestor_cases (h : listing.tokens[index]? = some token) :
    (token.depth ≤ 1 ∧ listing.ancestor index = .ok .root) ∨
      (1 < token.depth ∧ ∃ place parent, listing.parent? index token.depth = some (parent, place) ∧
        listing.ancestor index = .ok (.found place parent)) ∨
      (1 < token.depth ∧ listing.parent? index token.depth = none ∧
        ∃ kind name, listing.ancestor index = .error (.notFound kind name)) := by
  have htoken : listing.tokenAt index = .ok token := by simp [tokenAt, h]
  by_cases hdepth : token.depth ≤ 1
  · left
    simp [ancestor, htoken, hdepth, bind, Except.bind, pure, Except.pure]
  · right
    cases hparent : listing.parent? index token.depth with
    | none =>
      right
      refine ⟨Nat.lt_of_not_le hdepth, rfl, token.kind,
        "ancestor of ".toList ++ Text.ticked token.literal, ?_⟩
      simp only [ancestor, htoken, hdepth, hparent, bind, Except.bind, if_false]
      rfl
    | some found =>
      left
      refine ⟨Nat.lt_of_not_le hdepth, found.2, found.1, rfl, ?_⟩
      simp [ancestor, htoken, hdepth, hparent, bind, Except.bind, pure, Except.pure]

theorem of_ancestor_eq_found (htoken : listing.tokens[index]? = some token)
    (h : listing.ancestor index = .ok (.found place parent)) :
    listing.parent? index token.depth = some (parent, place) ∧
      listing.tokens[place]? = some parent ∧ parent.kind ≠ .newline ∧
        parent.depth + 1 = token.depth := by
  rcases ancestor_cases htoken with ⟨-, hroot⟩ | ⟨hdepth, _, _, hparent, hfound⟩ | ⟨-, -, _, _, herror⟩
  · simp [hroot] at h
  · simp only [hfound, Except.ok.injEq, Ancestor.found.injEq] at h
    rw [h.1, h.2] at hparent
    have hspec := of_parent?_eq_some hparent
    exact ⟨hparent, hspec.1, hspec.2.1, by omega⟩
  · simp [herror] at h

/-! ### Lineages of any listing -/

theorem ancestors_of_root (h : listing.ancestor index = .ok .root) :
    listing.ancestors index = ⟨[], .ok ()⟩ := by
  rw [ancestors]
  split <;> simp_all

theorem ancestors_of_found (h : listing.ancestor index = .ok (.found place parent)) :
    listing.ancestors index =
      ⟨place :: (listing.ancestors place).indices, (listing.ancestors place).ending⟩ := by
  rw [ancestors]
  split <;> simp_all

theorem ancestors_of_error {e : Error} (h : listing.ancestor index = .error e) :
    listing.ancestors index = ⟨[], .error e⟩ := by
  rw [ancestors]
  split <;> simp_all

theorem length_ancestors_lt (hmargin : ∀ other ∈ listing.tokens, 1 ≤ other.depth)
    (h : listing.tokens[index]? = some token) :
    (listing.ancestors index).indices.length < token.depth ∧
      ((listing.ancestors index).ending = .ok () ∨
        ∃ kind name, (listing.ancestors index).ending = .error (.notFound kind name)) := by
  induction index using Nat.strong_induction_on generalizing token with
  | _ index ih =>
    have hpos := hmargin token (List.mem_of_getElem? h)
    rcases ancestor_cases h with ⟨-, hroot⟩ | ⟨-, place, parent, -, hfound⟩ | ⟨-, -, kind, name, herror⟩
    · rw [ancestors_of_root hroot]
      exact ⟨hpos, .inl rfl⟩
    · obtain ⟨-, hparent, -, hdepth⟩ := of_ancestor_eq_found h hfound
      have hfurther := ih place (ancestor_lt hfound) hparent
      rw [ancestors_of_found hfound, List.length_cons]
      exact ⟨by omega, hfurther.2⟩
    · rw [ancestors_of_error herror]
      exact ⟨hpos, .inr ⟨kind, name, rfl⟩⟩

end Listing

/-! ### Levels without gaps -/

def Token.levels (tokens : List Token) : List Nat :=
  (tokens.filter (·.kind != .newline)).map depth

/-- Whether depths grow by one level at most, beginning at the margin. -/
def IsSteady (depths : List Nat) : Prop :=
  (0 :: depths).IsChain fun upper lower => lower ≤ upper + 1

theorem IsSteady.le_of_append {upper lower : List Nat} {depth : Nat}
    (h : IsSteady (upper ++ depth :: lower)) : depth ≤ upper.getLastD 0 + 1 := by
  rw [IsSteady, ← List.cons_append, List.isChain_append] at h
  exact h.2.2 (upper.getLastD 0) (by simp [List.getLast?_cons, List.getLastD_eq_getLast?]) depth rfl

namespace Token

theorem levels_append (first second : List Token) :
    levels (first ++ second) = levels first ++ levels second := by
  simp [levels]

theorem levels_singleton_newline {token : Token} (h : token.kind = .newline) :
    levels [token] = [] := by
  simp [levels, h]

theorem levels_singleton {token : Token} (h : token.kind ≠ .newline) :
    levels [token] = [token.depth] := by
  simp [levels, h]

end Token

namespace Listing

variable {listing : Listing} {index : Nat} {token : Token}

theorem depth_le_of_isSteady (hsteady : IsSteady (Token.levels listing.tokens))
    (h : listing.tokens[index]? = some token) (hkind : token.kind ≠ .newline) :
    token.depth ≤ (Token.levels (listing.tokens.take index)).getLastD 0 + 1 := by
  have hsplit : listing.tokens =
      listing.tokens.take index ++ ([token] ++ listing.tokens.drop (index + 1)) := by
    have htake := List.take_append_drop (index + 1) listing.tokens
    rw [List.take_add_one, h, Option.toList_some, List.append_assoc] at htake
    exact htake.symm
  rw [hsplit, Token.levels_append, Token.levels_append, Token.levels_singleton hkind] at hsteady
  exact IsSteady.le_of_append hsteady

theorem IsDeeper.succ {depth place : Nat} (h : listing.IsDeeper depth place index)
    (htoken : listing.tokens[index]? = some token)
    (hown : token.kind ≠ .newline → depth < token.depth) :
    listing.IsDeeper depth place (index + 1) := by
  intro n other hlo hhi hother hloud
  rcases Nat.lt_succ_iff_lt_or_eq.mp hhi with hn | rfl
  · exact h n other hlo hn hother hloud
  · rw [htoken, Option.some.injEq] at hother
    subst hother
    exact hown hloud

/-- Every level down to that of the last token is open: the last token at such a level is followed by
deeper ones only. -/
theorem exists_parent?_of_isSteady (hsteady : IsSteady (Token.levels listing.tokens))
    (hindex : index ≤ listing.tokens.length) {depth : Nat} (hdepth : 1 ≤ depth)
    (hle : depth ≤ (Token.levels (listing.tokens.take index)).getLastD 0) :
    ∃ place parent, listing.parent? index (depth + 1) = some (parent, place) ∧
      listing.IsDeeper depth place index := by
  -- The tokens are added one by one; a new one closes the levels below its own.
  induction index with
  | zero =>
    simp [Token.levels] at hle
    omega
  | succ index ih =>
    have hlt : index < listing.tokens.length := hindex
    have htoken := List.getElem?_eq_getElem hlt
    generalize listing.tokens[index] = token at htoken
    have htake : listing.tokens.take (index + 1) = listing.tokens.take index ++ [token] := by
      rw [List.take_add_one, htoken, Option.toList_some]
    rw [htake, Token.levels_append] at hle
    rw [parent?_succ htoken]
    by_cases hkind : token.kind = .newline
    · rw [Token.levels_singleton_newline hkind, List.append_nil] at hle
      obtain ⟨place, parent, hparent, hbetween⟩ := ih hlt.le hle
      refine ⟨place, parent, by simpa [isParent, hkind] using hparent, hbetween.succ htoken ?_⟩
      exact fun hloud => absurd hkind hloud
    · rw [Token.levels_singleton hkind, List.getLastD_concat] at hle
      have hstep := depth_le_of_isSteady hsteady htoken hkind
      rcases Nat.lt_or_eq_of_le hle with hdeeper | hsame
      · obtain ⟨place, parent, hparent, hbetween⟩ := ih hlt.le (by omega)
        refine ⟨place, parent, by simpa [isParent, hdeeper.ne'] using hparent, ?_⟩
        exact hbetween.succ htoken fun _ => hdeeper
      · refine ⟨index, token, by simp [isParent, hkind, hsame], ?_⟩
        intro n other hlo hhi
        omega

end Listing

/-! ### Tokens of a regular text -/

namespace Token

section Row

variable {keywords : Keywords} {row : Row}

theorem levels_of_not_hasContent (hline : '\n' ∉ row.line.text.dropLast)
    (h : Indent.hasContent row.line.text = false) : levels (ofRow keywords row) = [] := by
  have hnone : (ofRow keywords row).filter (·.kind != .newline) = [] := by
    rw [List.filter_eq_nil_iff]
    intro token hmem
    simp [kind_of_not_hasContent hline h hmem]
  simp [levels, hnone]

theorem exists_of_hasContent (hk : ∀ word, keywords.classify word ≠ .newline)
    (hline : '\n' ∉ row.line.text.dropLast) (h : Indent.hasContent row.line.text = true) :
    ∃ token ∈ ofRow keywords row, token.kind ≠ .newline := by
  have hlead := Block.lead?_eq hk hline
  rw [h, Block.lead?] at hlead
  have hloud : (Lexeme.scan row.line.text).all (Lexeme.isSilent keywords) = false := by
    by_contra hsilent
    rw [Bool.not_eq_false] at hsilent
    simp [hsilent] at hlead
  obtain ⟨lexeme, hmem, hlexeme⟩ := List.all_eq_false.mp hloud
  cases hkind : lexeme.kind? keywords with
  | none => simp [Lexeme.isSilent, hkind] at hlexeme
  | some kind =>
    have hreading : (kind, lexeme.text) ∈ (ofRow keywords row).map reading := by
      rw [ofRow, map_reading_place, List.mem_filterMap]
      exact ⟨lexeme, hmem, by simp [Lexeme.reading?, hkind]⟩
    obtain ⟨token, htoken, hpair⟩ := List.mem_map.mp hreading
    refine ⟨token, htoken, ?_⟩
    rw [show token.kind = kind from congrArg Prod.fst hpair]
    simpa [Lexeme.isSilent, hkind] using hlexeme

theorem levels_of_hasContent (hk : ∀ word, keywords.classify word ≠ .newline) (row : Row)
    (hline : '\n' ∉ row.line.text.dropLast) (h : Indent.hasContent row.line.text = true) :
    ∃ count, levels (ofRow keywords row) = List.replicate (count + 1) row.depth := by
  obtain ⟨token, hmem, hkind⟩ := exists_of_hasContent hk hline h
  have hpos : 0 < (levels (ofRow keywords row)).length := by
    rw [levels, List.length_map]
    exact List.length_pos_of_mem (List.mem_filter.mpr ⟨hmem, by simpa using hkind⟩)
  refine ⟨(levels (ofRow keywords row)).length - 1, List.eq_replicate_iff.mpr ⟨by omega, ?_⟩⟩
  intro depth hdepth
  obtain ⟨other, hother, rfl⟩ := List.mem_map.mp hdepth
  exact (exists_of_mem_place keywords row (List.mem_of_mem_filter hother)).2.1

end Row

private theorem isChain_replicate_append {previous depth : Nat} {rest : List Nat}
    (hle : depth ≤ previous + 1)
    (h : (depth :: rest).IsChain fun upper lower => lower ≤ upper + 1) (count : Nat) :
    (previous :: (List.replicate (count + 1) depth ++ rest)).IsChain
      fun upper lower => lower ≤ upper + 1 := by
  induction count generalizing previous with
  | zero => exact List.IsChain.cons_cons hle h
  | succ count ih =>
    rw [List.replicate_succ, List.cons_append]
    exact List.IsChain.cons_cons hle (ih (Nat.le_succ depth))

/-- The tokens of consecutive lines grow deeper step by step if the lines with content do. -/
theorem isChain_levels_ofLines {dialect : Dialect}
    (hk : ∀ word, dialect.keywords.classify word ≠ .newline) {lines : List Text}
    (hlines : Text.AreLines lines) (number start before : Nat) {previous : Nat}
    (h : (previous :: Indent.contentDepths dialect.indentWidth lines).IsChain
      fun upper lower => lower ≤ upper + 1) :
    (previous :: levels (ofLines dialect number start before lines)).IsChain
      fun upper lower => lower ≤ upper + 1 := by
  induction lines generalizing number start before previous with
  | nil => simp [levels]
  | cons line rest ih =>
    obtain ⟨-, hsingle, -, hrest⟩ := Text.AreLines.cons_iff.mp hlines
    rw [ofLines_cons, levels_append]
    cases hcontent : Indent.hasContent line with
    | false =>
      -- Such a line holds a newline at most, which has no level.
      rw [levels_of_not_hasContent hsingle hcontent, List.nil_append]
      rw [Indent.contentDepths, List.filter_cons_of_neg (by simp [hcontent])] at h
      exact ih hrest _ _ _ h
    | true =>
      obtain ⟨count, hlevels⟩ := levels_of_hasContent hk
        ⟨⟨number, start, line⟩, before, Indent.depthAfter dialect.indentWidth before line⟩ hsingle
        hcontent
      rw [Indent.contentDepths, List.filter_cons_of_pos hcontent, List.map_cons,
        List.isChain_cons_cons] at h
      rw [hlevels, Indent.depthAfter_of_hasContent _ _ hcontent, ← Indent.contentDepth_eq]
      exact isChain_replicate_append h.1 (ih hrest _ _ _ h.2) count

theorem isSteady_levels_tokensOf {dialect : Dialect}
    (hk : ∀ word, dialect.keywords.classify word ≠ .newline) {source : Text}
    (h : Indent.IsRegular dialect.indentWidth source) :
    IsSteady (levels (Listing.tokensOf dialect source)) := by
  have hdepths : (0 :: Indent.contentDepths dialect.indentWidth (Text.splitLines source)).IsChain
      fun upper lower => lower ≤ upper + 1 := by
    refine List.isChain_cons.mpr ⟨?_, h.later⟩
    intro depth hhead
    rw [h.first depth hhead]
  have hlines := isChain_levels_ofLines hk (Text.areLines_splitLines source) 1 0 1 hdepths
  rw [tokensOf_eq, levels_append, levels_singleton (by simp [endOf]), IsSteady, ← List.cons_append,
    List.isChain_append]
  refine ⟨hlines, List.isChain_singleton _, ?_⟩
  intro upper _ lower hlower
  simp only [List.head?_cons, Option.mem_some_iff] at hlower
  subst hlower
  exact Nat.le_add_left 1 upper

theorem one_le_depth {dialect : Dialect} {source : Text} {token : Token}
    (h : token ∈ Listing.tokensOf dialect source) : 1 ≤ token.depth := by
  rw [tokensOf_eq, List.mem_append, List.mem_singleton] at h
  rcases h with h | rfl
  · obtain ⟨site, -, kind, -, rfl⟩ := exists_site h
    exact Indent.one_le_depthAfter _
      (Indent.one_le_foldl_depthAfter _ (Nat.le_refl 1) site.above) site.line
  · exact Nat.le_refl 1

end Token

namespace Listing

section Steady

variable {listing : Listing} (hsteady : IsSteady (Token.levels listing.tokens)) {index : Nat}
  {token : Token}

include hsteady

/-- Among steady tokens, each one that is not at the margin has an ancestor that encloses it. -/
theorem exists_ancestor (h : listing.tokens[index]? = some token) (hkind : token.kind ≠ .newline)
    (hdeep : 1 < token.depth) :
    ∃ place parent, listing.ancestor index = .ok (.found place parent) ∧
      listing.IsDeeper parent.depth place index := by
  have hstep := depth_le_of_isSteady hsteady h hkind
  obtain ⟨place, parent, hparent, hbetween⟩ := exists_parent?_of_isSteady hsteady
    (List.getElem?_eq_some_iff.mp h).1.le (Nat.le_sub_one_of_lt hdeep) (Nat.sub_le_of_le_add hstep)
  rw [Nat.sub_add_cancel hdeep.le] at hparent
  rcases ancestor_cases h with ⟨hroot, -⟩ | ⟨-, found, other, hfound, hancestor⟩ | ⟨-, hnone, -⟩
  · omega
  · rw [hparent, Option.some.injEq, Prod.mk.injEq] at hfound
    refine ⟨place, parent, by rw [hancestor, hfound.1, hfound.2], ?_⟩
    rw [(of_parent?_eq_some hparent).2.2]
    exact hbetween
  · simp [hparent] at hnone

theorem length_ancestors (hmargin : ∀ other ∈ listing.tokens, 1 ≤ other.depth)
    (h : listing.tokens[index]? = some token) (hkind : token.kind ≠ .newline) :
    (listing.ancestors index).indices.length + 1 = token.depth ∧
      (listing.ancestors index).ending = .ok () := by
  induction index using Nat.strong_induction_on generalizing token with
  | _ index ih =>
    by_cases hdeep : 1 < token.depth
    · obtain ⟨place, parent, hfound, -⟩ := exists_ancestor hsteady h hkind hdeep
      obtain ⟨-, hparent, hloud, hdepth⟩ := of_ancestor_eq_found h hfound
      have hfurther := ih place (ancestor_lt hfound) hparent hloud
      rw [ancestors_of_found hfound, List.length_cons, hfurther.1]
      exact ⟨hdepth, hfurther.2⟩
    · have hpos := hmargin token (List.mem_of_getElem? h)
      rcases ancestor_cases h with ⟨-, hroot⟩ | hfound | hnone
      · rw [ancestors_of_root hroot]
        refine ⟨?_, rfl⟩
        show 1 = token.depth
        omega
      · exact absurd hfound.1 hdeep
      · exact absurd hnone.1 hdeep

theorem isEnclosed_of_isSteady (hmargin : ∀ other ∈ listing.tokens, 1 ≤ other.depth)
    (h : listing.tokens[index]? = some token) (hkind : token.kind ≠ .newline) :
    listing.IsEnclosed index token := by
  have hlength := length_ancestors hsteady hmargin h hkind
  refine ⟨hlength.1, hlength.2, ?_⟩
  intro place parent hfound
  have hdepth := (of_ancestor_eq_found h hfound).2.2.2
  have hpos := hmargin parent (List.mem_of_getElem? (of_ancestor_eq_found h hfound).2.1)
  obtain ⟨place', parent', hfound', hbetween⟩ := exists_ancestor hsteady h hkind (by omega)
  rw [hfound, Except.ok.injEq, Ancestor.found.injEq] at hfound'
  rw [hfound'.1, hfound'.2]
  exact hbetween

end Steady

/-- A lineage goes up one level at a time. In a text that is indented step by step, it reaches the
root through one ancestor for each level above the margin, and each of them encloses the token below
it. -/
theorem ofSource_lineage (dialect : Dialect) (hwidth : 1 ≤ dialect.indentWidth) (source : Text) :
    ∃ listing, ofSource dialect source = .ok listing ∧
      (∀ index token, listing.tokens[index]? = some token → listing.Ascends index token) ∧
      ((∀ entry ∈ dialect.keywords.entries, entry.2 ≠ .newline) →
        Indent.IsRegular dialect.indentWidth source →
        ∀ index token, listing.tokens[index]? = some token → token.kind ≠ .newline →
          listing.IsEnclosed index token) := by
  have hmargin : ∀ other ∈ (read dialect source).tokens, 1 ≤ other.depth :=
    fun _ => Token.one_le_depth
  refine ⟨read dialect source, ofSource_eq_ok hwidth source, ?_, ?_⟩
  · intro index token htoken
    have hlength := length_ancestors_lt hmargin htoken
    refine ⟨?_, hlength.1, hlength.2⟩
    intro place parent hfound
    exact ⟨ancestor_lt hfound, (of_ancestor_eq_found htoken hfound).2⟩
  · intro htable hregular index token htoken hkind
    have hsteady := Token.isSteady_levels_tokensOf (Keywords.classify_ne_newline htable) hregular
    exact isEnclosed_of_isSteady hsteady hmargin htoken hkind

theorem ofSource_lineage_steps :
    let source := "a:\n    b:\n        c\n\n    d:\n  \r\n        e f\n".toList
    Indent.IsRegular 4 source ∧
      ∃ listing, ofSource {} source = .ok listing ∧
        listing.tokens[14]? = some ⟨.identifier, ['f'], 7, 11, 3, 42, 43⟩ ∧
        listing.ancestor 14 = .ok (.found 10 ⟨.colon, [':'], 5, 6, 2, 26, 27⟩) ∧
        (listing.ancestors 14).indices.length = 2 ∧ (listing.ancestors 14).ending = .ok () ∧
        ∀ n other, 10 < n → n < 14 → listing.tokens[n]? = some other → other.kind ≠ .newline →
          2 < other.depth := by
  intro source
  have hdepths : Indent.contentDepths 4 (Text.splitLines source) = [1, 2, 3, 2, 3] := by
    decide +kernel
  have hregular : Indent.IsRegular 4 source := by
    constructor
    case first => simp [hdepths]
    case later => simp [hdepths]
  have htoken : (read {} source).tokens[14]? = some ⟨.identifier, ['f'], 7, 11, 3, 42, 43⟩ := by
    decide +kernel
  have hfound : (read {} source).ancestor 14 =
      .ok (.found 10 ⟨.colon, [':'], 5, 6, 2, 26, 27⟩) := by decide +kernel
  obtain ⟨listing, hlisting, -, hall⟩ := ofSource_lineage {} (by decide) source
  obtain rfl := Except.ok.inj hlisting
  have h := hall (by decide +kernel) hregular 14 _ htoken (by decide)
  exact ⟨hregular, _, rfl, htoken, hfound, Nat.succ.inj h.length_eq, h.root,
    h.between _ _ hfound⟩

end Listing

end Excerpt
