import Excerpt.Proofs.Lineages
import Excerpt.Proofs.Slices
/-!
# The lines of a block

The bytes of a block are looked up by the index of its keyword, its lines by the first token of a
kind and a literal. Where that token is the keyword or the name behind it, both searches go through
the same tokens and stop at the same one: the lines are those of the two ends of the bytes. Without
such a token they stop at different places, but then nothing stands below the line of the keyword.
-/
namespace Excerpt

/-- The line on which a byte of a text stands. -/
def Text.lineOf (source : Text) (byte : Nat) : Nat := 1 + (takeBytes byte source).count '\n'

def Text.linesOfSpan (source : Text) (span : Span) : Nat × Nat :=
  (lineOf source span.start, lineOf source span.stop)

namespace Listing

variable {dialect : Dialect} {source : Text} {index : Nat} {anchor token : Token}

/-! ### Anchors -/

theorem blockLines_of_findFirst {listing : Listing} {kind : Kind} {literal : Text}
    (h : listing.findFirst kind literal = .ok (anchor, index)) :
    listing.blockLines kind literal =
      .ok (anchor.line, ((listing.blockEnd? anchor (index + 1)).map Token.line).getD
        anchor.line) := by
  rw [blockLines, h]
  rfl

theorem blockEnd?_congr (listing : Listing) {other : Token} (hline : other.line = anchor.line)
    (hdepth : other.depth = anchor.depth) (index : Nat) :
    listing.blockEnd? other index = listing.blockEnd? anchor index := by
  have hends : other.endsBlock = anchor.endsBlock := by
    funext token
    rw [Token.endsBlock, Token.endsBlock, hline, hdepth]
  rw [blockEnd?, blockEnd?, hends]

theorem depth_next {keyword name : Token}
    (hkeyword : (tokensOf dialect source)[index]? = some keyword)
    (hname : (tokensOf dialect source)[index + 1]? = some name)
    (hident : name.kind = .identifier) (hline : name.line = keyword.line) :
    name.depth = keyword.depth := by
  have horder := Token.precedes_of_lt (Nat.lt_succ_self index) hkeyword hname
  rcases horder.depth_eq hline.symm with hdepth | rfl
  · exact hdepth.symm
  · cases hident

theorem blockSpan_of_pair {listing : Listing} {keyword name : Token}
    (hkeyword : listing.tokens[index]? = some keyword) (hdef : keyword.kind.isDefinition = true)
    (hname : listing.tokens[index + 1]? = some name) (hident : name.kind = .identifier) :
    listing.blockSpan index =
      .ok ⟨keyword.start, ((listing.blockEnd? keyword (index + 2)).map Token.start).getD
        (Text.byteLength listing.source)⟩ := by
  have hpair : listing.isIdentifierAt (index + 1) = true := by
    rw [isIdentifierAt, hname, Option.any_some, hident]
    rfl
  rw [blockSpan, tokenAt_eq_ok_iff.mpr hkeyword]
  simp only [bind, Except.bind, pure, Except.pure, hdef, hpair, Bool.and_self, if_true]

/-! ### Where a block ends -/

theorem lineOf_start (h : token ∈ tokensOf dialect source) :
    Text.lineOf source token.start = token.line :=
  (Token.isPlaced_of_mem h).line_eq.symm

theorem line_eq_of_blockEnd?_eq_none (hanchor : anchor ∈ tokensOf dialect source)
    (hle : index < (tokensOf dialect source).length)
    (h : (read dialect source).blockEnd? anchor index = none) :
    anchor.line = (Token.endOf source).line := by
  have hlast : Token.endOf source ∈ (tokensOf dialect source).drop index := by
    have hend := Token.getElem?_last dialect source
    apply List.mem_of_getElem? (i := (tokensOf dialect source).length - 1 - index)
    rwa [List.getElem?_drop, Nat.add_sub_cancel' (by omega)]
  have hdepth : (Token.endOf source).depth ≤ anchor.depth := Token.one_le_depth hanchor
  have hkind : (Token.endOf source).kind ≠ .newline := Kind.noConfusion
  by_contra hline
  apply List.find?_eq_none.mp h _ hlast
  simp [Token.endsBlock, hdepth, hkind, Ne.symm hline]

/-- The line of the token that ends a block is the line of the byte at which the block ends, and so
is the line of the anchor where the block reaches to the end of the text. -/
theorem lineOf_blockEnd? (hanchor : anchor ∈ tokensOf dialect source)
    (hle : index < (tokensOf dialect source).length) :
    Text.lineOf source ((((read dialect source).blockEnd? anchor index).map Token.start).getD
        (Text.byteLength source)) =
      (((read dialect source).blockEnd? anchor index).map Token.line).getD anchor.line := by
  cases hend : (read dialect source).blockEnd? anchor index with
  | some last =>
    have hmem : last ∈ tokensOf dialect source :=
      List.mem_of_mem_drop (List.mem_of_find?_eq_some hend)
    exact lineOf_start hmem
  | none =>
    rw [Option.map_none, Option.map_none, Option.getD_none, Option.getD_none,
      line_eq_of_blockEnd?_eq_none hanchor hle hend]
    exact (Token.isPlaced_endOf source).line_eq.symm

theorem linesOfSpan_eq (hanchor : anchor ∈ tokensOf dialect source)
    (hle : index < (tokensOf dialect source).length) :
    Text.linesOfSpan source ⟨anchor.start,
        (((read dialect source).blockEnd? anchor index).map Token.start).getD
          (Text.byteLength source)⟩ =
      (anchor.line, (((read dialect source).blockEnd? anchor index).map Token.line).getD
        anchor.line) := by
  rw [Text.linesOfSpan, lineOf_start hanchor, lineOf_blockEnd? hanchor hle]

/-- The lines of a block, looked up by its keyword or by the name behind it, are the lines of the two
ends of its bytes, as long as the token that is looked for does not stand further up as well. -/
theorem ofSource_blockLines (dialect : Dialect) (hwidth : 1 ≤ dialect.indentWidth)
    (source : Text) :
    ∃ listing, ofSource dialect source = .ok listing ∧
      ∀ index keyword name, listing.tokens[index]? = some keyword →
        keyword.kind.isDefinition = true → listing.tokens[index + 1]? = some name →
        name.kind = .identifier →
          ∃ block, listing.blockSpan index = .ok block ∧
            (listing.findFirst keyword.kind keyword.literal = .ok (keyword, index) →
              listing.blockLines keyword.kind keyword.literal =
                .ok (Text.linesOfSpan source block)) ∧
            (listing.findFirst .identifier name.literal = .ok (name, index + 1) →
              listing.blockLines .identifier name.literal =
                .ok (Text.linesOfSpan source block)) := by
  refine ⟨read dialect source, ofSource_eq_ok hwidth source, ?_⟩
  intro index keyword name hkeyword hdef hname hident
  have hline := line_next hkeyword (Kind.ne_newline_of_isDefinition hdef) hname hident
  have hdepth := depth_next hkeyword hname hident hline
  have hskip := blockEnd?_eq_succ hname hline
  have hmem := List.mem_of_getElem? hkeyword
  have hnext := (List.getElem?_eq_some_iff.mp hname).1
  have hspan := blockSpan_of_pair hkeyword hdef hname hident
  rw [read_source, ← hskip] at hspan
  have hlines := linesOfSpan_eq hmem hnext
  refine ⟨_, hspan, ?_, ?_⟩
  · intro hfirst
    rw [blockLines_of_findFirst hfirst, hlines]
  · intro hfirst
    rw [blockLines_of_findFirst hfirst, blockEnd?_congr _ hline hdepth, hline, ← hskip, hlines]

theorem ofSource_blockLines_unfinished :
    let source := "x\n\tclass A: def f(x): y".toList
    ∃ listing, ofSource {} source = .ok listing ∧ listing.blockSpan 2 = .ok ⟨3, 23⟩ ∧
      listing.findFirst .classKeyword "class".toList =
        .ok (⟨.classKeyword, "class".toList, 2, 2, 2, 3, 8⟩, 2) ∧
      listing.blockLines .classKeyword "class".toList = .ok (2, 2) ∧
      listing.findFirst .identifier "A".toList =
        .ok (⟨.identifier, "A".toList, 2, 8, 2, 9, 10⟩, 3) ∧
      listing.blockLines .identifier "A".toList = .ok (2, 2) := by
  intro source
  obtain ⟨listing, hlisting, hlines⟩ := ofSource_blockLines {} (by decide) source
  obtain rfl := Except.ok.inj hlisting
  have hblock : (read {} source).blockSpan 2 = .ok ⟨3, 23⟩ := by decide +kernel
  have hkeyword : (read {} source).findFirst .classKeyword "class".toList =
      .ok (⟨.classKeyword, "class".toList, 2, 2, 2, 3, 8⟩, 2) := by decide +kernel
  have hname : (read {} source).findFirst .identifier "A".toList =
      .ok (⟨.identifier, "A".toList, 2, 8, 2, 9, 10⟩, 3) := by decide +kernel
  have htwo : (read {} source).tokens[2]? =
      some ⟨.classKeyword, "class".toList, 2, 2, 2, 3, 8⟩ := by decide +kernel
  have hthree : (read {} source).tokens[3]? =
      some ⟨.identifier, "A".toList, 2, 8, 2, 9, 10⟩ := by decide +kernel
  have hspan : Text.linesOfSpan source ⟨3, 23⟩ = (2, 2) := by decide +kernel
  obtain ⟨block, hfound, hfirst, hsecond⟩ := hlines 2 _ _ htwo rfl hthree rfl
  obtain rfl := Except.ok.inj (hblock.symm.trans hfound)
  rw [hspan] at hfirst hsecond
  exact ⟨_, rfl, hblock, hkeyword, hfirst hkeyword, hname, hsecond hname⟩

end Listing

end Excerpt
