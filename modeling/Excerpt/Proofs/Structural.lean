import Excerpt.Proofs.Tiling
import Excerpt.Proofs.Vocabulary
/-!
# Newlines and the end

Newlines and the end of a text are told by tokens of their own. A keyword table can give these kinds
to words as well, and settings are accepted with such a table. Then the tokens report newlines and
ends that are not there; without a readable entry of this sort they never do.
-/
namespace Excerpt

/-- The bytes that the newlines of a text cover, in order, if it starts at the byte `start`. -/
def Text.newlineSpans : Nat → Text → List Span
  | _, [] => []
  | start, c :: rest =>
    if c = '\n' then ⟨start, start + c.utf8Size⟩ :: newlineSpans (start + c.utf8Size) rest
    else newlineSpans (start + c.utf8Size) rest

theorem Text.newlineSpans_append (start : Nat) (first second : Text) :
    newlineSpans start (first ++ second) =
      newlineSpans start first ++ newlineSpans (start + byteLength first) second := by
  induction first generalizing start with
  | nil => rfl
  | cons c rest ih =>
    rw [List.cons_append, newlineSpans, newlineSpans, ih, byteLength_cons, Nat.add_assoc]
    split
    · rfl
    · rfl

theorem Text.newlineSpans_eq_nil (start : Nat) {text : Text} (h : '\n' ∉ text) :
    newlineSpans start text = [] := by
  induction text generalizing start with
  | nil => rfl
  | cons c rest ih =>
    rw [List.mem_cons, not_or] at h
    rw [newlineSpans, if_neg (Ne.symm h.1), ih _ h.2]

namespace Token

/-- The end is told once, by the last token, and every newline once, in order. -/
structure IsFaithful (source : Text) (tokens : List Token) : Prop where
  ended : ∃ front last, tokens = front ++ [last] ∧ last.kind = .endOfInput ∧
    ∀ token ∈ front, token.kind ≠ .endOfInput
  newlines : (tokens.filter (·.kind = .newline)).map span = Text.newlineSpans 0 source

theorem Covers.newlines {start : Nat} {text : Text} {tokens : List Token}
    (h : Covers start text tokens)
    (hall : ∀ token ∈ tokens, (token.kind = .newline ∧ token.literal = ['\n']) ∨
      (token.kind ≠ .newline ∧ '\n' ∉ token.literal)) :
    (tokens.filter (·.kind = .newline)).map span = Text.newlineSpans start text := by
  induction h with
  | nil => rfl
  | @cons start gap rest token tokens hgap hstart hstop hrest ih =>
    obtain ⟨htoken, htokens⟩ := List.forall_mem_cons.1 hall
    have hnone : '\n' ∉ gap := by
      intro hmem
      exact absurd (hgap _ hmem) (by decide)
    rw [Text.newlineSpans_append, Text.newlineSpans_eq_nil start hnone, List.nil_append, ← hstart,
      Text.newlineSpans_append, ← hstop, ← ih htokens]
    rcases htoken with ⟨hkind, hliteral⟩ | ⟨hkind, hliteral⟩
    · rw [List.filter_cons_of_pos (by simpa using hkind), List.map_cons, span, hstop, hliteral]
      rfl
    · rw [List.filter_cons_of_neg (by simpa using hkind), Text.newlineSpans_eq_nil _ hliteral,
        List.nil_append]

end Token

/-- Whether no word that can be read stands for a newline or an end. -/
def Keywords.IsGenuine (table : Keywords) : Prop :=
  ∀ entry ∈ table.entries, entry.1.isReadable = true →
    entry.2 ≠ .newline ∧ entry.2 ≠ .endOfInput

instance (table : Keywords) : Decidable table.IsGenuine :=
  inferInstanceAs (Decidable (∀ entry ∈ table.entries, _))

namespace Token

variable {dialect : Dialect} {source : Text} {token : Token}

theorem newline_or_not_mem (htable : dialect.keywords.IsGenuine)
    (h : token ∈ Listing.tokensOf dialect source) :
    (token.kind = .newline ∧ token.literal = ['\n']) ∨
      (token.kind ≠ .newline ∧ '\n' ∉ token.literal) := by
  by_cases hend : token = endOf source
  · subst hend
    exact .inr ⟨by simp [endOf], List.not_mem_nil⟩
  obtain ⟨lexeme, hscan, hkind, htext⟩ := exists_lexeme_of_mem h hend
  by_cases hnewline : token.kind = .newline
  · rw [hnewline] at hkind
    rcases Lexeme.readable_of_kind? hscan hkind (.inr (.inl rfl)) with ⟨-, hone⟩ | ⟨hword, hmem⟩
    · exact .inl ⟨hnewline, htext ▸ hone⟩
    · exact absurd rfl (htable _ hmem hword).1
  · have hshape : lexeme.shape ≠ .newline := by
      intro hshape
      rw [Lexeme.kind?, hshape, Option.some.injEq] at hkind
      exact hnewline hkind.symm
    obtain ⟨c, rest, hc, hstarts, hcontinues⟩ := Lexeme.exists_eq_of_mem_scan hscan
    rw [← htext, hc, List.mem_cons, not_or]
    refine .inr ⟨hnewline, ?_, ?_⟩
    · exact (Shape.ne_newline_of_shape hshape (.inl hstarts)).symm
    · intro hmem
      exact Shape.ne_newline_of_shape hshape (.inr (hcontinues _ hmem)) rfl

theorem isFaithful_of_isGenuine (htable : dialect.keywords.IsGenuine) (source : Text) :
    IsFaithful source (Listing.tokensOf dialect source) where
  ended := by
    refine ⟨_, endOf source, tokensOf_eq dialect source, rfl, ?_⟩
    intro token hmem hend
    obtain ⟨lexeme, hscan, hkind, -⟩ := exists_lexeme_of_mem_ofLines hmem
    rw [hend] at hkind
    rcases Lexeme.readable_of_kind? hscan hkind (.inr (.inr rfl)) with ⟨hnewline, -⟩ | ⟨hword, hentry⟩
    · cases hnewline
    · exact (htable _ hentry hword).2 rfl
  newlines := (covers_tokensOf dialect source).newlines fun _ => newline_or_not_mem htable

theorem not_isFaithful_of_keyword {literal : Text} {kind : Kind}
    (hliteral : literal.isReadable = true) (hmem : (literal, kind) ∈ dialect.keywords.entries)
    (hkind : kind = .newline ∨ kind = .endOfInput) :
    ¬ IsFaithful literal (Listing.tokensOf dialect literal) := by
  intro hfaithful
  have hreadings : (Listing.tokensOf dialect literal).map reading =
      [(kind, literal), (.endOfInput, [])] := by
    rw [map_reading_tokensOf, Lexeme.readings_word dialect.keywords hliteral,
      Keywords.classify_of_mem hmem]
    rfl
  obtain ⟨word, rest, htokens, hword, hrest⟩ := List.map_eq_cons_iff.1 hreadings
  obtain ⟨last, rest, rfl, hlast, hnil⟩ := List.map_eq_cons_iff.1 hrest
  obtain rfl := List.map_eq_nil_iff.1 hnil
  simp only [reading, Prod.mk.injEq] at hword hlast
  rw [htokens] at hfaithful
  -- The only word is reported as a newline, of which the text has none, or as an end, which is then
  -- not the last token.
  rcases hkind with rfl | rfl
  · have hnone : '\n' ∉ literal := by
      intro hnewline
      exact absurd (Text.mem_of_isReadable hliteral hnewline) (by decide)
    have hspans := hfaithful.newlines
    rw [Text.newlineSpans_eq_nil 0 hnone] at hspans
    simp [hword] at hspans
  · obtain ⟨front, other, hsplit, -, hfront⟩ := hfaithful.ended
    have hword_front : [word] = front := by simpa using congrArg List.dropLast hsplit
    exact hfront word (by simp [← hword_front]) hword.1

end Token

namespace Settings

/-- With accepted settings, the tokens of every source are faithful exactly if no readable keyword
stands for a newline or an end. -/
theorem faithful_iff_isGenuine {document : Text} {settings : Settings}
    (hparse : parse document = .ok settings) :
    (∀ source, ∃ listing, Listing.ofSource settings.dialect source = .ok listing ∧
        Token.IsFaithful source listing.tokens) ↔ settings.dialect.keywords.IsGenuine := by
  have hwidth : 1 ≤ settings.dialect.indentWidth := (of_parse_eq_ok hparse).1
  constructor
  · intro hfaithful entry hmem hword
    obtain ⟨listing, hsource, htokens⟩ := hfaithful entry.1
    rw [Listing.ofSource_eq_ok hwidth, Except.ok.injEq] at hsource
    rw [← hsource, Listing.read_tokens] at htokens
    refine ⟨?_, ?_⟩
    · intro hkind
      exact Token.not_isFaithful_of_keyword hword hmem (.inl hkind) htokens
    · intro hkind
      exact Token.not_isFaithful_of_keyword hword hmem (.inr hkind) htokens
  · intro htable source
    exact ⟨_, Listing.ofSource_eq_ok hwidth source, Token.isFaithful_of_isGenuine htable source⟩

theorem faithful_iff_isGenuine_signs :
    ∃ settings, parse ("decorators = false\n[keywords]\nstruct = \"CLASS\"\nfn = \"FUNCTION\"\n" ++
        "\"@\" = \"IGNORE\"\n\";\" = \"NEWLINE\"\n\"\" = \"EOF\"\n").toList = .ok settings ∧
      ∀ source, ∃ listing, Listing.ofSource settings.dialect source = .ok listing ∧
        Token.IsFaithful source listing.tokens := by
  let table := Keywords.ofList [("struct".toList, .classKeyword), ("fn".toList, .functionKeyword),
    ("@".toList, .ignored), (";".toList, .newline), ("".toList, .endOfInput)]
  have hparse : parse ("decorators = false\n[keywords]\nstruct = \"CLASS\"\nfn = \"FUNCTION\"\n" ++
      "\"@\" = \"IGNORE\"\n\";\" = \"NEWLINE\"\n\"\" = \"EOF\"\n").toList =
        .ok ⟨4, false, some table⟩ := by
    decide +kernel
  exact ⟨_, hparse, (faithful_iff_isGenuine hparse).2 (by decide)⟩

/-- With words for newlines and ends in an accepted table, a text of two words has a newline and a
second end. -/
theorem faithful_iff_isGenuine_words :
    ∃ settings listing,
      parse ("[keywords]\nclass = \"CLASS\"\ndef = \"FUNCTION\"\nend = \"NEWLINE\"\n" ++
        "stop = \"EOF\"\n").toList = .ok settings ∧
      Listing.ofSource settings.dialect "end stop".toList = .ok listing ∧
      listing.tokens.map Token.kind = [.newline, .endOfInput, .endOfInput] ∧
      ¬ Token.IsFaithful "end stop".toList listing.tokens := by
  let table := Keywords.ofList [("class".toList, .classKeyword), ("def".toList, .functionKeyword),
    ("end".toList, .newline), ("stop".toList, .endOfInput)]
  have hparse : parse ("[keywords]\nclass = \"CLASS\"\ndef = \"FUNCTION\"\nend = \"NEWLINE\"\n" ++
      "stop = \"EOF\"\n").toList = .ok ⟨4, true, some table⟩ := by
    decide +kernel
  refine ⟨_, _, hparse, rfl, by decide +kernel, ?_⟩
  intro hfaithful
  exact absurd hfaithful.newlines (by decide +kernel)

end Settings

end Excerpt
