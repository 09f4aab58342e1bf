import Excerpt.Proofs.FirstDefinition
import Excerpt.Proofs.Literals
import Excerpt.Settings
/-!
# Which keywords take effect

A keyword table is asked about words and about `@`, and about nothing else. An entry takes effect
exactly if its literal is one of these; any other literal is cut into several lexemes, or belongs to
a lexeme that is no word, wherever it stands. Settings are accepted without regard to this, so that
they can name a keyword with which nothing can be defined.
-/
namespace Excerpt

/-- Whether a text can be read as one lexeme that the table decides on: `@`, or a word. -/
def Text.isReadable : Text → Bool
  | [] => false
  | c :: rest =>
    (c == '@' && rest.isEmpty) || (Shape.startsWord c && rest.all Shape.continuesWord)

theorem Text.isReadable_cons_iff {c : Char} {rest : Text} :
    isReadable (c :: rest) = true ↔ (c = '@' ∧ rest = []) ∨
      (Shape.startsWord c = true ∧ ∀ d ∈ rest, Shape.continuesWord d = true) := by
  simp [isReadable]

theorem Text.mem_of_isReadable {word : Text} (h : word.isReadable = true) {c : Char}
    (hc : c ∈ word) : c = '@' ∨ Shape.continuesWord c = true := by
  cases word with
  | nil => simp at hc
  | cons first rest =>
    rcases isReadable_cons_iff.1 h with ⟨rfl, rfl⟩ | ⟨hstarts, hcontinues⟩
    · exact .inl (List.mem_singleton.1 hc)
    · rcases List.mem_cons.1 hc with rfl | hc
      · exact .inr (Shape.continuesWord_of_startsWord hstarts)
      · exact .inr (hcontinues c hc)

theorem Shape.ofChar_of_startsWord {c : Char} (h : startsWord c = true) : ofChar c = .word := by
  have hne : ∀ d, startsWord d = false → c ≠ d := by
    intro d hd heq
    simp [heq, hd] at h
  have hcontrol : isControl c = false := by
    simp [isControl, hne '\r' (by decide), hne '\x0c' (by decide)]
  simp [ofChar, h, hcontrol, hne ' ' (by decide), hne '\t' (by decide), hne '\n' (by decide),
    hne ':' (by decide), hne '(' (by decide), hne ')' (by decide), hne '@' (by decide)]

namespace Lexeme

theorem kind?_of_shape {keywords : Keywords} {lexeme : Lexeme}
    (h : lexeme.shape = .atSign ∨ lexeme.shape = .word) :
    lexeme.kind? keywords = some (keywords.classify lexeme.text) := by
  rcases h with h | h <;> rw [kind?, h]

theorem isReadable_of_shape {text : Text} {lexeme : Lexeme} (hscan : lexeme ∈ scan text)
    (h : lexeme.shape = .atSign ∨ lexeme.shape = .word) : lexeme.text.isReadable = true := by
  obtain ⟨c, rest, htext, hstarts, hcontinues⟩ := exists_eq_of_mem_scan hscan
  rw [htext, Text.isReadable_cons_iff]
  rcases h with h | h <;> rw [h] at hstarts hcontinues
  · exact .inl ⟨hstarts, List.eq_nil_iff_forall_not_mem.2 hcontinues⟩
  · exact .inr ⟨hstarts, hcontinues⟩

theorem text_of_newline {text : Text} {lexeme : Lexeme} (hscan : lexeme ∈ scan text)
    (h : lexeme.shape = .newline) : lexeme.text = ['\n'] := by
  obtain ⟨c, rest, htext, hstarts, hcontinues⟩ := exists_eq_of_mem_scan hscan
  rw [h] at hstarts hcontinues
  have hrest : rest = [] := List.eq_nil_iff_forall_not_mem.2 hcontinues
  rw [htext, hrest, show c = '\n' from hstarts]

theorem readable_of_kind? {keywords : Keywords} {text : Text} {lexeme : Lexeme} {kind : Kind}
    (hscan : lexeme ∈ scan text) (h : lexeme.kind? keywords = some kind)
    (hkind : kind.isDefinition = true ∨ kind = .newline ∨ kind = .endOfInput) :
    (kind = .newline ∧ lexeme.text = ['\n']) ∨
      (lexeme.text.isReadable = true ∧ (lexeme.text, kind) ∈ keywords.entries) := by
  by_cases hshape : lexeme.shape = .atSign ∨ lexeme.shape = .word
  · rw [kind?_of_shape hshape, Option.some.injEq] at h
    subst h
    refine .inr ⟨isReadable_of_shape hscan hshape, Keywords.mem_of_classify_ne ?_⟩
    intro hword
    simp [hword, Kind.isDefinition] at hkind
  by_cases hnewline : lexeme.shape = .newline
  · rw [kind?, hnewline, Option.some.injEq] at h
    exact .inl ⟨h.symm, text_of_newline hscan hnewline⟩
  · -- The other shapes have kinds of their own, which are none of these.
    cases hother : lexeme.shape <;> simp_all [kind?]
    all_goals
      subst h
      simp [Kind.isDefinition] at hkind

theorem exists_scan_readable {word rest : Text} (h : word.isReadable = true)
    (hrest : rest.takeWhile Shape.continuesWord = []) :
    ∃ shape, (shape = .atSign ∨ shape = .word) ∧
      scan (word ++ rest) = ⟨shape, word⟩ :: scan rest := by
  cases word with
  | nil => simp [Text.isReadable] at h
  | cons c behind =>
    rw [List.cons_append, scan]
    rcases Text.isReadable_cons_iff.1 h with ⟨rfl, rfl⟩ | ⟨hstarts, hcontinues⟩
    · exact ⟨.atSign, .inl rfl, rfl⟩
    · have hdrop : rest.dropWhile Shape.continuesWord = rest := by
        have hsplit := List.takeWhile_append_dropWhile (p := Shape.continuesWord) (l := rest)
        rwa [hrest, List.nil_append] at hsplit
      have hsplit : splitAfter c (behind ++ rest) = (behind, rest) := by
        rw [splitAfter, Shape.ofChar_of_startsWord hstarts]
        simp only
        rw [List.takeWhile_append_of_pos hcontinues, List.dropWhile_append_of_pos hcontinues,
          hrest, hdrop, List.append_nil]
      exact ⟨.word, .inr rfl, by rw [hsplit, Shape.ofChar_of_startsWord hstarts]⟩

theorem readings_readable (keywords : Keywords) {word rest : Text} (h : word.isReadable = true)
    (hrest : rest.takeWhile Shape.continuesWord = []) :
    (scan (word ++ rest)).filterMap (reading? keywords) =
      (keywords.classify word, word) :: (scan rest).filterMap (reading? keywords) := by
  obtain ⟨shape, hshape, hscan⟩ := exists_scan_readable h hrest
  rw [hscan, List.filterMap_cons, reading?, kind?_of_shape hshape]
  rfl

theorem readings_word (keywords : Keywords) {word : Text} (h : word.isReadable = true) :
    (scan word).filterMap (reading? keywords) = [(keywords.classify word, word)] := by
  have hword := readings_readable keywords h List.takeWhile_nil
  rwa [List.append_nil, scan] at hword

theorem readings_space (keywords : Keywords) {word : Text} (h : word.isReadable = true) :
    (scan (' ' :: word)).filterMap (reading? keywords) =
      (scan word).filterMap (reading? keywords) := by
  have hword : word.takeWhile (· = ' ') = [] ∧ word.dropWhile (· = ' ') = word := by
    cases word with
    | nil => simp
    | cons c rest =>
      have hc : c ≠ ' ' := by
        intro hc
        have hspace := Text.mem_of_isReadable h List.mem_cons_self
        rw [hc] at hspace
        exact absurd hspace (by decide)
      simp [hc]
  rw [scan, splitAfter, show Shape.ofChar ' ' = .spaces from rfl]
  simp only [hword]
  rfl

end Lexeme

theorem Keywords.exists_identifier (table : Keywords) :
    ∃ word : Text, word.isReadable = true ∧ table.classify word = .identifier := by
  -- A word longer than all the literals together is none of them.
  let bound := (table.entries.map Prod.fst).flatten.length
  refine ⟨List.replicate (bound + 1) 'a', ?_, ?_⟩
  · have hstarts : Shape.startsWord 'a' = true := by decide
    simp [List.replicate_succ, Text.isReadable, hstarts, Shape.continuesWord_of_startsWord hstarts]
  · by_contra hword
    have hmem := List.mem_map_of_mem (f := Prod.fst) (mem_of_classify_ne hword)
    have hle := (List.sublist_flatten_of_mem hmem).length_le
    rw [List.length_replicate] at hle
    omega

namespace Listing

theorem exists_token_of_definitions_ne_nil {listing : Listing} {kind : Kind} {name : Text}
    (h : listing.definitions kind name ≠ []) : ∃ token ∈ listing.tokens, token.kind = kind := by
  obtain ⟨index, hindex⟩ := List.exists_mem_of_ne_nil _ h
  obtain ⟨pair, hpair, -⟩ := List.mem_map.1 hindex
  obtain ⟨⟨⟨token, next⟩, place⟩, hfound, -⟩ := List.mem_map.1 hpair
  obtain ⟨hplace, hmatch⟩ := List.mem_filter.1 hfound
  have hzip := (List.of_mem_zip (List.fst_mem_of_mem_zipIdx hplace)).1
  simp only [Bool.and_eq_true, beq_iff_eq] at hmatch
  exact ⟨token, hzip, hmatch.1⟩

theorem exists_keyword_of_definitions_ne_nil {dialect : Dialect} {source : Text} {kind : Kind}
    {name : Text} (hkind : kind.isDefinition = true)
    (h : (read dialect source).definitions kind name ≠ []) :
    ∃ literal, literal.isReadable = true ∧ (literal, kind) ∈ dialect.keywords.entries := by
  obtain ⟨token, hmem, rfl⟩ := exists_token_of_definitions_ne_nil h
  have hend : token ≠ Token.endOf source := by
    intro hend
    rw [hend] at hkind
    cases hkind
  obtain ⟨lexeme, hscan, hlexeme, -⟩ := Token.exists_lexeme_of_mem hmem hend
  rcases Lexeme.readable_of_kind? hscan hlexeme (.inl hkind) with ⟨hnewline, -⟩ | hreadable
  · exact absurd hnewline (Kind.ne_newline_of_isDefinition hkind)
  · exact ⟨lexeme.text, hreadable⟩

/-- A readable keyword defines a name that follows it, unless the table makes a keyword of that
too. -/
theorem definitions_ne_nil_of_keyword {dialect : Dialect} {kind : Kind} {literal name : Text}
    (hliteral : literal.isReadable = true) (hmem : (literal, kind) ∈ dialect.keywords.entries)
    (hname : name.isReadable = true) (hword : dialect.keywords.classify name = .identifier) :
    (read dialect (literal ++ ' ' :: name)).definitions kind name ≠ [] := by
  have hreadings : (tokensOf dialect (literal ++ ' ' :: name)).map Token.reading =
      [(kind, literal), (.identifier, name), (.endOfInput, [])] := by
    rw [Token.map_reading_tokensOf, Lexeme.readings_readable dialect.keywords hliteral rfl,
      Lexeme.readings_space dialect.keywords hname, Lexeme.readings_word dialect.keywords hname,
      Keywords.classify_of_mem hmem, hword]
    rfl
  obtain ⟨keyword, rest, htokens, hkeyword, hrest⟩ := List.map_eq_cons_iff.1 hreadings
  obtain ⟨next, rest, rfl, hnext, -⟩ := List.map_eq_cons_iff.1 hrest
  simp only [Token.reading, Prod.mk.injEq] at hkeyword hnext
  -- The keyword is the first token and the name the second, so the first definition is found there.
  have hfirst : Token.firstDefinition? kind name (keyword :: next :: rest) = some 0 := by
    simp [Token.firstDefinition?, Token.is, hkeyword, hnext]
  rw [← htokens, ← read_tokens, ← head?_definitions] at hfirst
  intro hnil
  simp [hnil] at hfirst

end Listing

namespace Settings

theorem of_check_eq_ok {settings checked : Settings} (h : settings.check = .ok checked) :
    checked = settings ∧ 1 ≤ settings.indentWidth ∧
      ∀ table, settings.keywords = some table → checkKeywords table = .ok () := by
  by_cases hwidth : settings.indentWidth = 0
  · simp [check, hwidth, bind, Except.bind] at h
  cases hkeywords : settings.keywords with
  | none =>
    simp only [check, hwidth, hkeywords, if_false, bind, Except.bind, pure, Except.pure,
      Except.ok.injEq] at h
    exact ⟨h.symm, by omega, by simp⟩
  | some table =>
    simp only [check, hwidth, hkeywords, if_false, bind, Except.bind, pure, Except.pure] at h
    cases htable : checkKeywords table with
    | error cause => simp [htable] at h
    | ok =>
      simp only [htable, Except.ok.injEq] at h
      refine ⟨h.symm, by omega, ?_⟩
      intro other hother
      rwa [← Option.some.inj hother]

theorem of_parse_eq_ok {document : Text} {settings : Settings}
    (h : parse document = .ok settings) :
    1 ≤ settings.indentWidth ∧
      ∀ table, settings.keywords = some table → checkKeywords table = .ok () := by
  rw [parse] at h
  cases hdecoded : (Toml.read document).bind decode? with
  | none => simp [hdecoded] at h
  | some decoded =>
    rw [hdecoded] at h
    obtain ⟨rfl, hpassed⟩ := of_check_eq_ok h
    exact hpassed

theorem exists_literal_of_checkKeywords {table : Keywords} (h : checkKeywords table = .ok ())
    {kind : Kind} (hkind : kind.isDefinition = true) :
    ∃ literal, (literal, kind) ∈ table.entries := by
  cases hfound : table.literalFor? kind with
  | none =>
    -- Without a literal for the kind, every branch of the check is a failure.
    cases kind <;> cases hkind
    all_goals
      simp only [checkKeywords, hfound, if_true] at h
      repeat' split at h
      all_goals cases h
  | some literal => exact ⟨literal, Keywords.mem_of_literalFor?_eq_some hfound⟩

def CanDefine (settings : Settings) (kind : Kind) : Prop :=
  ∃ source name listing, Listing.ofSource settings.dialect source = .ok listing ∧
    listing.definitions kind name ≠ []

/-- An accepted keyword table has entries for both kinds of definition, and such definitions can be
written exactly if one of these entries is readable. -/
theorem canDefine_iff_readable {document : Text} {settings : Settings} {table : Keywords}
    (hparse : parse document = .ok settings) (htable : settings.keywords = some table)
    {kind : Kind} (hkind : kind.isDefinition = true) :
    (∃ literal, (literal, kind) ∈ table.entries) ∧
      (settings.CanDefine kind ↔
        ∃ literal, literal.isReadable = true ∧ (literal, kind) ∈ table.entries) := by
  obtain ⟨hwidth, hcheck⟩ := of_parse_eq_ok hparse
  have hkeywords : settings.dialect.keywords = table := by
    rw [dialect, htable]
    rfl
  refine ⟨exists_literal_of_checkKeywords (hcheck table htable) hkind, ?_, ?_⟩
  · rintro ⟨source, name, listing, hsource, hdefined⟩
    rw [Listing.ofSource_eq_ok hwidth, Except.ok.injEq] at hsource
    rw [← hsource] at hdefined
    rw [← hkeywords]
    exact Listing.exists_keyword_of_definitions_ne_nil hkind hdefined
  · rintro ⟨literal, hliteral, hmem⟩
    rw [← hkeywords] at hmem
    obtain ⟨name, hname, hword⟩ := settings.dialect.keywords.exists_identifier
    exact ⟨literal ++ ' ' :: name, name, _, Listing.ofSource_eq_ok hwidth _,
      Listing.definitions_ne_nil_of_keyword hliteral hmem hname hword⟩

theorem canDefine_iff_readable_sign :
    ∃ settings, parse ("indent_width = 2\n[keywords]\n\"@\" = \"CLASS\"\n" ++
        "fn = \"FUNCTION\"\n\"1fn\" = \"FUNCTION\"\n").toList = .ok settings ∧
      settings.CanDefine .classKeyword ∧ settings.CanDefine .functionKeyword := by
  let table := Keywords.ofList [("@".toList, .classKeyword), ("fn".toList, .functionKeyword),
    ("1fn".toList, .functionKeyword)]
  have hparse : parse ("indent_width = 2\n[keywords]\n\"@\" = \"CLASS\"\n" ++
      "fn = \"FUNCTION\"\n\"1fn\" = \"FUNCTION\"\n").toList = .ok ⟨2, true, some table⟩ := by
    decide +kernel
  refine ⟨_, hparse, ?_, ?_⟩
  · exact (canDefine_iff_readable hparse rfl rfl).2.2 ⟨"@".toList, by decide, by decide⟩
  · exact (canDefine_iff_readable hparse rfl rfl).2.2 ⟨"fn".toList, by decide, by decide⟩

/-- A table with a digit for the keyword of classes is accepted, and no class can be defined. -/
theorem canDefine_iff_readable_digit :
    ∃ settings, parse "[keywords]\n1 = \"CLASS\"\ndef = \"FUNCTION\"\n".toList = .ok settings ∧
      settings.keywords.isSome = true ∧ ¬ settings.CanDefine .classKeyword := by
  let table := Keywords.ofList [("1".toList, .classKeyword), ("def".toList, .functionKeyword)]
  have hparse : parse "[keywords]\n1 = \"CLASS\"\ndef = \"FUNCTION\"\n".toList =
      .ok ⟨4, true, some table⟩ := by
    decide +kernel
  have hunreadable : ∀ entry ∈ table.entries, entry.2 = .classKeyword →
      entry.1.isReadable = false := by
    decide
  refine ⟨_, hparse, rfl, ?_⟩
  rintro ⟨source, name, listing, hsource, hdefined⟩
  cases hsource
  obtain ⟨literal, hliteral, hmem⟩ :=
    Listing.exists_keyword_of_definitions_ne_nil rfl hdefined
  rw [hunreadable _ hmem rfl] at hliteral
  cases hliteral

end Settings

end Excerpt
