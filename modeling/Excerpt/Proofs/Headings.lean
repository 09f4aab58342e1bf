import Excerpt.Proofs.Excerpts
import Excerpt.Proofs.Vocabulary
/-!
# Headings of definitions

Where a definition of a name is found, the text has the keyword, a gap and the name, one right behind
the other. Words are as long as they can be, so the name is not followed by a letter, a digit or an
underscore of ASCII, and a name that always is followed by one is not found. Of letters outside ASCII
words know nothing: before one of them the name ends, and a longer name is taken for it.
-/
namespace Excerpt

/-- The characters that a language makes its names of. Those of them in ASCII are the letters, the
digits and the underscore. -/
structure Alphabet where
  contains : Char → Bool
  ascii : ∀ c : Char, c.toNat < 128 → contains c = Shape.continuesWord c

/-- The letters and digits up to U+00FF, and the underscore. -/
def Alphabet.latin : Alphabet where
  contains c :=
    if c.toNat < 128 then Shape.continuesWord c
    else c.toNat ∈ [0xaa, 0xb5, 0xba] ||
      (0xc0 ≤ c.toNat && c.toNat ≤ 0xff && c.toNat ≠ 0xd7 && c.toNat ≠ 0xf7)
  ascii _ h := if_pos h

/-- A keyword and a name in a source with a gap, and nothing else, between the two. -/
structure Heading (source keyword name : Text) where
  before : Text
  gap : Text
  after : Text
  source_eq : source = before ++ (keyword ++ (gap ++ (name ++ after)))
  gap_ne : gap ≠ []
  isGap : ∀ c ∈ gap, Shape.isGap c = true

namespace Heading

variable {source keyword name : Text}

/-- Whether no character of an alphabet follows the name, which would make it a longer one. -/
def IsWhole (heading : Heading source keyword name) (alphabet : Alphabet) : Prop :=
  ∀ c, heading.after.head? = some c → alphabet.contains c = false

def LeavesAscii (heading : Heading source keyword name) (alphabet : Alphabet) : Prop :=
  ∃ c, heading.after.head? = some c ∧ alphabet.contains c = true ∧ 128 ≤ c.toNat

theorem isWhole_iff {heading : Heading source keyword name}
    (h : ∀ c, heading.after.head? = some c → Shape.continuesWord c = false) (alphabet : Alphabet) :
    heading.IsWhole alphabet ↔ ¬ heading.LeavesAscii alphabet := by
  constructor
  · rintro hwhole ⟨c, hc, hcontains, -⟩
    rw [hwhole c hc] at hcontains
    cases hcontains
  · intro hascii c hc
    by_cases hlt : c.toNat < 128
    · rw [alphabet.ascii c hlt, h c hc]
    · by_contra hcontains
      exact hascii ⟨c, hc, by simpa using hcontains, Nat.le_of_not_lt hlt⟩

theorem head?_after_of_forall {p : Option Char → Bool}
    (h : ∀ first ≤ source.length, ∀ second ≤ source.length,
      (source.drop first).take keyword.length = keyword →
      (source.drop (first + keyword.length + second)).take name.length = name →
      p (source.drop (first + keyword.length + second + name.length)).head? = true)
    (heading : Heading source keyword name) : p heading.after.head? = true := by
  have hlength := congrArg List.length heading.source_eq
  simp only [List.length_append] at hlength
  have hfirst : source.drop heading.before.length =
      keyword ++ (heading.gap ++ (name ++ heading.after)) :=
    (congrArg (List.drop heading.before.length) heading.source_eq).trans List.drop_left
  have hsecond : source.drop (heading.before.length + keyword.length + heading.gap.length) =
      name ++ heading.after := by
    rw [← List.drop_drop, ← List.drop_drop, hfirst, List.drop_left, List.drop_left]
  have hafter := h heading.before.length (by omega) heading.gap.length (by omega)
    (by rw [hfirst, List.take_left]) (by rw [hsecond, List.take_left])
  rwa [← List.drop_drop, hsecond, List.drop_left] at hafter

end Heading

/-! ### Words are maximal -/

namespace Lexeme

theorem join_flatMap_scan (lines : List Text) : join (lines.flatMap scan) = lines.flatten := by
  induction lines with
  | nil => rfl
  | cons line rest ih =>
    rw [List.flatMap_cons, join_append, join_scan, ih, List.flatten_cons]

theorem continuesWord_behind {text : Text} {first second : List Lexeme} {lexeme : Lexeme}
    (h : scan text = first ++ lexeme :: second) (hshape : lexeme.shape = .word) {c : Char}
    (hc : (join second).head? = some c) : Shape.continuesWord c = false := by
  have hscan := scan_join_right h
  rw [join_cons] at hscan
  cases htext : lexeme.text ++ join second with
  | nil =>
    rw [htext, scan] at hscan
    cases hscan
  | cons d rest =>
    rw [htext, scan, List.cons.injEq] at hscan
    obtain ⟨rfl, hrest⟩ := hscan
    rw [← hrest, join_scan, splitAfter, show Shape.ofChar d = .word from hshape] at hc
    have hstop := List.head?_dropWhile_not Shape.continuesWord rest
    rw [hc] at hstop
    simpa using hstop

/-- Two words have something between them: the first letter of the second would continue the first
one. -/
theorem join_ne_nil_of_words {text : Text} {first gaps rest : List Lexeme} {lexeme next : Lexeme}
    (h : scan text = first ++ lexeme :: (gaps ++ next :: rest)) (hshape : lexeme.shape = .word)
    (hnext : next.shape = .word) : join gaps ≠ [] := by
  intro hnil
  have hmem : next ∈ scan text := by simp [h]
  obtain ⟨c, chars, htext, hstarts, -⟩ := exists_eq_of_mem_scan hmem
  rw [hnext] at hstarts
  have hstop : Shape.continuesWord c = false :=
    continuesWord_behind h hshape (by simp [hnil, htext])
  rw [Shape.continuesWord_of_startsWord hstarts] at hstop
  cases hstop

theorem shape_eq_word {keywords : Keywords} (hsign : keywords.classify ['@'] = .decorator)
    {text : Text} {lexeme : Lexeme} (hscan : lexeme ∈ scan text) {kind : Kind}
    (hkind : lexeme.kind? keywords = some kind)
    (h : kind.isDefinition = true ∨ kind = .identifier) : lexeme.shape = .word := by
  cases hshape : lexeme.shape
  case word => rfl
  case atSign =>
    obtain ⟨c, rest, htext, hstarts, hcontinues⟩ := exists_eq_of_mem_scan hscan
    rw [hshape] at hstarts hcontinues
    have hrest : rest = [] := List.eq_nil_iff_forall_not_mem.mpr hcontinues
    rw [kind?_of_shape (.inl hshape), htext, hrest, show c = '@' from hstarts, hsign,
      Option.some.injEq] at hkind
    subst hkind
    simp [Kind.isDefinition] at h
  case spaces | tabs | control => simp [kind?, hshape] at hkind
  all_goals
    rw [kind?, hshape, Option.some.injEq] at hkind
    subst hkind
    simp [Kind.isDefinition] at h

theorem exists_gaps_of_defines {keywords : Keywords} {kind : Kind} {name text : Text}
    {lexeme : Lexeme} {behind : List Lexeme} (hscan : ∀ other ∈ behind, other ∈ scan text)
    (h : lexeme.defines keywords kind name behind = true) :
    ∃ gaps next rest, behind = gaps ++ next :: rest ∧ next.text = name ∧
      next.kind? keywords = some .identifier ∧ ∀ c ∈ join gaps, Shape.isGap c = true := by
  rw [defines, Bool.and_eq_true] at h
  cases hnext : next? keywords behind with
  | none => simp [hnext] at h
  | some next =>
    simp only [hnext, Option.any_some, Bool.and_eq_true, beq_iff_eq] at h
    obtain ⟨-, gaps, rest, rfl, hgaps⟩ := List.find?_eq_some_iff_append.mp hnext
    refine ⟨gaps, next, rest, rfl, h.2.2, h.2.1, ?_⟩
    intro c hc
    obtain ⟨chars, hchars, hc⟩ := List.mem_flatten.mp hc
    obtain ⟨gap, hgap, rfl⟩ := List.mem_map.mp hchars
    have hnone : gap.kind? keywords = none := by simpa [isToken] using hgaps gap hgap
    exact isGap_of_kind?_eq_none (hscan gap (List.mem_append_left _ hgap)) hnone c hc

end Lexeme

/-! ### The heading at a site -/

namespace Site

variable {site : Site} {source : Text}

theorem scan_source (h : site.IsIn source) :
    Lexeme.scan source = (site.above.flatMap Lexeme.scan ++ site.before) ++
      site.lexeme :: (site.behind ++ site.below.flatMap Lexeme.scan) := by
  rw [← Text.flatten_splitLines source, ← Lexeme.flatMap_scan (Text.areLines_splitLines source),
    h.lines_eq, lines, List.flatMap_append, List.flatMap_cons, h.scan_eq]
  simp

/-- The first definition of a name has a heading, whose name is a whole word. -/
theorem exists_heading {keywords : Keywords} (hsign : keywords.classify ['@'] = .decorator)
    {kind : Kind} (hdef : kind.isDefinition = true) {name : Text}
    (h : find? keywords kind name (Text.splitLines source) = some site) :
    ∃ heading : Heading source site.lexeme.text name,
      heading.before = site.above.flatten ++ Lexeme.join site.before ∧
        ∀ c, heading.after.head? = some c → Shape.continuesWord c = false := by
  obtain ⟨hsite, hkind, -⟩ := of_find?_eq_some h
  obtain ⟨-, -, -, hdefines⟩ := of_findIn?_eq_some (find?_eq_some_iff.mp h).2.2
  have hbehind : ∀ other ∈ site.behind, other ∈ Lexeme.scan source := by
    intro other hmem
    simp [scan_source hsite, hmem]
  obtain ⟨gaps, next, rest, hsplit, rfl, hnext, hgaps⟩ :=
    Lexeme.exists_gaps_of_defines hbehind hdefines
  have hmem : site.lexeme ∈ Lexeme.scan source := by simp [scan_source hsite]
  have hnextmem : next ∈ Lexeme.scan source := hbehind next (by simp [hsplit])
  have hword := Lexeme.shape_eq_word hsign hmem hkind (.inl hdef)
  have hnextword := Lexeme.shape_eq_word hsign hnextmem hnext (.inr rfl)
  have hscan : Lexeme.scan source = (site.above.flatMap Lexeme.scan ++ site.before) ++
      site.lexeme :: (gaps ++ next :: (rest ++ site.below.flatMap Lexeme.scan)) := by
    rw [scan_source hsite, hsplit]
    simp
  have hsource : source = (site.above.flatten ++ Lexeme.join site.before) ++
      (site.lexeme.text ++ (Lexeme.join gaps ++
        (next.text ++ Lexeme.join (rest ++ site.below.flatMap Lexeme.scan)))) := by
    have hjoin := congrArg Lexeme.join hscan
    rw [Lexeme.join_scan] at hjoin
    rw [hjoin]
    simp [Lexeme.join_flatMap_scan]
  have hgap := Lexeme.join_ne_nil_of_words hscan hword hnextword
  refine ⟨⟨_, _, _, hsource, hgap, hgaps⟩, rfl, ?_⟩
  intro c hc
  -- Cut before the name, the scan shows it as a lexeme of its own, which ends before `c`.
  have hsecond : Lexeme.scan source = (site.above.flatMap Lexeme.scan ++ site.before ++
      site.lexeme :: gaps) ++ next :: (rest ++ site.below.flatMap Lexeme.scan) := by
    rw [hscan]
    simp
  exact Lexeme.continuesWord_behind hsecond hnextword hc

end Site

/-! ### Extraction -/

theorem Keywords.classify_sign_python : python.classify ['@'] = .decorator := by
  decide +kernel

theorem Keywords.literalFor?_python {literal : Text} {kind : Kind} (hdef : kind.isDefinition = true)
    (h : python.classify literal = kind) : python.literalFor? kind = some literal := by
  have hall : ∀ entry ∈ python.entries, entry.2.isDefinition = true →
      python.literalFor? entry.2 = some entry.1 := by
    decide +kernel
  have hne : python.classify literal ≠ .identifier := by
    intro hword
    rw [← h, hword] at hdef
    cases hdef
  have hentry := hall _ (mem_of_classify_ne hne)
  rw [h] at hentry
  exact hentry hdef

/-- What is extracted for a name has a heading with this name, which is a whole name exactly if it
does not go on outside ASCII. A name whose headings all go on in ASCII is not found. -/
theorem extract_isWhole_iff (alphabet : Alphabet) {width : Nat} (hwidth : 1 ≤ width)
    (source : Text) (decorated : Bool) {target : Target} (hplain : target.isPlain = true) :
    (∀ text, (extract ⟨width, .python⟩ source decorated target).result = .ok text →
      ∃ listing index keyword, Listing.ofSource ⟨width, .python⟩ source = .ok listing ∧
        (listing.definitions target.kind target.name).head? = some index ∧
        listing.definitionText decorated index = .ok text ∧
        listing.tokenAt index = .ok keyword ∧
        Keywords.python.literalFor? target.kind = some keyword.literal ∧
        ∃ heading : Heading source keyword.literal target.name,
          Text.byteLength heading.before = keyword.start ∧
            (heading.IsWhole alphabet ↔ ¬ heading.LeavesAscii alphabet)) ∧
      ((∀ literal, Keywords.python.literalFor? target.kind = some literal →
          ∀ heading : Heading source literal target.name,
            ¬ heading.IsWhole alphabet ∧ ¬ heading.LeavesAscii alphabet) →
        (extract ⟨width, .python⟩ source decorated target).result =
          .error (.notFound target.kind target.name)) := by
  let dialect : Dialect := ⟨width, .python⟩
  have hresult : (extract dialect source decorated target).result = _ :=
    extract_eq hwidth source decorated hplain
  have hhead := Listing.head?_definitions_read dialect source target.kind_ne_newline target.name
  cases hfind : Site.find? dialect.keywords target.kind target.name (Text.splitLines source) with
  | none =>
    rw [hfind] at hresult
    refine ⟨?_, fun _ => hresult⟩
    intro text htext
    rw [hresult] at htext
    cases htext
  | some site =>
    rw [hfind] at hresult hhead
    obtain ⟨hsite, hkind, hname⟩ := Site.of_find?_eq_some hfind
    have hsign : dialect.keywords.classify ['@'] = .decorator := Keywords.classify_sign_python
    obtain ⟨heading, hbefore, hstop⟩ := Site.exists_heading hsign target.isDefinition_kind hfind
    have hliteral : Keywords.python.literalFor? target.kind = some site.lexeme.text := by
      have hmem : site.lexeme ∈ Lexeme.scan source := by simp [Site.scan_source hsite]
      have hword := Lexeme.shape_eq_word hsign hmem hkind (.inl target.isDefinition_kind)
      rw [Lexeme.kind?_of_shape (.inr hword), Option.some.injEq] at hkind
      exact Keywords.literalFor?_python target.isDefinition_kind hkind
    have hwhole := Heading.isWhole_iff hstop alphabet
    constructor
    · intro text htext
      refine ⟨_, _, site.token dialect target.kind, Listing.ofSource_eq_ok hwidth source, hhead, ?_,
        Site.tokenAt_index hsite hkind, hliteral, heading, ?_, hwhole⟩
      · rw [Site.definitionText_eq hsite hkind target.isDefinition_kind hname decorated]
        exact hresult.symm.trans htext
      · rw [hbefore, Site.start_token]
    · intro hall
      obtain ⟨hcut, hascii⟩ := hall _ hliteral heading
      exact absurd (hwhole.mpr hascii) hcut

theorem extract_isWhole_iff_prefix :
    let source := "class Cafe: x\nclass\t Caf(é): y\n".toList
    let snippet := "class\t Caf(é): y\n".toList
    1 ≤ 4 ∧ (Target.ofClass "Caf".toList).isPlain = true ∧
      (extract ⟨4, .python⟩ source true (.ofClass "Caf".toList)).result = .ok snippet ∧
      (∃ keyword, ∃ heading : Heading source keyword "Caf".toList, heading.IsWhole .latin) ∧
      (∀ literal, Keywords.python.literalFor? .classKeyword = some literal →
        ∀ heading : Heading source literal "Ca".toList,
          ¬ heading.IsWhole .latin ∧ ¬ heading.LeavesAscii .latin) ∧
      (extract ⟨4, .python⟩ source true (.ofClass "Ca".toList)).result =
        .error (.notFound .classKeyword "Ca".toList) := by
  intro source snippet
  have hresult : (extract ⟨4, .python⟩ source true (.ofClass "Caf".toList)).result =
      .ok snippet := by
    decide +kernel
  have hclass : ∀ literal, Keywords.python.literalFor? .classKeyword = some literal →
      "class".toList = literal := by
    intro literal hliteral
    exact Option.some.inj hliteral
  have hascii : ∀ literal, Keywords.python.literalFor? .classKeyword = some literal →
      ∀ heading : Heading source literal "Caf".toList, ¬ heading.LeavesAscii .latin := by
    intro literal hliteral heading
    obtain rfl := hclass literal hliteral
    have hafter : heading.after.head?.all (·.toNat < 128) = true :=
      heading.head?_after_of_forall (p := (·.all (·.toNat < 128))) (by decide +kernel)
    rintro ⟨c, hc, -, hlarge⟩
    rw [hc, Option.all_some, decide_eq_true_eq] at hafter
    omega
  have hprefix : ∀ literal, Keywords.python.literalFor? .classKeyword = some literal →
      ∀ heading : Heading source literal "Ca".toList,
        ¬ heading.IsWhole .latin ∧ ¬ heading.LeavesAscii .latin := by
    intro literal hliteral heading
    obtain rfl := hclass literal hliteral
    have hafter : heading.after.head? = some 'f' := by
      simpa using heading.head?_after_of_forall (p := (· == some 'f')) (by decide +kernel)
    constructor
    · intro hwhole
      exact absurd (hwhole 'f' hafter) (by decide)
    · rintro ⟨c, hc, -, hlarge⟩
      rw [hafter, Option.some.injEq] at hc
      rw [← hc] at hlarge
      exact absurd hlarge (by decide)
  obtain ⟨_, _, _, -, -, -, -, hliteral, heading, -, hwhole⟩ :=
    (extract_isWhole_iff .latin (by decide) source true rfl).1 snippet hresult
  exact ⟨by decide, rfl, hresult, ⟨_, heading, hwhole.mpr (hascii _ hliteral heading)⟩, hprefix,
    (extract_isWhole_iff .latin (by decide) source true rfl).2 hprefix⟩

/-- The name `Caf` stands in the source only as the beginning of a longer one, and is found. -/
theorem extract_isWhole_iff_accent :
    let source := "class Café: pass\n".toList
    (extract {} source true (.ofClass "Caf".toList)).result = .ok source ∧
      ∀ heading : Heading source "class".toList "Caf".toList, ¬ heading.IsWhole .latin := by
  intro source
  refine ⟨by decide +kernel, ?_⟩
  intro heading hwhole
  have hafter : heading.after.head? = some 'é' := by
    simpa using heading.head?_after_of_forall (p := (· == some 'é')) (by decide +kernel)
  exact absurd (hwhole 'é' hafter) (by decide)

end Excerpt
