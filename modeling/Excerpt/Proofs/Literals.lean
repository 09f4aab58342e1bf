import Excerpt.Proofs.Rows
/-!
# Tokens and their literals

The shape of a lexeme tells which characters it starts and goes on with. Up to their places, the
tokens of a text are its lexemes in order, with the gaps left out and the end put behind them.
-/
namespace Excerpt

namespace Shape

def Starts : Shape → Char → Prop
  | spaces, c => c = ' '
  | tabs, c => c = '\t'
  | control, c => isControl c = true
  | newline, c => c = '\n'
  | colon, c => c = ':'
  | openParen, c => c = '('
  | closeParen, c => c = ')'
  | atSign, c => c = '@'
  | word, c => startsWord c = true
  | comment, c => c = '#'
  | string, c => c = '"' ∨ c = '\''
  | other, c => isGap c = false ∧ c ≠ '\n'

/-- The characters that a lexeme of a shape goes on with; most shapes allow only one character. -/
def Continues : Shape → Char → Prop
  | spaces, c => c = ' '
  | tabs, c => c = '\t'
  | word, c => continuesWord c = true
  | comment, c => c ≠ '\n'
  | string, c => c ≠ '\n'
  | _, _ => False

private theorem ite_starts {p : Prop} [Decidable p] {first second : Shape} {c : Char}
    (hfirst : p → first.Starts c) (hsecond : ¬ p → second.Starts c) :
    (if p then first else second).Starts c := by
  split
  · next h => exact hfirst h
  · next h => exact hsecond h

theorem starts_ofChar (c : Char) : (ofChar c).Starts c := by
  unfold ofChar
  repeat
    apply ite_starts
    · exact id
    intro
  simp_all [Starts, isGap]

theorem continuesWord_of_startsWord {c : Char} (h : startsWord c = true) :
    continuesWord c = true := by
  simp only [startsWord, continuesWord, Char.isAlphanum, Bool.or_eq_true] at h ⊢
  exact h.imp_left .inl

theorem isGap_of_continuesWord {c : Char} (h : continuesWord c = true) : isGap c = false := by
  by_contra hgap
  rw [Bool.not_eq_false, isGap, isControl] at hgap
  simp only [Bool.or_eq_true, beq_iff_eq] at hgap
  rcases hgap with (rfl | rfl) | rfl | rfl <;> exact absurd h (by decide)

theorem isGap_of_shape {shape : Shape}
    (hshape : shape = .spaces ∨ shape = .tabs ∨ shape = .control) {c : Char}
    (h : shape.Starts c ∨ shape.Continues c) : isGap c = true := by
  rcases hshape with rfl | rfl | rfl <;> simp_all [Starts, Continues, isGap]

theorem isGap_eq_false_of_shape {shape : Shape}
    (hgap : ¬ (shape = .spaces ∨ shape = .tabs ∨ shape = .control))
    (hremark : shape ≠ .comment ∧ shape ≠ .string) {c : Char}
    (h : shape.Starts c ∨ shape.Continues c) : isGap c = false := by
  cases shape
  case word => exact isGap_of_continuesWord (h.elim continuesWord_of_startsWord id)
  case other => exact (h.resolve_right id).1
  case spaces | tabs | control => simp at hgap
  case comment | string => simp at hremark
  all_goals
    obtain rfl := h.resolve_right id
    decide

theorem ne_newline_of_shape {shape : Shape} (hshape : shape ≠ .newline) {c : Char}
    (h : shape.Starts c ∨ shape.Continues c) : c ≠ '\n' := by
  rintro rfl
  cases shape
  case newline => exact hshape rfl
  case control =>
    change isControl '\n' = true ∨ False at h
    revert h
    decide
  case word =>
    change startsWord '\n' = true ∨ continuesWord '\n' = true at h
    revert h
    decide
  all_goals simp [Starts, Continues] at h

end Shape

namespace Lexeme

theorem newline_not_mem_splitString (quote : Char) (rest : Text) :
    '\n' ∉ (splitString quote rest).1 := by
  fun_induction splitString quote rest <;> simp_all [eq_comm]

theorem continues_of_mem_splitAfter (c : Char) (rest : Text) :
    ∀ d ∈ (splitAfter c rest).1, (Shape.ofChar c).Continues d := by
  intro d hd
  unfold splitAfter at hd
  cases hshape : Shape.ofChar c <;> rw [hshape] at hd
  case spaces => simpa [Shape.Continues] using List.mem_takeWhile_imp hd
  case tabs => simpa [Shape.Continues] using List.mem_takeWhile_imp hd
  case word => exact List.mem_takeWhile_imp hd
  case comment => simpa [Shape.Continues] using List.mem_takeWhile_imp hd
  case string =>
    rintro rfl
    exact newline_not_mem_splitString c rest hd
  all_goals simp at hd

theorem exists_eq_of_mem_scan {text : Text} {lexeme : Lexeme} (h : lexeme ∈ scan text) :
    ∃ c rest, lexeme.text = c :: rest ∧ lexeme.shape.Starts c ∧
      ∀ d ∈ rest, lexeme.shape.Continues d := by
  fun_induction scan text with
  | case1 => simp at h
  | case2 c rest ih =>
    rcases List.mem_cons.1 h with rfl | h
    · exact ⟨c, _, rfl, Shape.starts_ofChar c, continues_of_mem_splitAfter c rest⟩
    · exact ih h

theorem text_ne_nil_of_mem_scan {text : Text} {lexeme : Lexeme} (h : lexeme ∈ scan text) :
    lexeme.text ≠ [] := by
  obtain ⟨c, rest, htext, -⟩ := exists_eq_of_mem_scan h
  simp [htext]

theorem isGap_of_mem_splitAfter {c : Char} (hc : Shape.isGap c = true) {rest : Text} :
    ∀ d ∈ (splitAfter c rest).1, Shape.isGap d = true := by
  intro d hd
  exact Shape.isGap_of_shape ((Shape.ofChar_isGap_iff c).2 hc)
    (.inr (continues_of_mem_splitAfter c rest d hd))

private theorem gap_append_splitAfter {c : Char} (hc : Shape.isGap c = true) (rest : Text) :
    c :: rest = (c :: (splitAfter c rest).1) ++ (splitAfter c rest).2 ∧
      ∀ d ∈ c :: (splitAfter c rest).1, Shape.isGap d = true := by
  refine ⟨?_, List.forall_mem_cons.2 ⟨hc, isGap_of_mem_splitAfter hc⟩⟩
  rw [List.cons_append, splitAfter_append]

theorem takeWhile_isGap {c : Char} (hc : Shape.isGap c = true) (rest : Text) :
    (c :: rest).takeWhile Shape.isGap =
      (c :: (splitAfter c rest).1) ++ (splitAfter c rest).2.takeWhile Shape.isGap := by
  obtain ⟨htext, hgaps⟩ := gap_append_splitAfter hc rest
  exact (congrArg (List.takeWhile Shape.isGap) htext).trans (List.takeWhile_append_of_pos hgaps)

theorem dropWhile_isGap {c : Char} (hc : Shape.isGap c = true) (rest : Text) :
    (c :: rest).dropWhile Shape.isGap = (splitAfter c rest).2.dropWhile Shape.isGap := by
  obtain ⟨htext, hgaps⟩ := gap_append_splitAfter hc rest
  exact (congrArg (List.dropWhile Shape.isGap) htext).trans (List.dropWhile_append_of_pos hgaps)

theorem kind?_eq_none_iff_shape (keywords : Keywords) (lexeme : Lexeme) :
    lexeme.kind? keywords = none ↔
      lexeme.shape = .spaces ∨ lexeme.shape = .tabs ∨ lexeme.shape = .control := by
  cases hshape : lexeme.shape <;> simp [kind?, hshape]

theorem isGap_of_kind?_eq_none {keywords : Keywords} {text : Text} {lexeme : Lexeme}
    (h : lexeme ∈ scan text) (hkind : lexeme.kind? keywords = none) :
    ∀ c ∈ lexeme.text, Shape.isGap c = true := by
  obtain ⟨c, rest, htext, hstarts, hcontinues⟩ := exists_eq_of_mem_scan h
  have hshape := (kind?_eq_none_iff_shape keywords lexeme).1 hkind
  rw [htext, List.forall_mem_cons]
  exact ⟨Shape.isGap_of_shape hshape (.inl hstarts),
    fun d hd => Shape.isGap_of_shape hshape (.inr (hcontinues d hd))⟩

theorem flatMap_scan {lines : List Text} (h : Text.AreLines lines) :
    lines.flatMap scan = scan lines.flatten := by
  induction lines with
  | nil => simp
  | cons line rest ih =>
    obtain ⟨-, -, hended, hrest⟩ := Text.AreLines.cons_iff.1 h
    rw [List.flatMap_cons, ih hrest, List.flatten_cons]
    by_cases hnil : rest = []
    · simp [hnil]
    · have hline := Text.eq_dropLast_append (hended hnil)
      rw [hline, List.append_assoc, List.singleton_append, scan_append_newline, scan_append_newline,
        scan_newline, scan_newline, scan_nil, List.append_assoc, List.singleton_append]

def reading? (keywords : Keywords) (lexeme : Lexeme) : Option (Kind × Text) :=
  (lexeme.kind? keywords).map fun kind => (kind, lexeme.text)

end Lexeme

namespace Token

/-- What is read at a token, apart from its place. -/
def reading (token : Token) : Kind × Text := (token.kind, token.literal)

theorem map_reading_place (keywords : Keywords) (row : Row) (offset : Nat)
    (lexemes : List Lexeme) :
    (place keywords row offset lexemes).map reading =
      lexemes.filterMap (Lexeme.reading? keywords) := by
  induction lexemes generalizing offset with
  | nil => rfl
  | cons lexeme rest ih =>
    rw [place, List.filterMap_cons, Lexeme.reading?]
    cases hkind : lexeme.kind? keywords with
    | none => simpa using ih _
    | some kind => simp [reading, ih]

theorem map_reading_ofLines (dialect : Dialect) (number start previous : Nat)
    (lines : List Text) :
    (ofLines dialect number start previous lines).map reading =
      (lines.flatMap Lexeme.scan).filterMap (Lexeme.reading? dialect.keywords) := by
  induction lines generalizing number start previous with
  | nil => rfl
  | cons line rest ih =>
    rw [ofLines_cons, List.map_append, ih, ofRow, map_reading_place, List.flatMap_cons,
      List.filterMap_append]

/-- The tokens of a text are read off its lexemes. -/
theorem map_reading_tokensOf (dialect : Dialect) (source : Text) :
    (Listing.tokensOf dialect source).map reading =
      (Lexeme.scan source).filterMap (Lexeme.reading? dialect.keywords) ++ [(.endOfInput, [])] := by
  rw [tokensOf_eq, List.map_append, map_reading_ofLines,
    Lexeme.flatMap_scan (Text.areLines_splitLines source), Text.flatten_splitLines]
  rfl

theorem exists_lexeme_of_mem_ofLines {dialect : Dialect} {source : Text} {token : Token}
    {number start previous : Nat}
    (h : token ∈ ofLines dialect number start previous (Text.splitLines source)) :
    ∃ lexeme ∈ Lexeme.scan source,
      lexeme.kind? dialect.keywords = some token.kind ∧ lexeme.text = token.literal := by
  have hmem := List.mem_map_of_mem (f := reading) h
  rw [map_reading_ofLines, Lexeme.flatMap_scan (Text.areLines_splitLines source),
    Text.flatten_splitLines] at hmem
  obtain ⟨lexeme, hlexeme, hreading⟩ := List.mem_filterMap.1 hmem
  obtain ⟨kind, hkind, hpair⟩ := Option.map_eq_some_iff.1 hreading
  simp only [reading, Prod.mk.injEq] at hpair
  exact ⟨lexeme, hlexeme, hpair.1 ▸ hkind, hpair.2⟩

theorem exists_lexeme_of_mem {dialect : Dialect} {source : Text} {token : Token}
    (h : token ∈ Listing.tokensOf dialect source) (hne : token ≠ endOf source) :
    ∃ lexeme ∈ Lexeme.scan source,
      lexeme.kind? dialect.keywords = some token.kind ∧ lexeme.text = token.literal := by
  rw [tokensOf_eq, List.mem_append, List.mem_singleton] at h
  exact exists_lexeme_of_mem_ofLines (h.resolve_right hne)

end Token

end Excerpt
