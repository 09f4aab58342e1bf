import Excerpt.Proofs.Literals
/-!
# Comments and string literals under a veil

A reader that goes through the characters of a text from left to right knows where its comments and
string literals are, and can put a plus sign in place of each of their bytes. The lexemes of the
veiled text are those of the text, with single plus signs for each comment and string literal.
-/
namespace Excerpt

/-- Where a reader is on a line: in code, in a comment, in a string literal that a quote closes, or
behind a backslash in one. -/
inductive Zone where
  | code
  | comment
  | string (quote : Char)
  | escape (quote : Char)
  deriving DecidableEq, Repr

namespace Zone

def isMark (c : Char) : Bool := c == '#' || c == '"' || c == '\''

/-- Where the reader is behind a character. Every newline leads back to code. -/
def next (zone : Zone) (c : Char) : Zone :=
  if c = '\n' then code
  else match zone with
    | code => if c = '#' then comment else if c = '"' ∨ c = '\'' then string c else code
    | comment => comment
    | string quote =>
      if c = '\\' then escape quote else if c = quote then code else string quote
    | escape quote => string quote

/-- Whether a character belongs to a comment or a string literal, of which the marks are part. -/
def covers (zone : Zone) (c : Char) : Bool :=
  c != '\n' && (zone != code || isMark c)

end Zone

/-- A text with a plus sign for each byte of its comments and string literals. -/
def Text.veil : Zone → Text → Text
  | _, [] => []
  | zone, c :: rest =>
    (if zone.covers c then List.replicate c.utf8Size '+' else [c]) ++ veil (zone.next c) rest

/-! ### Veiled texts -/

namespace Text

@[simp] theorem veil_newline (zone : Zone) (rest : Text) :
    veil zone ('\n' :: rest) = '\n' :: veil .code rest := by
  simp [veil, Zone.covers, Zone.next]

theorem veil_code_cons {c : Char} (h : Zone.isMark c = false) (rest : Text) :
    veil .code (c :: rest) = c :: veil .code rest := by
  have hnext : Zone.code.next c = .code := by
    simp_all [Zone.isMark, Zone.next]
  simp [veil, Zone.covers, h, hnext]

theorem veil_code_mark {c : Char} (h : Zone.isMark c = true) (rest : Text) :
    veil .code (c :: rest) = '+' :: veil (Zone.code.next c) rest := by
  have hsize : c ≠ '\n' ∧ c.utf8Size = 1 := by
    simp only [Zone.isMark, Bool.or_eq_true, beq_iff_eq] at h
    rcases h with (rfl | rfl) | rfl <;> decide
  simp [veil, Zone.covers, h, hsize]

theorem veil_inside {zone : Zone} (hzone : zone ≠ .code) {c : Char} (hc : c ≠ '\n')
    (rest : Text) :
    veil zone (c :: rest) = List.replicate c.utf8Size '+' ++ veil (zone.next c) rest := by
  simp [veil, Zone.covers, hzone, hc]

theorem veil_append (zone : Zone) (first second : Text) :
    veil zone (first ++ second) = veil zone first ++ veil (first.foldl Zone.next zone) second := by
  induction first generalizing zone with
  | nil => rfl
  | cons c rest ih => simp [veil, ih]

@[simp] theorem byteLength_pluses (n : Nat) : byteLength (List.replicate n '+') = n :=
  byteLength_replicate rfl n

@[simp] theorem byteLength_veil (zone : Zone) (text : Text) :
    byteLength (veil zone text) = byteLength text := by
  induction text generalizing zone with
  | nil => rfl
  | cons c rest ih =>
    rw [veil, byteLength_append, ih]
    split <;> simp

@[simp] theorem count_newline_veil (zone : Zone) (text : Text) :
    (veil zone text).count '\n' = text.count '\n' := by
  induction text generalizing zone with
  | nil => rfl
  | cons c rest ih =>
    rw [veil, List.count_append, ih, List.count_cons, Nat.add_comm]
    congr 1
    split
    · next h =>
      have hc : c ≠ '\n' := by
        rintro rfl
        simp [Zone.covers] at h
      simp [hc, List.count_replicate]
    · simp [List.count_singleton]

theorem newline_not_mem_veil {text : Text} (h : '\n' ∉ text) (zone : Zone) :
    '\n' ∉ veil zone text := by
  rw [← List.count_eq_zero, count_newline_veil, List.count_eq_zero]
  exact h

theorem head?_veil_eq_some_iff {c : Char} (hc : c ≠ '+' ∧ Zone.isMark c = false) (text : Text) :
    (veil .code text).head? = some c ↔ text.head? = some c := by
  cases text with
  | nil => rfl
  | cons d rest =>
    cases hmark : Zone.isMark d with
    | true =>
      have hd : d ≠ c := by
        rintro rfl
        simp [hmark] at hc
      simp [veil_code_mark hmark, hd, Ne.symm hc.1]
    | false => simp [veil_code_cons hmark]

theorem veil_eq_nil_iff (zone : Zone) (text : Text) : veil zone text = [] ↔ text = [] := by
  cases text with
  | nil => simp [veil]
  | cons c rest =>
    have hsize := c.utf8Size_pos
    simp only [veil, List.append_eq_nil_iff, reduceCtorEq, iff_false, not_and]
    intro h
    split at h
    · simp only [List.replicate_eq_nil_iff] at h
      omega
    · simp at h

theorem takeWhile_veil {p : Char → Bool} (h : ['+', '#', '"', '\''].any p = false)
    (text : Text) :
    (veil .code text).takeWhile p = text.takeWhile p ∧
      (veil .code text).dropWhile p = veil .code (text.dropWhile p) := by
  have hp : ∀ c ∈ ['+', '#', '"', '\''], p c = false := by
    intro c hc
    simpa using List.any_eq_false.1 h c hc
  induction text with
  | nil => exact ⟨rfl, rfl⟩
  | cons c rest ih =>
    cases hmark : Zone.isMark c with
    | true =>
      have hc : p c = false := by
        simp only [Zone.isMark, Bool.or_eq_true, beq_iff_eq] at hmark
        rcases hmark with (rfl | rfl) | rfl <;> exact hp _ (by decide)
      simp [veil_code_mark hmark, hc, hp]
    | false =>
      rw [veil_code_cons hmark]
      cases hc : p c with
      | true => simp [hc, ih]
      | false => simp [veil_code_cons hmark, hc]

theorem veil_comment (rest : Text) :
    veil .comment rest = List.replicate (byteLength (rest.takeWhile (· ≠ '\n'))) '+' ++
      veil .code (rest.dropWhile (· ≠ '\n')) := by
  induction rest with
  | nil => rfl
  | cons c rest ih =>
    by_cases hc : c = '\n'
    · simp [hc]
    · have hnext : Zone.comment.next c = .comment := by simp [Zone.next, hc]
      rw [veil_inside (by simp) hc, hnext, ih, List.takeWhile_cons_of_pos (by simpa using hc),
        List.dropWhile_cons_of_pos (by simpa using hc), byteLength_cons,
        ← List.replicate_append_replicate, List.append_assoc]

theorem veil_string {quote : Char} (hquote : quote ≠ '\\') (rest : Text) :
    veil (.string quote) rest =
      List.replicate (byteLength (Lexeme.splitString quote rest).1) '+' ++
        veil .code (Lexeme.splitString quote rest).2 := by
  have hback : (Zone.string quote).next '\\' = .escape quote := by simp [Zone.next]
  fun_induction Lexeme.splitString quote rest with
  | case1 => rfl
  | case2 rest =>
    rw [veil_inside (by simp) (by decide), hback]
    simp
  | case3 c rest hc ih =>
    have hnext : (Zone.escape quote).next c = .string quote := by simp [Zone.next, hc]
    rw [veil_inside (by simp) (by decide), hback, veil_inside (by simp) hc, hnext, ih,
      byteLength_cons, byteLength_cons, ← List.replicate_append_replicate,
      ← List.replicate_append_replicate, List.append_assoc, List.append_assoc]
  | case4 rest => simp
  | case5 rest hrest hn =>
    have hnext : (Zone.string quote).next quote = .code := by simp [Zone.next, hn, hquote]
    rw [veil_inside (by simp) hn, hnext]
    simp
  | case6 c rest hrest hn hq ih =>
    rw [veil_inside (by simp) hn]
    by_cases hc : c = '\\'
    · -- A backslash stands here only at the end of the text.
      have hnil : rest = [] := by
        cases rest with
        | nil => rfl
        | cons d rest => exact (hrest d rest hc rfl).elim
      subst hc hnil
      simp [veil, Lexeme.splitString]
    · have hnext : (Zone.string quote).next c = .string quote := by simp [Zone.next, hn, hc, hq]
      rw [hnext, ih, byteLength_cons, ← List.replicate_append_replicate, List.append_assoc]

/-- A comment or string literal is veiled as a whole, up to where its lexeme ends. -/
theorem veil_remark {c : Char} (hc : Zone.isMark c = true) (rest : Text) :
    veil .code (c :: rest) =
      List.replicate (byteLength (c :: (Lexeme.splitAfter c rest).1)) '+' ++
        veil .code (Lexeme.splitAfter c rest).2 := by
  rw [veil_code_mark hc, byteLength_cons, ← List.replicate_append_replicate, List.append_assoc]
  simp only [Zone.isMark, Bool.or_eq_true, beq_iff_eq] at hc
  rcases hc with (rfl | rfl) | rfl
  · exact congrArg ('+' :: ·) (veil_comment rest)
  · exact congrArg ('+' :: ·) (veil_string (by decide) rest)
  · exact congrArg ('+' :: ·) (veil_string (by decide) rest)

end Text

namespace Lexeme

def veil (lexeme : Lexeme) : List Lexeme :=
  if lexeme.shape = .comment ∨ lexeme.shape = .string then
    List.replicate (Text.byteLength lexeme.text) ⟨.other, ['+']⟩
  else [lexeme]

theorem isMark_iff (c : Char) :
    Zone.isMark c = true ↔ Shape.ofChar c = .comment ∨ Shape.ofChar c = .string := by
  have hstarts := Shape.starts_ofChar c
  simp only [Zone.isMark, Bool.or_eq_true, beq_iff_eq]
  constructor
  · rintro ((rfl | rfl) | rfl) <;> decide
  · rintro (h | h) <;> rw [h] at hstarts
    · exact .inl (.inl hstarts)
    · exact hstarts.elim (fun h => .inl (.inr h)) .inr

theorem scan_pluses (n : Nat) (rest : Text) :
    scan (List.replicate n '+' ++ rest) = List.replicate n ⟨.other, ['+']⟩ ++ scan rest := by
  induction n with
  | zero => rfl
  | succ n ih =>
    have hplus : ∀ rest, scan ('+' :: rest) = ⟨.other, ['+']⟩ :: scan rest := by
      intro rest
      rw [scan]
      rfl
    rw [List.replicate_succ, List.cons_append, hplus, ih, List.replicate_succ, List.cons_append]

theorem splitAfter_veil {c : Char} (hc : Zone.isMark c = false) (rest : Text) :
    splitAfter c (Text.veil .code rest) =
      ((splitAfter c rest).1, Text.veil .code (splitAfter c rest).2) := by
  have hrun : ∀ p : Char → Bool, ['+', '#', '"', '\''].any p = false →
      ((Text.veil .code rest).takeWhile p, (Text.veil .code rest).dropWhile p) =
        (rest.takeWhile p, Text.veil .code (rest.dropWhile p)) := by
    intro p hp
    rw [(Text.takeWhile_veil hp rest).1, (Text.takeWhile_veil hp rest).2]
  have hremark := isMark_iff c
  unfold splitAfter
  cases hshape : Shape.ofChar c
  case spaces => exact hrun _ (by decide)
  case tabs => exact hrun _ (by decide)
  case word => exact hrun _ (by decide)
  case comment | string => simp [hshape, hc] at hremark
  all_goals rfl

/-- A veil over a text is one over each of its lexemes. -/
theorem scan_veil (text : Text) : scan (Text.veil .code text) = (scan text).flatMap veil := by
  fun_induction scan text with
  | case1 => simp [Text.veil, scan]
  | case2 c rest ih =>
    rw [List.flatMap_cons, ← ih]
    have hshape := isMark_iff c
    cases hmark : Zone.isMark c with
    | true =>
      rw [Text.veil_remark hmark, scan_pluses, veil, if_pos (hshape.1 hmark)]
    | false =>
      rw [Text.veil_code_cons hmark, scan, splitAfter_veil hmark, veil,
        if_neg (by simp [← hshape, hmark])]
      rfl

end Lexeme

namespace Indent

theorem isBare_iff (line : Text) : isBare line = true ↔
    (afterRun line).dropWhile Shape.isControl = [] ∨
      ((afterRun line).dropWhile Shape.isControl).head? = some '\n' := by
  unfold isBare
  cases (afterRun line).dropWhile Shape.isControl <;> simp

theorem depth?_veil (width : Nat) (line : Text) :
    depth? width (Text.veil .code line) = depth? width line := by
  have hafter : afterRun (Text.veil .code line) = Text.veil .code (afterRun line) := by
    simp only [afterRun, Text.head?_veil_eq_some_iff (by decide : ' ' ≠ '+' ∧ _)]
    split <;> exact (Text.takeWhile_veil (by decide) line).2
  have hbare : isBare (Text.veil .code line) = isBare line := by
    rw [Bool.eq_iff_iff, isBare_iff, isBare_iff, hafter, (Text.takeWhile_veil (by decide) _).2,
      Text.veil_eq_nil_iff, Text.head?_veil_eq_some_iff (by decide)]
  rw [depth?, depth?, hbare, level, level, (Text.takeWhile_veil (by decide) line).1,
    (Text.takeWhile_veil (by decide) line).1]

end Indent

/-! ### Veiled lines -/

namespace Text

theorem foldl_next_of_endsLine {text : Text} (h : EndsLine text) :
    text.foldl Zone.next .code = .code := by
  rcases h with rfl | h
  · rfl
  · rw [eq_dropLast_append h, List.foldl_append]
    simp [Zone.next]

theorem veil_append_of_endsLine {first : Text} (h : EndsLine first) (second : Text) :
    veil .code (first ++ second) = veil .code first ++ veil .code second := by
  rw [veil_append, foldl_next_of_endsLine h]

theorem getLast?_veil {text : Text} (h : text.getLast? = some '\n') (zone : Zone) :
    veil zone text = veil zone text.dropLast ++ ['\n'] := by
  rw [eq_dropLast_append h, veil_append, List.dropLast_concat, veil_newline]
  rfl

theorem areLines_map_veil {lines : List Text} (h : AreLines lines) :
    AreLines (lines.map (veil .code)) ∧
      (lines.map (veil .code)).flatten = veil .code lines.flatten := by
  induction lines with
  | nil => exact ⟨.nil, rfl⟩
  | cons line rest ih =>
    obtain ⟨hne, hsingle, hended, hrest⟩ := AreLines.cons_iff.1 h
    obtain ⟨hlines, hjoin⟩ := ih hrest
    rw [List.map_cons, List.flatten_cons, List.flatten_cons, hjoin, AreLines.cons_iff]
    by_cases hlast : line.getLast? = some '\n'
    · rw [veil_append_of_endsLine (.inr hlast), getLast?_veil hlast]
      have hbody := newline_not_mem_veil hsingle .code
      simp [hlines, hbody]
    · have hnil : rest = [] := Classical.byContradiction fun hr => hlast (hended hr)
      have hline := newline_not_mem hsingle hlast
      have hbody : '\n' ∉ (veil .code line).dropLast := fun hmem =>
        newline_not_mem_veil hline .code (List.dropLast_subset _ hmem)
      subst hnil
      simp [veil, veil_eq_nil_iff, hne, hbody, AreLines.nil]

theorem splitLines_veil (text : Text) :
    splitLines (veil .code text) = (splitLines text).map (veil .code) := by
  obtain ⟨hlines, hjoin⟩ := areLines_map_veil (areLines_splitLines text)
  rw [flatten_splitLines] at hjoin
  rw [← hjoin, splitLines_flatten hlines]

theorem unfinishedLine_veil (text : Text) :
    unfinishedLine (veil .code text) = veil .code (unfinishedLine text) := by
  obtain ⟨front, hfront, htext⟩ := exists_eq_append_unfinishedLine text
  have hveil : EndsLine (veil .code front) := by
    rcases hfront with rfl | hlast
    · exact .inl rfl
    · exact .inr (by simp [getLast?_veil hlast])
  have hrest := newline_not_mem_veil (newline_not_mem_unfinishedLine text) .code
  rw [htext, veil_append_of_endsLine hfront, hveil.unfinishedLine_append,
    hfront.unfinishedLine_append, unfinishedLine_of_not_mem hrest,
    unfinishedLine_of_not_mem (newline_not_mem_unfinishedLine text)]

end Text

end Excerpt
