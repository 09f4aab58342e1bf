import Excerpt.Proofs.Veil
/-!
# Carriage returns before newlines

With a carriage return before each of its newlines a text has the same lines, at the same depths.
The lexemes of a line stay the same up to its newline, where the carriage return is a gap of its own
or, behind a comment or an open string literal, becomes the last character of that.
-/
namespace Excerpt

namespace Text

/-- A text with a carriage return before each of its newlines. -/
def crlf (text : Text) : Text := text.flatMap fun c => if c = '\n' then ['\r', '\n'] else [c]

def isOpen (text : Text) : Bool := text.foldl Zone.next .code != .code

@[simp] theorem crlf_nil : crlf [] = [] := rfl

@[simp] theorem crlf_newline (rest : Text) : crlf ('\n' :: rest) = '\r' :: '\n' :: crlf rest := rfl

theorem crlf_cons {c : Char} (h : c ≠ '\n') (rest : Text) : crlf (c :: rest) = c :: crlf rest := by
  simp [crlf, h]

@[simp] theorem crlf_append (first second : Text) :
    crlf (first ++ second) = crlf first ++ crlf second :=
  List.flatMap_append

theorem flatten_map_crlf (texts : List Text) : (texts.map crlf).flatten = crlf texts.flatten := by
  induction texts with
  | nil => rfl
  | cons text rest ih => simp [ih]

theorem crlf_of_not_mem {text : Text} (h : '\n' ∉ text) : crlf text = text := by
  induction text with
  | nil => rfl
  | cons c rest ih =>
    rw [List.mem_cons, not_or] at h
    rw [crlf_cons (Ne.symm h.1), ih h.2]

theorem count_newline_crlf (text : Text) : (crlf text).count '\n' = text.count '\n' := by
  induction text with
  | nil => rfl
  | cons c rest ih =>
    by_cases hc : c = '\n'
    · simp [hc, ih]
    · simp [crlf_cons hc, ih, hc]

theorem takeWhile_crlf {p : Char → Bool} (hnewline : p '\n' = false) (hreturn : p '\r' = false)
    (text : Text) :
    (crlf text).takeWhile p = text.takeWhile p ∧
      (crlf text).dropWhile p = crlf (text.dropWhile p) := by
  induction text with
  | nil => exact ⟨rfl, rfl⟩
  | cons c rest ih =>
    by_cases hc : c = '\n'
    · simp [hc, hnewline, hreturn]
    · rw [crlf_cons hc]
      cases hp : p c with
      | true => simp [hp, ih]
      | false => simp [hp, crlf_cons hc]

/-! ### Lines -/

theorem crlf_eq_of_getLast? {line : Text} (hsingle : '\n' ∉ line.dropLast)
    (hlast : line.getLast? = some '\n') : crlf line = line.dropLast ++ ['\r', '\n'] := by
  rw [eq_dropLast_append hlast, crlf_append, List.dropLast_concat, crlf_of_not_mem hsingle]
  rfl

theorem areLines_map_crlf {lines : List Text} (h : AreLines lines) :
    AreLines (lines.map crlf) := by
  induction lines with
  | nil => exact .nil
  | cons line rest ih =>
    obtain ⟨hne, hsingle, hended, hrest⟩ := AreLines.cons_iff.1 h
    rw [List.map_cons, AreLines.cons_iff]
    by_cases hlast : line.getLast? = some '\n'
    · have hbody : '\n' ∉ (line.dropLast ++ ['\r', '\n']).dropLast := by
        simp [List.dropLast_append_of_ne_nil, hsingle]
      rw [crlf_eq_of_getLast? hsingle hlast]
      exact ⟨by simp, hbody, by simp, ih hrest⟩
    · rw [crlf_of_not_mem (newline_not_mem hsingle hlast)]
      refine ⟨hne, hsingle, ?_, ih hrest⟩
      intro hmore
      exact hended (by simpa using hmore)

theorem splitLines_crlf (text : Text) : splitLines (crlf text) = (splitLines text).map crlf := by
  have hlines := splitLines_flatten (areLines_map_crlf (areLines_splitLines text))
  rwa [flatten_map_crlf, flatten_splitLines] at hlines

theorem EndsLine.crlf {text : Text} (h : EndsLine text) : EndsLine (crlf text) := by
  rcases h with rfl | hlast
  · exact .inl rfl
  · right
    rw [eq_dropLast_append hlast, crlf_append]
    simp

theorem unfinishedLine_crlf (text : Text) : unfinishedLine (crlf text) = unfinishedLine text := by
  obtain ⟨front, hfront, htext⟩ := exists_eq_append_unfinishedLine text
  have hlast := newline_not_mem_unfinishedLine text
  rw [htext, crlf_append, hfront.crlf.unfinishedLine_append, hfront.unfinishedLine_append,
    crlf_of_not_mem hlast, unfinishedLine_of_not_mem hlast]

end Text

/-! ### Indentation -/

namespace Indent

theorem level_crlf (width : Nat) (line : Text) : level width (Text.crlf line) = level width line := by
  rw [level, level, (Text.takeWhile_crlf rfl rfl line).1, (Text.takeWhile_crlf rfl rfl line).1]

private theorem head?_dropWhile_crlf (text : Text) :
    ((Text.crlf text).dropWhile Shape.isControl).head? =
      (text.dropWhile Shape.isControl).head? := by
  induction text with
  | nil => rfl
  | cons c rest ih =>
    by_cases hc : c = '\n'
    · subst hc
      rfl
    · rw [Text.crlf_cons hc]
      cases hcontrol : Shape.isControl c with
      | true => simpa [hcontrol] using ih
      | false => simp [hcontrol]

theorem depth?_crlf (width : Nat) (line : Text) :
    depth? width (Text.crlf line) = depth? width line := by
  have hhead : (Text.crlf line).head? = some ' ' ↔ line.head? = some ' ' := by
    cases line with
    | nil => rfl
    | cons c rest =>
      by_cases hc : c = '\n'
      · simp [hc]
      · simp [Text.crlf_cons hc]
  have hafter : afterRun (Text.crlf line) = Text.crlf (afterRun line) := by
    simp only [afterRun, hhead]
    split
    · exact (Text.takeWhile_crlf rfl rfl line).2
    · exact (Text.takeWhile_crlf rfl rfl line).2
  have hbare : isBare (Text.crlf line) = isBare line := by
    rw [Bool.eq_iff_iff, isBare_iff, isBare_iff, hafter, ← List.head?_eq_none_iff,
      ← List.head?_eq_none_iff, head?_dropWhile_crlf]
  rw [depth?, depth?, hbare, level_crlf]

end Indent

/-! ### Lexemes -/

theorem Zone.foldl_code {text : Text} (h : ∀ c ∈ text, isMark c = false) :
    text.foldl next .code = .code := by
  induction text with
  | nil => rfl
  | cons c rest ih =>
    obtain ⟨hc, hrest⟩ := List.forall_mem_cons.1 h
    have hnext : code.next c = .code := by simp_all [isMark, next]
    rw [List.foldl_cons, hnext, ih hrest]

theorem Shape.isMark_of_continues {shape : Shape} (h : shape ≠ .comment ∧ shape ≠ .string)
    {c : Char} (hc : shape.Continues c) : Zone.isMark c = false := by
  cases shape
  case comment | string => simp at h
  case word =>
    rw [← Bool.not_eq_true]
    intro hmark
    simp only [Zone.isMark, Bool.or_eq_true, beq_iff_eq] at hmark
    change continuesWord c = true at hc
    rcases hmark with (rfl | rfl) | rfl <;> exact absurd hc (by decide)
  all_goals simp_all [Continues, Zone.isMark]

namespace Lexeme

/-- How the lexemes of a line change when a carriage return is put before its newline: it is a gap
of its own, unless a comment or an open string literal takes it up. -/
inductive Returns : List Lexeme → List Lexeme → Prop
  | nil : Returns [] []
  | keep {lexeme : Lexeme} {rest rest' : List Lexeme} (hnewline : '\n' ∉ lexeme.text)
      (hopen : lexeme.text.isOpen = true → rest = []) (h : Returns rest rest') :
      Returns (lexeme :: rest) (lexeme :: rest')
  | gap : Returns [⟨.newline, ['\n']⟩] [⟨.control, ['\r']⟩, ⟨.newline, ['\n']⟩]
  | taken {shape : Shape} {text : Text} (hnewline : '\n' ∉ text)
      (hshape : shape = .comment ∨ shape = .string) (hopen : text.isOpen = true) :
      Returns [⟨shape, text⟩, ⟨.newline, ['\n']⟩]
        [⟨shape, text ++ ['\r']⟩, ⟨.newline, ['\n']⟩]

theorem kind?_remark {shape : Shape} (h : shape = .comment ∨ shape = .string)
    (keywords : Keywords) (text : Text) : kind? keywords ⟨shape, text⟩ = some .ignored := by
  rcases h with rfl | rfl
  · rfl
  · rfl

/-- How a cut behind a lexeme changes, of which the reader is in a zone: not at all, or, where the
lexeme is still open and a newline follows, by a carriage return before the cut. -/
inductive CutReturns (zone : Zone) : Text × Text → Text × Text → Prop
  | same {first second : Text} (h : first.foldl Zone.next zone ≠ .code → second = []) :
      CutReturns zone (first, second) (first, Text.crlf second)
  | longer {first tail : Text} (h : first.foldl Zone.next zone ≠ .code) :
      CutReturns zone (first, '\n' :: tail) (first ++ ['\r'], '\n' :: Text.crlf tail)

theorem CutReturns.cons {zone : Zone} {c : Char} {cut cut' : Text × Text}
    (h : CutReturns (zone.next c) cut cut') :
    CutReturns zone (c :: cut.1, cut.2) (c :: cut'.1, cut'.2) := by
  cases h with
  | same hopen => exact .same hopen
  | longer hopen => exact .longer hopen

theorem splitString_crlf {quote : Char} (hquote : quote ≠ '\\') (hreturn : '\r' ≠ quote)
    (rest : Text) :
    CutReturns (.string quote) (splitString quote rest) (splitString quote (Text.crlf rest)) := by
  have hback : (Zone.string quote).next '\\' = .escape quote := by simp [Zone.next]
  fun_induction splitString quote rest with
  | case1 => exact .same fun _ => rfl
  | case2 rest =>
    have hcut : splitString quote (Text.crlf ('\\' :: '\n' :: rest)) =
        (['\\'] ++ ['\r'], '\n' :: Text.crlf rest) := by
      simp [Text.crlf_cons, splitString]
    rw [hcut]
    exact .longer (by simp [hback])
  | case3 c rest hc ih =>
    have hnext : (Zone.escape quote).next c = .string quote := by simp [Zone.next, hc]
    rw [← hnext] at ih
    have hescaped := ih.cons
    rw [← hback] at hescaped
    rw [Text.crlf_cons (by decide), Text.crlf_cons hc, splitString, if_neg hc]
    exact hescaped.cons
  | case4 rest =>
    have hcut : splitString quote (Text.crlf ('\n' :: rest)) =
        ([] ++ ['\r'], '\n' :: Text.crlf rest) := by
      simp [splitString, hreturn]
    rw [hcut]
    exact .longer (by simp)
  | case5 rest hrest hn =>
    have hnext : (Zone.string quote).next quote = .code := by simp [Zone.next, hn, hquote]
    rw [Text.crlf_cons hn, splitString_cons hquote hn, if_pos rfl]
    exact .same (by simp [hnext])
  | case6 c rest hrest hn hq ih =>
    by_cases hc : c = '\\'
    · -- A backslash stands here only at the end of the text.
      have hnil : rest = [] := by
        cases rest with
        | nil => rfl
        | cons d rest => exact (hrest d rest hc rfl).elim
      subst hc hnil
      have hcut : splitString quote ['\\'] = (['\\'], []) := splitString_backslash quote (by simp)
      rw [Text.crlf_of_not_mem (by decide), hcut]
      exact .same fun _ => rfl
    · have hnext : (Zone.string quote).next c = .string quote := by simp [Zone.next, hn, hc, hq]
      rw [← hnext] at ih
      rw [Text.crlf_cons hn, splitString_cons hc hn, if_neg hq]
      exact ih.cons

theorem splitComment_crlf (rest : Text) :
    CutReturns .comment (rest.takeWhile (· ≠ '\n'), rest.dropWhile (· ≠ '\n'))
      ((Text.crlf rest).takeWhile (· ≠ '\n'), (Text.crlf rest).dropWhile (· ≠ '\n')) := by
  induction rest with
  | nil => exact .same fun _ => rfl
  | cons c rest ih =>
    by_cases hc : c = '\n'
    · subst hc
      show CutReturns .comment ([], '\n' :: rest) ([] ++ ['\r'], '\n' :: Text.crlf rest)
      exact .longer (by simp)
    · have hnext : Zone.comment.next c = .comment := by simp [Zone.next, hc]
      rw [← hnext] at ih
      rw [Text.crlf_cons hc, List.takeWhile_cons_of_pos (by simpa using hc),
        List.takeWhile_cons_of_pos (by simpa using hc),
        List.dropWhile_cons_of_pos (by simpa using hc),
        List.dropWhile_cons_of_pos (by simpa using hc)]
      exact ih.cons

theorem splitAfter_crlf_of_mark {c : Char} (hc : Zone.isMark c = true) (rest : Text) :
    CutReturns (Zone.code.next c) (splitAfter c rest) (splitAfter c (Text.crlf rest)) := by
  simp only [Zone.isMark, Bool.or_eq_true, beq_iff_eq] at hc
  rcases hc with (rfl | rfl) | rfl
  · exact splitComment_crlf rest
  · exact splitString_crlf (by decide) (by decide) rest
  · exact splitString_crlf (by decide) (by decide) rest

theorem splitAfter_crlf {c : Char} (hc : Zone.isMark c = false) (rest : Text) :
    splitAfter c (Text.crlf rest) =
      ((splitAfter c rest).1, Text.crlf (splitAfter c rest).2) := by
  have hrun : ∀ p : Char → Bool, p '\n' = false → p '\r' = false →
      ((Text.crlf rest).takeWhile p, (Text.crlf rest).dropWhile p) =
        (rest.takeWhile p, Text.crlf (rest.dropWhile p)) := by
    intro p hnewline hreturn
    rw [(Text.takeWhile_crlf hnewline hreturn rest).1, (Text.takeWhile_crlf hnewline hreturn rest).2]
  have hremark := isMark_iff c
  unfold splitAfter
  cases hshape : Shape.ofChar c
  case spaces => exact hrun _ rfl rfl
  case tabs => exact hrun _ rfl rfl
  case word => exact hrun _ rfl rfl
  case comment | string => simp [hshape, hc] at hremark
  all_goals rfl

theorem newline_not_mem_splitAfter (c : Char) (rest : Text) : '\n' ∉ (splitAfter c rest).1 := by
  intro hmem
  have hcontinues := continues_of_mem_splitAfter c rest '\n' hmem
  have hshape : Shape.ofChar c ≠ .newline := by
    intro hshape
    rw [hshape] at hcontinues
    exact hcontinues
  exact Shape.ne_newline_of_shape hshape (.inr hcontinues) rfl

theorem isOpen_of_not_mark {c : Char} (hc : Zone.isMark c = false) (rest : Text) :
    Text.isOpen (c :: (splitAfter c rest).1) = false := by
  have hshape : Shape.ofChar c ≠ .comment ∧ Shape.ofChar c ≠ .string := by
    rw [← not_or, ← isMark_iff, hc]
    simp
  have hcode : (c :: (splitAfter c rest).1).foldl Zone.next .code = .code := by
    apply Zone.foldl_code
    rw [List.forall_mem_cons]
    exact ⟨hc, fun d hd =>
      Shape.isMark_of_continues hshape (continues_of_mem_splitAfter c rest d hd)⟩
  simp [Text.isOpen, hcode]

private theorem newline_not_mem_rest {c : Char} {rest : Text} (h : '\n' ∉ (c :: rest).dropLast) :
    '\n' ∉ (splitAfter c rest).2.dropLast := by
  intro hmem
  apply h
  have hne : (splitAfter c rest).2 ≠ [] := by
    intro hnil
    simp [hnil] at hmem
  rw [← splitAfter_append c rest, ← List.cons_append, List.dropLast_append_of_ne_nil hne]
  exact List.mem_append_right _ hmem

/-- A carriage return before the newline of a line keeps its lexemes, up to the newline. -/
theorem returns_scan {line : Text} (h : '\n' ∉ line.dropLast) :
    Returns (scan line) (scan (Text.crlf line)) := by
  fun_induction scan line with
  | case1 => simpa [scan] using Returns.nil
  | case2 c rest ih =>
    by_cases hc : c = '\n'
    · have hrest : rest = [] := by
        by_contra hne
        simp [List.dropLast_cons_of_ne_nil hne, hc] at h
      subst hc hrest
      have hcut : scan (Text.crlf ['\n']) = [⟨.control, ['\r']⟩, ⟨.newline, ['\n']⟩] := by
        simp [scan, splitAfter, Shape.ofChar, Shape.isControl]
      have hline : (⟨Shape.ofChar '\n', '\n' :: (splitAfter '\n' []).1⟩ : Lexeme) ::
          scan (splitAfter '\n' []).2 = [⟨.newline, ['\n']⟩] := by
        rw [← scan_nil, ← scan_newline, scan]
      rw [hcut, hline]
      exact .gap
    · have hsingle := newline_not_mem_rest h
      have hafter := ih hsingle
      have hfirst : '\n' ∉ c :: (splitAfter c rest).1 := by
        rw [List.mem_cons, not_or]
        exact ⟨Ne.symm hc, newline_not_mem_splitAfter c rest⟩
      rw [Text.crlf_cons hc, scan]
      cases hmark : Zone.isMark c with
      | false =>
        rw [splitAfter_crlf hmark]
        refine .keep hfirst ?_ hafter
        intro hopen
        rw [isOpen_of_not_mark hmark] at hopen
        cases hopen
      | true =>
        have hshape := (isMark_iff c).1 hmark
        have hcut := splitAfter_crlf_of_mark hmark rest
        generalize splitAfter c rest = cut at hsingle hafter hfirst hcut
        generalize splitAfter c (Text.crlf rest) = cut' at hcut
        cases hcut with
        | @same first second hsame =>
          refine .keep hfirst ?_ hafter
          intro hopen
          rw [hsame (by simpa [Text.isOpen] using hopen), scan]
        | @longer first tail hopen =>
          have htail : tail = [] := by
            by_contra hne
            simp [List.dropLast_cons_of_ne_nil hne] at hsingle
          subst htail
          rw [Text.crlf_nil, scan_newline, scan_nil]
          exact .taken hfirst hshape (by simpa [Text.isOpen] using hopen)

end Lexeme

end Excerpt
