import Excerpt.Lexeme
import Mathlib.Data.List.TakeWhile
/-!
# Cutting between lexemes

A text that is cut between two lexemes, or at a newline, falls into the lexemes of its parts:
no lexeme looks past the character that ends it, and none reaches past a newline.
-/
namespace Excerpt.Lexeme

def join (lexemes : List Lexeme) : Text := (lexemes.map Lexeme.text).flatten

@[simp] theorem join_nil : join [] = [] := rfl

@[simp] theorem join_cons (lexeme : Lexeme) (rest : List Lexeme) :
    join (lexeme :: rest) = lexeme.text ++ join rest := rfl

@[simp] theorem join_append (first second : List Lexeme) :
    join (first ++ second) = join first ++ join second := by
  simp [join]

@[simp] theorem scan_nil : scan [] = [] := by rw [scan]

@[simp] theorem join_scan (text : Text) : join (scan text) = text := flatten_scan text

/-! ### What ends a lexeme -/

private theorem takeWhile_stable {p : Char → Bool} {rest tail : Text}
    (h : ∀ c, tail.head? = some c → p c = false) :
    (rest.takeWhile p ++ tail).takeWhile p = rest.takeWhile p ∧
      (rest.takeWhile p ++ tail).dropWhile p = tail := by
  have hall : ∀ c ∈ rest.takeWhile p, p c = true := fun c hc => List.mem_takeWhile_imp hc
  rw [List.takeWhile_append_of_pos hall, List.dropWhile_append_of_pos hall]
  cases tail with
  | nil => simp
  | cons c tail => simp [h c rfl]

private theorem head_dropWhile {p : Char → Bool} {rest : Text} {c : Char}
    (h : (rest.dropWhile p).head? = some c) : p c = false := by
  have hhead := List.head?_dropWhile_not p rest
  rw [h] at hhead
  simpa using hhead

private theorem splitString_newline (quote : Char) {tail : Text}
    (h : ∀ c, tail.head? = some c → c = '\n') : splitString quote tail = ([], tail) := by
  cases tail with
  | nil => rfl
  | cons c tail =>
    obtain rfl := h c rfl
    simp [splitString]

theorem splitString_backslash (quote : Char) {tail : Text}
    (h : ∀ c, tail.head? = some c → c = '\n') :
    splitString quote ('\\' :: tail) = (['\\'], tail) := by
  cases tail with
  | nil =>
    rw [splitString]
    · simp [splitString]
    · simp
  | cons c tail =>
    obtain rfl := h c rfl
    simp [splitString]

theorem splitString_cons {quote c : Char} (hc : c ≠ '\\') (hn : c ≠ '\n') (rest : Text) :
    splitString quote (c :: rest) = if c = quote then ([c], rest)
      else (c :: (splitString quote rest).1, (splitString quote rest).2) := by
  rw [splitString]
  · simp [hn]
  · intro _ _ heq
    exact absurd heq hc

private theorem splitString_stable (quote : Char) (rest : Text) {tail : Text}
    (h : ∀ c, tail.head? = some c → c = '\n' ∨ (splitString quote rest).2.head? = some c) :
    splitString quote ((splitString quote rest).1 ++ tail) = ((splitString quote rest).1, tail) := by
  fun_induction splitString quote rest with
  | case1 => exact splitString_newline quote (by simpa using h)
  | case2 rest => exact splitString_backslash quote (by simpa [eq_comm] using h)
  | case3 c rest hc ih =>
    have htail := ih h
    simp [splitString, hc, htail]
  | case4 rest => exact splitString_newline quote (by simpa [eq_comm] using h)
  | case5 rest hrest hn =>
    by_cases hc : quote = '\\'
    · -- A quote that is itself a backslash has nothing behind it here.
      have hnil : rest = [] := by
        cases rest with
        | nil => rfl
        | cons d rest => exact (hrest d rest hc rfl).elim
      subst hc hnil
      exact splitString_backslash _ (by simpa using h)
    · rw [List.singleton_append, splitString_cons hc hn, if_pos rfl]
  | case6 c rest hrest hn hq ih =>
    by_cases hc : c = '\\'
    · have hnil : rest = [] := by
        cases rest with
        | nil => rfl
        | cons d rest => exact (hrest d rest hc rfl).elim
      subst hc hnil
      exact splitString_backslash _ (by simpa [splitString] using h)
    · rw [List.cons_append, splitString_cons hc hn, if_neg hq, ih h]

/-- A lexeme ends in the same way before a newline, or before the character that ended it, whatever
comes next. -/
private theorem splitAfter_stable (c : Char) (rest : Text) {tail : Text}
    (h : ∀ d, tail.head? = some d → d = '\n' ∨ (splitAfter c rest).2.head? = some d) :
    splitAfter c ((splitAfter c rest).1 ++ tail) = ((splitAfter c rest).1, tail) := by
  have hrun : ∀ p : Char → Bool, p '\n' = false →
      (∀ d, tail.head? = some d → d = '\n' ∨ (rest.dropWhile p).head? = some d) →
      ((rest.takeWhile p ++ tail).takeWhile p, (rest.takeWhile p ++ tail).dropWhile p) =
        (rest.takeWhile p, tail) := by
    intro p hp hhead
    have hstop : ∀ d, tail.head? = some d → p d = false := by
      intro d hd
      rcases hhead d hd with rfl | hd
      · exact hp
      · exact head_dropWhile hd
    rw [(takeWhile_stable hstop).1, (takeWhile_stable hstop).2]
  unfold splitAfter at h ⊢
  split
  · next hs => exact hrun _ rfl (by simpa [hs] using h)
  · next hs => exact hrun _ rfl (by simpa [hs] using h)
  · next hs => exact hrun _ rfl (by simpa [hs] using h)
  · next hs => exact hrun _ rfl (by simpa [hs] using h)
  · next hs => exact splitString_stable c rest (by simpa [hs] using h)
  · simp

/-! ### Cutting a scan -/

/-- A text that starts with some of the lexemes of another text, and goes on with a newline or as
that text does, starts with those lexemes. -/
theorem scan_join_append {text tail : Text} {first second : List Lexeme}
    (h : scan text = first ++ second)
    (htail : ∀ c, tail.head? = some c → c = '\n' ∨ (join second).head? = some c) :
    scan (join first ++ tail) = first ++ scan tail := by
  induction first generalizing text with
  | nil => rfl
  | cons lexeme first ih =>
    cases text with
    | nil => simp [scan] at h
    | cons c rest =>
      rw [scan, List.cons_append, List.cons.injEq] at h
      obtain ⟨rfl, hrest⟩ := h
      have hstop : ∀ d, (join first ++ tail).head? = some d →
          d = '\n' ∨ (splitAfter c rest).2.head? = some d := by
        intro d hd
        rw [← join_scan (splitAfter c rest).2, hrest, join_append]
        rw [List.head?_append] at hd ⊢
        cases hfirst : (join first).head? with
        | none =>
          rw [hfirst] at hd
          exact htail d hd
        | some e =>
          rw [hfirst] at hd
          exact .inr hd
      have hsplit := splitAfter_stable c rest hstop
      rw [join_cons, List.cons_append, List.cons_append, List.append_assoc, scan, hsplit,
        ih hrest, List.cons_append]

theorem scan_join_left {text : Text} {first second : List Lexeme}
    (h : scan text = first ++ second) : scan (join first) = first := by
  have hcut : scan (join first ++ []) = first ++ scan [] := scan_join_append h (by simp)
  simpa [scan] using hcut

theorem scan_join_right {text : Text} {first second : List Lexeme}
    (h : scan text = first ++ second) : scan (join second) = second := by
  induction first generalizing text with
  | nil =>
    rw [List.nil_append] at h
    rw [← h, join_scan]
  | cons lexeme first ih =>
    cases text with
    | nil => simp [scan] at h
    | cons c rest =>
      rw [scan, List.cons_append, List.cons.injEq] at h
      exact ih h.2

theorem scan_newline (rest : Text) : scan ('\n' :: rest) = ⟨.newline, ['\n']⟩ :: scan rest := by
  rw [scan]
  rfl

theorem scan_append_newline (text rest : Text) :
    scan (text ++ '\n' :: rest) = scan text ++ scan ('\n' :: rest) := by
  have hcut : scan (join (scan text) ++ '\n' :: rest) = scan text ++ scan ('\n' :: rest) :=
    scan_join_append (List.append_nil _).symm (by simp [eq_comm])
  rwa [join_scan] at hcut

end Excerpt.Lexeme
