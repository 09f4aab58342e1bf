import Excerpt.Text.Blank
import Mathlib.Data.List.TakeWhile
/-!
# Words and blanks

A blank divides a text into two whose words have nothing to do with each other, so words that are
written with blanks between them are read back.
-/
namespace Excerpt.Text

/-- A text that can stand as a word among others. -/
structure IsWord (text : Text) : Prop where
  ne_nil : text ≠ []
  not_isBlank : ∀ c ∈ text, isBlank c = false

instance (text : Text) : Decidable (IsWord text) :=
  decidable_of_iff (text ≠ [] ∧ text.all (fun c => !isBlank c) = true)
    ⟨fun h => ⟨h.1, by simpa using h.2⟩, fun h => ⟨h.ne_nil, by simpa using h.not_isBlank⟩⟩

theorem IsWord.append {first second : Text} (hfirst : IsWord first)
    (hsecond : ∀ c ∈ second, isBlank c = false) : IsWord (first ++ second) := by
  refine ⟨?_, ?_⟩
  · simp [hfirst.ne_nil]
  · intro c hc
    exact (List.mem_append.1 hc).elim (hfirst.not_isBlank c) (hsecond c)

/-! ### Words -/

private theorem pieces_ne_nil (text : Text) : pieces text ≠ [] := by
  cases text with
  | nil => simp [pieces]
  | cons c rest =>
    rw [pieces]
    split
    · simp
    · split
      · simp
      · simp

private theorem pieces_append (first second : Text) {c : Char} (hc : isBlank c = true) :
    pieces (first ++ c :: second) = pieces first ++ pieces second := by
  induction first with
  | nil => simp [pieces, hc]
  | cons d first ih =>
    rw [List.cons_append, pieces, pieces, ih]
    split
    · rfl
    · cases hpieces : pieces first with
      | nil => exact absurd hpieces (pieces_ne_nil first)
      | cons piece more => rfl

theorem words_append (first second : Text) {c : Char} (hc : isBlank c = true) :
    words (first ++ c :: second) = words first ++ words second := by
  rw [words, pieces_append first second hc, List.filter_append]
  rfl

private theorem pieces_of_not_isBlank {text : Text} (h : ∀ c ∈ text, isBlank c = false) :
    pieces text = [text] := by
  induction text with
  | nil => rfl
  | cons c rest ih =>
    obtain ⟨hc, hrest⟩ := List.forall_mem_cons.1 h
    simp [pieces, hc, ih hrest]

theorem IsWord.words_eq {word : Text} (h : IsWord word) : words word = [word] := by
  rw [words, pieces_of_not_isBlank h.not_isBlank]
  simp [h.ne_nil]

theorem words_intercalate {list : List Text} (h : ∀ word ∈ list, IsWord word) :
    words ([' '].intercalate list) = list := by
  induction list with
  | nil => rfl
  | cons word rest ih =>
    obtain ⟨hword, hrest⟩ := List.forall_mem_cons.1 h
    cases rest with
    | nil => simpa using hword.words_eq
    | cons next rest =>
      have hjoin : [' '].intercalate (word :: next :: rest) =
          word ++ ' ' :: [' '].intercalate (next :: rest) := by
        simp [List.intercalate]
      rw [hjoin, words_append _ _ (by decide), hword.words_eq, ih hrest]
      rfl

/-! ### Blanks at the end -/

theorem exists_trimEnd (text : Text) :
    ∃ trail, text = trimEnd text ++ trail ∧ ∀ c ∈ trail, isBlank c = true := by
  refine ⟨(text.reverse.takeWhile isBlank).reverse, ?_, ?_⟩
  · rw [trimEnd, ← List.reverse_append, List.takeWhile_append_dropWhile, List.reverse_reverse]
  · intro c hc
    rw [List.mem_reverse] at hc
    exact List.mem_takeWhile_imp hc

theorem trimEnd_append (text : Text) {c : Char} (hc : isBlank c = false) {trail : Text}
    (h : ∀ d ∈ trail, isBlank d = true) : trimEnd (text ++ c :: trail) = text ++ [c] := by
  have htrail : ∀ d ∈ trail.reverse, isBlank d = true := by
    intro d hd
    exact h d (List.mem_reverse.1 hd)
  rw [trimEnd, List.reverse_append, List.reverse_cons, List.append_assoc,
    List.dropWhile_append_of_pos htrail]
  simp [hc]

end Excerpt.Text
