import Excerpt.Indent
import Excerpt.Proofs.Lexemes
import Excerpt.Proofs.Lines
/-!
# Lines with content

A line has content if something other than gaps stands before its newline. A line without content
holds no token but its newline, and a line with content has a depth of its own, read off the run of
spaces or of tabs that it begins with.
-/
namespace Excerpt

namespace Shape

/-- The characters that stand between tokens: space, tab, carriage return and form feed. -/
def isGap (c : Char) : Bool := c == ' ' || c == '\t' || isControl c

private theorem ite_ne {p : Prop} [Decidable p] {first second shape : Shape}
    (hfirst : first ≠ shape) (hsecond : second ≠ shape) :
    (if p then first else second) ≠ shape := by
  split
  · exact hfirst
  · exact hsecond

theorem ofChar_isGap_iff (c : Char) :
    ofChar c = .spaces ∨ ofChar c = .tabs ∨ ofChar c = .control ↔ isGap c = true := by
  unfold ofChar isGap
  by_cases hs : c = ' '
  · simp [hs]
  by_cases ht : c = '\t'
  · simp [ht]
  by_cases hc : isControl c
  · simp [hs, ht, hc]
  rw [if_neg hs, if_neg ht, if_neg hc]
  refine iff_of_false ?_ (by simp [hs, ht, hc])
  rw [not_or, not_or]
  refine ⟨?_, ?_, ?_⟩
  all_goals
    repeat' apply ite_ne
    all_goals decide

theorem ofChar_eq_newline_iff (c : Char) : ofChar c = .newline ↔ c = '\n' := by
  by_cases hn : c = '\n'
  · subst hn
    decide
  · refine iff_of_false ?_ hn
    unfold ofChar
    rw [if_neg hn]
    repeat' apply ite_ne
    all_goals decide

end Shape

namespace Lexeme

theorem exists_of_mem_scan {text : Text} {lexeme : Lexeme} (h : lexeme ∈ scan text) :
    ∃ c rest, lexeme = ⟨Shape.ofChar c, c :: rest⟩ ∧ c ∈ text := by
  fun_induction scan text with
  | case1 => simp at h
  | case2 c rest ih =>
    rcases List.mem_cons.1 h with rfl | h
    · exact ⟨c, _, rfl, List.mem_cons_self⟩
    · obtain ⟨d, tail, rfl, hd⟩ := ih h
      refine ⟨d, tail, rfl, List.mem_cons_of_mem _ ?_⟩
      rw [← splitAfter_append c rest]
      exact List.mem_append_right _ hd

theorem join_ne_nil {text : Text} {first second : List Lexeme} (h : scan text = first ++ second)
    (hne : second ≠ []) : join second ≠ [] := by
  obtain ⟨lexeme, rest, rfl⟩ := List.exists_cons_of_ne_nil hne
  have hmem : lexeme ∈ scan text := by simp [h]
  obtain ⟨c, tail, rfl, -⟩ := exists_of_mem_scan hmem
  simp

theorem kind?_eq_none_iff (keywords : Keywords) (c : Char) (rest : Text) :
    kind? keywords ⟨Shape.ofChar c, rest⟩ = none ↔ Shape.isGap c = true := by
  rw [← Shape.ofChar_isGap_iff]
  cases Shape.ofChar c <;> simp [kind?]

theorem kind?_newline (keywords : Keywords) (rest : Text) :
    kind? keywords ⟨Shape.ofChar '\n', rest⟩ = some .newline := rfl

theorem kind?_eq_newline_iff {keywords : Keywords}
    (hk : ∀ word, keywords.classify word ≠ .newline) (c : Char) (rest : Text) :
    kind? keywords ⟨Shape.ofChar c, rest⟩ = some .newline ↔ c = '\n' := by
  rw [← Shape.ofChar_eq_newline_iff]
  cases Shape.ofChar c <;> simp [kind?, hk]

end Lexeme

namespace Indent

/-- Whether something other than gaps stands on a line before its newline. -/
def hasContent (line : Text) : Bool := (line.takeWhile (· ≠ '\n')).any fun c => !Shape.isGap c

/-- The depth of a line with content: one more than the full widths of spaces, or the tabs, that it
begins with. -/
def contentDepth (width : Nat) (line : Text) : Nat :=
  let spaces := (line.takeWhile (· = ' ')).length
  let tabs := (line.takeWhile (· = '\t')).length
  if 1 ≤ spaces then 1 + spaces / width else if 1 ≤ tabs then 1 + tabs else 1

theorem contentDepth_eq (width : Nat) (line : Text) :
    contentDepth width line = 1 + level width line := by
  unfold contentDepth level
  cases line with
  | nil => simp
  | cons c rest =>
    by_cases hs : c = ' '
    · simp [hs]
    · by_cases ht : c = '\t'
      · simp [ht]
      · simp [hs, ht]

private theorem gaps_append_afterRun (line : Text) :
    ∃ gaps, line = gaps ++ afterRun line ∧ ∀ c ∈ gaps, Shape.isGap c = true := by
  unfold afterRun
  split
  · refine ⟨line.takeWhile (· = ' '), List.takeWhile_append_dropWhile.symm, ?_⟩
    intro c hc
    have hspace := List.mem_takeWhile_imp hc
    simp_all [Shape.isGap]
  · refine ⟨line.takeWhile (· = '\t'), List.takeWhile_append_dropWhile.symm, ?_⟩
    intro c hc
    have htab := List.mem_takeWhile_imp hc
    simp_all [Shape.isGap]

private theorem gaps_of_isBare {line : Text} (h : isBare line = true) :
    ∃ gaps rest, line = gaps ++ rest ∧ (∀ c ∈ gaps, Shape.isGap c = true) ∧
      (rest = [] ∨ rest.head? = some '\n') := by
  obtain ⟨gaps, hline, hgaps⟩ := gaps_append_afterRun line
  refine ⟨gaps ++ (afterRun line).takeWhile Shape.isControl,
    (afterRun line).dropWhile Shape.isControl, ?_, ?_, ?_⟩
  · rw [List.append_assoc, List.takeWhile_append_dropWhile]
    exact hline
  · intro c hc
    rcases List.mem_append.1 hc with hc | hc
    · exact hgaps c hc
    · have hcontrol := List.mem_takeWhile_imp hc
      simp [Shape.isGap, hcontrol]
  · unfold isBare at h
    split at h
    · next hnil => exact .inl hnil
    · next hcons =>
      rw [hcons]
      exact .inr (by simpa using h)

theorem ne_newline_of_isGap {c : Char} (h : Shape.isGap c = true) : c ≠ '\n' := by
  rintro rfl
  exact absurd h (by decide)

theorem hasContent_of_isBare {line : Text} (h : isBare line = true) : hasContent line = false := by
  obtain ⟨gaps, rest, rfl, hgaps, hrest⟩ := gaps_of_isBare h
  have hbody : (gaps ++ rest).takeWhile (· ≠ '\n') = gaps := by
    rw [List.takeWhile_append_of_pos (by simpa using fun c hc => ne_newline_of_isGap (hgaps c hc))]
    cases rest with
    | nil => simp
    | cons c rest => simp_all
  rw [hasContent, hbody, List.any_eq_false]
  intro c hc
  simp [hgaps c hc]

theorem depth?_of_hasContent (width : Nat) {line : Text} (h : hasContent line = true) :
    depth? width line = some (1 + level width line) := by
  have hbare : isBare line = false := by
    cases hb : isBare line with
    | false => rfl
    | true => rw [hasContent_of_isBare hb] at h; cases h
  simp [depth?, hbare]

private theorem mem_takeWhile_newline {line : Text} (hline : '\n' ∉ line.dropLast) {c : Char}
    (hc : c ∈ line) (hn : c ≠ '\n') : c ∈ line.takeWhile (· ≠ '\n') := by
  induction line with
  | nil => exact hc
  | cons d rest ih =>
    by_cases hrest : rest = []
    · subst hrest
      rw [List.mem_singleton] at hc
      subst hc
      simp [hn]
    · rw [List.dropLast_cons_of_ne_nil hrest, List.mem_cons, not_or] at hline
      rw [List.takeWhile_cons_of_pos (by simpa using Ne.symm hline.1)]
      rcases List.mem_cons.1 hc with rfl | hc
      · exact List.mem_cons_self
      · exact List.mem_cons_of_mem _ (ih hline.2 hc)

theorem hasContent_iff {line : Text} (hline : '\n' ∉ line.dropLast) :
    hasContent line = true ↔ ∃ c ∈ line, c ≠ '\n' ∧ Shape.isGap c = false := by
  rw [hasContent, List.any_eq_true]
  constructor
  · rintro ⟨c, hc, hgap⟩
    have hn := List.mem_takeWhile_imp hc
    exact ⟨c, (List.takeWhile_sublist _).subset hc, by simpa using hn, by simpa using hgap⟩
  · rintro ⟨c, hc, hn, hgap⟩
    exact ⟨c, mem_takeWhile_newline hline hc hn, by simpa using hgap⟩

/-- Something other than a newline stands for a token only on a line with content. -/
theorem hasContent_of_mem_scan {keywords : Keywords} {line : Text} (hline : '\n' ∉ line.dropLast)
    {lexeme : Lexeme} (hmem : lexeme ∈ Lexeme.scan line) {kind : Kind}
    (hkind : lexeme.kind? keywords = some kind) (hn : kind ≠ .newline) : hasContent line = true := by
  obtain ⟨c, rest, rfl, hc⟩ := Lexeme.exists_of_mem_scan hmem
  refine (hasContent_iff hline).2 ⟨c, hc, ?_, ?_⟩
  · rintro rfl
    rw [Lexeme.kind?_newline, Option.some.injEq] at hkind
    exact hn hkind.symm
  · rw [← Bool.not_eq_true, ← Lexeme.kind?_eq_none_iff keywords c (c :: rest), hkind]
    simp

end Indent

end Excerpt
