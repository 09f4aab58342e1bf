import Excerpt.Text.Lines
import Mathlib.Data.List.TakeWhile
/-!
# Texts as their lines

A list of texts is the list of lines of its join exactly when each text is nonempty, holds no
newline before its last character, and ends with one if another text follows. Cutting a text into
lines therefore commutes with joining texts at the end of a line.
-/
namespace Excerpt.Text

/-- A text that ends where a line ends: it is empty, or its last character is a newline. -/
def EndsLine (text : Text) : Prop := text = [] ∨ text.getLast? = some '\n'

def EndsBlank (text : Text) : Prop := text = ['\n'] ∨ ['\n', '\n'] <:+ text

/-- The shape of the lines of a text. -/
structure AreLines (lines : List Text) : Prop where
  nonempty : ∀ line ∈ lines, line ≠ []
  single : ∀ line ∈ lines, '\n' ∉ line.dropLast
  ended : lines.Pairwise fun line _ => line.getLast? = some '\n'

namespace AreLines

theorem nil : AreLines [] := ⟨by simp, by simp, .nil⟩

theorem sublist {short long : List Text} (h : AreLines long) (hsub : short.Sublist long) :
    AreLines short :=
  ⟨fun line hmem => h.nonempty line (hsub.subset hmem),
    fun line hmem => h.single line (hsub.subset hmem), h.ended.sublist hsub⟩

theorem append_iff {first second : List Text} :
    AreLines (first ++ second) ↔ AreLines first ∧ AreLines second ∧
      (second ≠ [] → ∀ line ∈ first, line.getLast? = some '\n') := by
  constructor
  · intro h
    refine ⟨h.sublist (List.sublist_append_left _ _), h.sublist (List.sublist_append_right _ _), ?_⟩
    intro hne line hmem
    obtain ⟨next, rest, rfl⟩ := List.exists_cons_of_ne_nil hne
    exact (List.pairwise_append.1 h.ended).2.2 line hmem next List.mem_cons_self
  · rintro ⟨hfirst, hsecond, hjoin⟩
    refine ⟨?_, ?_, List.pairwise_append.2 ⟨hfirst.ended, hsecond.ended, ?_⟩⟩
    · intro line hmem
      exact (List.mem_append.1 hmem).elim (hfirst.nonempty line) (hsecond.nonempty line)
    · intro line hmem
      exact (List.mem_append.1 hmem).elim (hfirst.single line) (hsecond.single line)
    · intro line hmem next hnext
      exact hjoin (List.ne_nil_of_mem hnext) line hmem

theorem cons_iff {line : Text} {rest : List Text} :
    AreLines (line :: rest) ↔ line ≠ [] ∧ '\n' ∉ line.dropLast ∧
      (rest ≠ [] → line.getLast? = some '\n') ∧ AreLines rest := by
  rw [show line :: rest = [line] ++ rest from rfl, append_iff]
  constructor
  · rintro ⟨hline, hrest, hjoin⟩
    exact ⟨hline.nonempty line (by simp), hline.single line (by simp),
      fun hne => hjoin hne line (by simp), hrest⟩
  · rintro ⟨hne, hsingle, hended, hrest⟩
    exact ⟨⟨by simpa using hne, by simpa using hsingle, List.pairwise_singleton _ _⟩, hrest,
      by simpa using hended⟩

end AreLines

theorem areLines_splitLines (text : Text) : AreLines (splitLines text) := by
  induction text with
  | nil => exact .nil
  | cons c rest ih =>
    rw [splitLines]
    split
    · next hc =>
      refine AreLines.cons_iff.2 ⟨by simp, by simp, ?_, ih⟩
      intro _
      simp [hc]
    · next hc =>
      split
      · exact AreLines.cons_iff.2 ⟨by simp, by simp, by simp, .nil⟩
      · next line lines hs =>
        rw [hs] at ih
        obtain ⟨hne, hsingle, hended, hlines⟩ := AreLines.cons_iff.1 ih
        refine AreLines.cons_iff.2 ⟨by simp, ?_, ?_, hlines⟩
        · rw [List.dropLast_cons_of_ne_nil hne, List.mem_cons, not_or]
          exact ⟨Ne.symm hc, hsingle⟩
        · intro hl
          rw [List.getLast?_cons, hended hl]
          rfl

theorem splitLines_body_append {body : Text} (h : '\n' ∉ body) (rest : Text) :
    splitLines (body ++ '\n' :: rest) = (body ++ ['\n']) :: splitLines rest := by
  induction body with
  | nil => simp [splitLines]
  | cons c body ih =>
    have hc : c ≠ '\n' := fun heq => h (heq ▸ List.mem_cons_self)
    have hbody : '\n' ∉ body := fun hmem => h (List.mem_cons_of_mem _ hmem)
    simp [splitLines, hc, ih hbody]

theorem splitLines_body {body : Text} (h : '\n' ∉ body) (hne : body ≠ []) :
    splitLines body = [body] := by
  induction body with
  | nil => exact absurd rfl hne
  | cons c body ih =>
    have hc : c ≠ '\n' := fun heq => h (heq ▸ List.mem_cons_self)
    have hbody : '\n' ∉ body := fun hmem => h (List.mem_cons_of_mem _ hmem)
    rw [splitLines, if_neg hc]
    by_cases hnil : body = []
    · simp [hnil, splitLines]
    · simp [ih hbody hnil]

theorem eq_dropLast_append {text : Text} {c : Char} (h : text.getLast? = some c) :
    text = text.dropLast ++ [c] := by
  have hne : text ≠ [] := by
    rintro rfl
    simp at h
  have hlast : text.getLast hne = c := by
    rw [List.getLast?_eq_some_getLast hne] at h
    exact Option.some.inj h
  rw [← hlast, List.dropLast_concat_getLast]

theorem newline_not_mem_left {first second : Text} (h : '\n' ∉ (first ++ second).dropLast)
    (hne : second ≠ []) : '\n' ∉ first := by
  intro hmem
  apply h
  rw [List.dropLast_append_of_ne_nil hne]
  exact List.mem_append_left _ hmem

theorem AreLines.of_append {first second : Text} {rest : List Text}
    (h : AreLines ((first ++ second) :: rest)) (hne : second ≠ []) : AreLines (second :: rest) := by
  obtain ⟨-, hsingle, hended, hrest⟩ := cons_iff.1 h
  refine cons_iff.2 ⟨hne, ?_, ?_, hrest⟩
  · intro hmem
    apply hsingle
    rw [List.dropLast_append_of_ne_nil hne]
    exact List.mem_append_right _ hmem
  · intro hrest
    have hlast := hended hrest
    rwa [List.getLast?_append, List.getLast?_eq_some_getLast hne, Option.some_or,
      ← List.getLast?_eq_some_getLast hne] at hlast

theorem newline_not_mem {line : Text} (hsingle : '\n' ∉ line.dropLast)
    (hlast : line.getLast? ≠ some '\n') : '\n' ∉ line := by
  intro hmem
  have hne := List.ne_nil_of_mem hmem
  rw [← List.dropLast_concat_getLast hne, List.mem_append, List.mem_singleton] at hmem
  rcases hmem with hmem | hmem
  · exact hsingle hmem
  · exact hlast (by rw [List.getLast?_eq_some_getLast hne, hmem])

/-- Texts with the shape of lines are the lines of their join. -/
theorem splitLines_flatten {lines : List Text} (h : AreLines lines) :
    splitLines lines.flatten = lines := by
  induction lines with
  | nil => rfl
  | cons line rest ih =>
    obtain ⟨hne, hsingle, hended, hrest⟩ := AreLines.cons_iff.1 h
    rw [List.flatten_cons]
    by_cases hlast : line.getLast? = some '\n'
    · have hline := eq_dropLast_append hlast
      rw [hline, List.append_assoc, List.singleton_append, splitLines_body_append hsingle, ih hrest]
    · have hnil : rest = [] := Classical.byContradiction fun hr => hlast (hended hr)
      have hbody := newline_not_mem hsingle hlast
      subst hnil
      rw [List.flatten_nil, List.append_nil, splitLines_body hbody hne]

theorem EndsLine.of_mem_splitLines {text line : Text} (h : EndsLine text)
    (hmem : line ∈ splitLines text) : line.getLast? = some '\n' := by
  have hlines := areLines_splitLines text
  have hne : splitLines text ≠ [] := List.ne_nil_of_mem hmem
  have htext : (splitLines text).flatten.getLast? = some '\n' := by
    rw [flatten_splitLines]
    rcases h with rfl | h
    · exact absurd rfl hne
    · exact h
  rw [← List.dropLast_concat_getLast hne] at hlines hmem htext
  rcases List.mem_append.1 hmem with hmem | hmem
  · exact (AreLines.append_iff.1 hlines).2.2 (by simp) line hmem
  · have hlast := hlines.nonempty ((splitLines text).getLast hne) (by simp)
    rw [List.flatten_append, List.flatten_singleton, List.getLast?_append,
      List.getLast?_eq_some_getLast hlast, Option.some_or] at htext
    rw [List.mem_singleton.1 hmem, List.getLast?_eq_some_getLast hlast, htext]

theorem splitLines_append {text : Text} (h : EndsLine text) (rest : Text) :
    splitLines (text ++ rest) = splitLines text ++ splitLines rest := by
  have hlines : AreLines (splitLines text ++ splitLines rest) :=
    AreLines.append_iff.2 ⟨areLines_splitLines text, areLines_splitLines rest,
      fun _ line hmem => h.of_mem_splitLines hmem⟩
  have hjoin := splitLines_flatten hlines
  rwa [List.flatten_append, flatten_splitLines, flatten_splitLines] at hjoin

theorem splitLines_flatten_of_endsLine {texts : List Text}
    (h : texts.Pairwise fun text _ => EndsLine text) :
    splitLines texts.flatten = texts.flatMap splitLines := by
  induction texts with
  | nil => rfl
  | cons text rest ih =>
    obtain ⟨hended, hrest⟩ := List.pairwise_cons.1 h
    rw [List.flatten_cons, List.flatMap_cons, ← ih hrest]
    cases rest with
    | nil => simp [splitLines]
    | cons next rest => exact splitLines_append (hended next List.mem_cons_self) _

theorem AreLines.splitLines_of_mem {lines : List Text} (h : AreLines lines) {line : Text}
    (hmem : line ∈ lines) : splitLines line = [line] := by
  have hline : AreLines [line] := h.sublist (List.singleton_sublist.2 hmem)
  simpa using splitLines_flatten hline

theorem EndsBlank.exists_eq {text : Text} (h : EndsBlank text) :
    ∃ front, EndsLine front ∧ text = front ++ ['\n'] := by
  rcases h with rfl | ⟨front, rfl⟩
  · exact ⟨[], .inl rfl, rfl⟩
  · refine ⟨front ++ ['\n'], .inr ?_, ?_⟩
    · simp
    · simp

theorem EndsBlank.exists_splitLines_eq {text : Text} (h : EndsBlank text) :
    ∃ lines, splitLines text = lines ++ [['\n']] := by
  obtain ⟨front, hfront, rfl⟩ := h.exists_eq
  refine ⟨splitLines front, ?_⟩
  rw [splitLines_append hfront]
  rfl

theorem EndsBlank.endsLine {text : Text} (h : EndsBlank text) : EndsLine text := by
  obtain ⟨front, -, rfl⟩ := h.exists_eq
  exact .inr (by simp)

theorem count_newline_flatten {lines : List Text} (h : AreLines lines)
    (hended : ∀ line ∈ lines, line.getLast? = some '\n') :
    lines.flatten.count '\n' = lines.length := by
  induction lines with
  | nil => rfl
  | cons line rest ih =>
    obtain ⟨_, hsingle, _, hrest⟩ := AreLines.cons_iff.1 h
    have hline := eq_dropLast_append (hended line List.mem_cons_self)
    have hone : line.count '\n' = 1 := by
      rw [hline, List.count_append, List.count_eq_zero.2 hsingle]
      simp
    have htail := ih hrest fun next hmem => hended next (List.mem_cons_of_mem _ hmem)
    rw [List.flatten_cons, List.count_append, hone, htail, List.length_cons, Nat.add_comm]

theorem EndsLine.length_splitLines {text : Text} (h : EndsLine text) :
    (splitLines text).length = text.count '\n' := by
  have hcount := count_newline_flatten (areLines_splitLines text) fun _ => h.of_mem_splitLines
  rw [flatten_splitLines] at hcount
  exact hcount.symm

theorem newline_not_mem_unfinishedLine (text : Text) : '\n' ∉ unfinishedLine text := by
  intro hmem
  simpa using List.mem_takeWhile_imp (List.mem_reverse.1 hmem)

theorem unfinishedLine_of_not_mem {text : Text} (h : '\n' ∉ text) : unfinishedLine text = text := by
  have hall : text.reverse.takeWhile (· ≠ '\n') = text.reverse := by
    rw [List.takeWhile_eq_self_iff]
    intro c hc
    simpa using fun heq : c = '\n' => h (heq ▸ List.mem_reverse.1 hc)
  rw [unfinishedLine, hall, List.reverse_reverse]

theorem exists_eq_append_unfinishedLine (text : Text) :
    ∃ front, EndsLine front ∧ text = front ++ unfinishedLine text := by
  refine ⟨(text.reverse.dropWhile (· ≠ '\n')).reverse, ?_, ?_⟩
  · have hhead := List.head?_dropWhile_not (· ≠ '\n') text.reverse
    cases hrest : text.reverse.dropWhile (· ≠ '\n') with
    | nil => exact .inl rfl
    | cons c rest =>
      rw [hrest] at hhead
      exact .inr (by simpa using hhead)
  · rw [unfinishedLine, ← List.reverse_append, List.takeWhile_append_dropWhile, List.reverse_reverse]

theorem length_splitLines_of_not_endsLine {text : Text} (h : ¬ EndsLine text) :
    (splitLines text).length = text.count '\n' + 1 := by
  obtain ⟨front, hfront, htext⟩ := exists_eq_append_unfinishedLine text
  have hplain := newline_not_mem_unfinishedLine text
  have hne : unfinishedLine text ≠ [] := by
    intro hnil
    rw [hnil, List.append_nil] at htext
    exact h (htext ▸ hfront)
  have hlines := splitLines_append hfront (unfinishedLine text)
  have hcount := congrArg (List.count '\n') htext
  rw [← htext, splitLines_body hplain hne] at hlines
  rw [List.count_append, List.count_eq_zero.2 hplain, Nat.add_zero] at hcount
  rw [hlines, List.length_append, List.length_singleton, hfront.length_splitLines, hcount]

theorem EndsLine.unfinishedLine_append {text : Text} (h : EndsLine text) (rest : Text) :
    unfinishedLine (text ++ rest) = unfinishedLine rest := by
  rcases h with rfl | h
  · rfl
  · rw [eq_dropLast_append h, unfinishedLine, unfinishedLine, List.reverse_append,
      List.reverse_append, List.takeWhile_append]
    split
    · next hlen =>
      rw [(List.takeWhile_prefix _).eq_of_length hlen]
      simp
    · rfl

end Excerpt.Text
