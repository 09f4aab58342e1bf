import Excerpt.Proofs.Injection
import Mathlib.Data.List.Forall2
/-!
# The pieces of an output

A document that is injected without failure is made up of pieces, one for each of its lines: the
line itself, or the snippet that a directive asks for, between fences. Every piece ends where a line
ends, so the lines of the output are those of the pieces, and no piece has a directive unless a
snippet brings one along.
-/
namespace Excerpt

namespace Run

variable {α β : Type}

theorem result_bind_eq_ok_iff {run : Run α} {next : α → Run β} {value : β} :
    (run >>= next).result = .ok value ↔
      ∃ first, run.result = .ok first ∧ (next first).result = .ok value := by
  obtain ⟨loads, log, result⟩ := run
  cases result with
  | error e => simp
  | ok first => simp

theorem result_bind_eq_error_iff {run : Run α} {next : α → Run β} {e : Error} :
    (run >>= next).result = .error e ↔ run.result = .error e ∨
      ∃ first, run.result = .ok first ∧ (next first).result = .error e := by
  obtain ⟨loads, log, result⟩ := run
  cases result with
  | error cause => simp
  | ok first => simp

end Run

/-! ### The pieces of an output -/

namespace Document

/-- Whether a line is a directive that asks for a snippet of a source, and gets it. -/
structure Renders (library : Library) (settings : Settings) (line : Text) (source : Source)
    (snippet : Text) : Prop where
  isDirective : Directive.isDirective line = true
  exists_directive : ∃ directive, Directive.parse line = .ok directive ∧
    library directive.path = .ok source ∧
    (directive.render settings source.text).result = .ok snippet

/-- What a line of a document becomes if nothing fails. -/
inductive Becomes (library : Library) (settings : Settings) (line : Text) : Text → Prop
  | copied (h : Directive.isDirective line = false) : Becomes library settings line line
  | replaced {source : Source} {snippet : Text} (h : Renders library settings line source snippet) :
      Becomes library settings line (fenced source.language snippet)

section Pieces

variable {library : Library} {settings : Settings}

theorem Renders.unique {line : Text} {source source' : Source} {snippet snippet' : Text}
    (h : Renders library settings line source snippet)
    (h' : Renders library settings line source' snippet') :
    source = source' ∧ snippet = snippet' := by
  obtain ⟨directive, hparse, hload, hrender⟩ := h.exists_directive
  obtain ⟨directive', hparse', hload', hrender'⟩ := h'.exists_directive
  rw [hparse, Except.ok.injEq] at hparse'
  subst hparse'
  rw [hload, Except.ok.injEq] at hload'
  subst hload'
  rw [hrender, Except.ok.injEq] at hrender'
  exact ⟨rfl, hrender'⟩

theorem Renders.eq_of_parse {line : Text} {directive : Directive} {source loaded : Source}
    {snippet : Text} (h : Renders library settings line source snippet)
    (hparse : Directive.parse line = .ok directive) (hload : library directive.path = .ok loaded)
    (hwhole : directive.target? = none) : source = loaded ∧ snippet = loaded.text := by
  apply h.unique
  refine ⟨h.isDirective, directive, hparse, hload, ?_⟩
  rw [Directive.render, hwhole]
  rfl

theorem result_injectDirective_eq_ok_iff {number : Nat} {line text : Text} :
    (injectDirective library settings number line).result = .ok text ↔
      ∃ directive source snippet, Directive.parse line = .ok directive ∧
        library directive.path = .ok source ∧
        (directive.render settings source.text).result = .ok snippet ∧
        fenced source.language snippet = text := by
  simp only [injectDirective, Run.result_bind_eq_ok_iff, Run.ofExcept, Run.request, Run.note,
    Run.pure_eq, Except.ok.injEq]
  grind

theorem result_injectLine_eq_ok_iff {number : Nat} {line text : Text} :
    (injectLine library settings number line).result = .ok text ↔
      Becomes library settings line text := by
  rw [injectLine]
  cases hdirective : Directive.isDirective line with
  | false =>
    simp only [Bool.false_eq_true, if_false, Run.pure_eq, Except.ok.injEq]
    constructor
    · intro heq
      subst heq
      exact .copied hdirective
    · intro h
      cases h with
      | copied _ => rfl
      | replaced hrenders =>
        rw [hrenders.isDirective] at hdirective
        cases hdirective
  | true =>
    rw [if_pos rfl, result_injectDirective_eq_ok_iff]
    constructor
    · rintro ⟨directive, source, snippet, hparse, hload, hrender, rfl⟩
      exact .replaced ⟨hdirective, directive, hparse, hload, hrender⟩
    · intro h
      cases h with
      | copied hcopied =>
        rw [hcopied] at hdirective
        cases hdirective
      | replaced hrenders =>
        obtain ⟨directive, hparse, hload, hrender⟩ := hrenders.exists_directive
        exact ⟨directive, _, _, hparse, hload, hrender, rfl⟩

theorem result_injectLines_eq_ok_iff {number : Nat} {lines : List Text} {output : Text} :
    (injectLines library settings number lines).result = .ok output ↔
      ∃ texts, List.Forall₂ (Becomes library settings) lines texts ∧ texts.flatten = output := by
  induction lines generalizing number output with
  | nil => simp [injectLines, eq_comm]
  | cons line rest ih =>
    simp only [injectLines, Run.result_bind_eq_ok_iff, Run.pure_eq, Except.ok.injEq, ih,
      result_injectLine_eq_ok_iff]
    constructor
    · rintro ⟨text, hline, lower, ⟨texts, hrest, rfl⟩, rfl⟩
      exact ⟨text :: texts, .cons hline hrest, rfl⟩
    · rintro ⟨texts, htexts, rfl⟩
      cases htexts with
      | cons hline hrest => exact ⟨_, hline, _, ⟨_, hrest, rfl⟩, rfl⟩

end Pieces

/-! ### The lines of a piece -/

/-- A snippet with the newline that ends its last line. -/
def finished (snippet : Text) : Text :=
  snippet ++ if snippet.getLast? = some '\n' then [] else ['\n']

theorem endsLine_finished (snippet : Text) : Text.EndsLine (finished snippet) := by
  right
  rw [finished]
  split
  · next hlast => rwa [List.append_nil]
  · simp

/-- The lines of a piece for a directive: a fence with the language, the snippet and a bare fence. -/
theorem splitLines_fenced {language : Text} (h : '\n' ∉ language) (snippet : Text) :
    Text.splitLines (fenced language snippet) =
      (fence ++ language ++ ['\n']) :: (Text.splitLines (finished snippet) ++ [fence ++ ['\n']]) := by
  have hopening : '\n' ∉ fence ++ language := by
    rw [List.mem_append, not_or]
    exact ⟨by decide, h⟩
  have hpiece : fenced language snippet =
      (fence ++ language) ++ '\n' :: (finished snippet ++ (fence ++ ['\n'])) := by
    simp [fenced, finished]
  rw [hpiece, Text.splitLines_body_append hopening,
    Text.splitLines_append (endsLine_finished snippet),
    Text.splitLines_body_append (by decide : '\n' ∉ fence)]
  rfl

theorem endsLine_fenced (language snippet : Text) : Text.EndsLine (fenced language snippet) := by
  right
  rw [fenced, List.getLast?_append]
  rfl

theorem exists_mem_finished_iff {mark : Text} (hne : mark ≠ []) (hmark : '\n' ∉ mark)
    (snippet : Text) :
    (∃ line ∈ Text.splitLines (finished snippet), mark <+: line) ↔
      ∃ line ∈ Text.splitLines snippet, mark <+: line := by
  rw [finished]
  split
  · rw [List.append_nil]
  · -- Only the last line changes: a newline is put behind it, or it is a new line of its own.
    obtain ⟨front, hfront, hsnippet⟩ := Text.exists_eq_append_unfinishedLine snippet
    have hlast := Text.newline_not_mem_unfinishedLine snippet
    rw [hsnippet, List.append_assoc, Text.splitLines_append hfront, Text.splitLines_append hfront,
      Text.splitLines_body_append hlast]
    simp only [List.mem_append, or_and_right, exists_or]
    apply or_congr_right
    have hprefix : mark <+: Text.unfinishedLine snippet ++ ['\n'] ↔
        mark <+: Text.unfinishedLine snippet := by
      rw [List.prefix_concat_iff, or_iff_right]
      intro heq
      apply hmark
      rw [heq]
      simp
    by_cases hnil : Text.unfinishedLine snippet = []
    · rw [hnil] at hprefix ⊢
      simpa [Text.splitLines, hne] using hprefix
    · simp [Text.splitLines_body hlast hnil, Text.splitLines, hprefix]

/-! ### The lines of an output -/

section Pieces

variable {library : Library} {settings : Settings}

theorem pairwise_endsLine {lines texts : List Text} (hlines : Text.AreLines lines)
    (h : List.Forall₂ (Becomes library settings) lines texts) :
    texts.Pairwise fun text _ => Text.EndsLine text := by
  induction h with
  | nil => exact .nil
  | @cons line text rest more hline hmore ih =>
    obtain ⟨-, -, hended, hrest⟩ := Text.AreLines.cons_iff.1 hlines
    refine List.pairwise_cons.2 ⟨?_, ih hrest⟩
    intro next hnext
    cases hline with
    | copied _ =>
      right
      apply hended
      intro hnil
      subst hnil
      cases hmore
      cases hnext
    | replaced _ => exact endsLine_fenced _ _

theorem splitLines_output {lines texts : List Text} (hlines : Text.AreLines lines)
    (h : List.Forall₂ (Becomes library settings) lines texts) :
    Text.splitLines texts.flatten = texts.flatMap Text.splitLines :=
  Text.splitLines_flatten_of_endsLine (pairwise_endsLine hlines h)

private theorem exists_mem_of_mem_texts {lines texts : List Text}
    (h : List.Forall₂ (Becomes library settings) lines texts) {text : Text} (hmem : text ∈ texts) :
    ∃ line ∈ lines, Becomes library settings line text := by
  induction h with
  | nil => cases hmem
  | cons hline _ ih =>
    rcases List.mem_cons.1 hmem with rfl | hmem
    · exact ⟨_, List.mem_cons_self, hline⟩
    · obtain ⟨line, hrest, hbecomes⟩ := ih hmem
      exact ⟨line, List.mem_cons_of_mem _ hrest, hbecomes⟩

theorem not_opening_of_becomes {line text : Text} (hline : Text.splitLines line = [line])
    (h : Becomes library settings line text)
    (hlanguage : ∀ path source, library path = .ok source → '\n' ∉ source.language)
    (hsnippets : ∀ source snippet, Renders library settings line source snippet →
      ∀ inner ∈ Text.splitLines snippet, ¬ Directive.opening <+: inner) :
    ∀ inner ∈ Text.splitLines text, ¬ Directive.opening <+: inner := by
  cases h with
  | copied hcopied =>
    rw [hline]
    simpa [Directive.isDirective, ← List.isPrefixOf_iff_prefix] using hcopied
  | @replaced source snippet hrenders =>
    obtain ⟨directive, -, hload, -⟩ := hrenders.exists_directive
    have hsnippet : ∀ inner ∈ Text.splitLines (finished snippet), ¬ Directive.opening <+: inner := by
      intro inner hmem hinner
      obtain ⟨other, hother, hopening⟩ :=
        (exists_mem_finished_iff (by decide) (by decide) snippet).1 ⟨inner, hmem, hinner⟩
      exact hsnippets source snippet hrenders other hother hopening
    have hfence : ∀ rest, ¬ Directive.opening <+: fence ++ rest := by
      intro rest hrest
      simp [Directive.opening, fence] at hrest
    rw [splitLines_fenced (hlanguage _ _ hload), List.forall_mem_cons, List.forall_mem_append,
      List.forall_mem_singleton, List.append_assoc]
    exact ⟨hfence _, hsnippet, hfence _⟩

end Pieces

/-- The output of an injection has no directives, if the snippets bring none along. Injecting it
again changes and loads nothing, whatever the library and the settings. -/
theorem inject_output {library : Library} {settings : Settings} {document output : Text}
    (hlanguage : ∀ path source, library path = .ok source → '\n' ∉ source.language)
    (hsnippets : ∀ line ∈ Text.splitLines document, ∀ source snippet,
      Renders library settings line source snippet →
        ∀ inner ∈ Text.splitLines snippet, ¬ Directive.opening <+: inner)
    (h : (inject library settings document).result = .ok output) :
    (∀ line ∈ Text.splitLines output, ¬ Directive.opening <+: line) ∧
      ∀ (library' : Library) (settings' : Settings),
        inject library' settings' output = ⟨[], [], .ok output⟩ := by
  obtain ⟨texts, htexts, rfl⟩ := result_injectLines_eq_ok_iff.1 h
  have hlines := Text.areLines_splitLines document
  have hplain : ∀ line ∈ Text.splitLines texts.flatten, ¬ Directive.opening <+: line := by
    intro inner hinner
    rw [splitLines_output hlines htexts, List.mem_flatMap] at hinner
    obtain ⟨text, htext, hmem⟩ := hinner
    obtain ⟨line, hline, hbecomes⟩ := exists_mem_of_mem_texts htexts htext
    exact not_opening_of_becomes (hlines.splitLines_of_mem hline) hbecomes hlanguage
      (hsnippets line hline) inner hmem
  refine ⟨hplain, ?_⟩
  intro library' settings'
  rw [inject, injectLines_of_not_directive library' settings' 1 hplain, Text.flatten_splitLines,
    Run.pure_eq]

theorem inject_output_mention :
    let library : Library := fun _ => .ok ⟨"# cinj\x7ba\x7d".toList, "py".toList⟩
    let document := "cinj\x7ba\x7d\n cinj\x7ba\x7d".toList
    let output := "```py\n# cinj\x7ba\x7d\n```\n cinj\x7ba\x7d".toList
    (inject library {} document).result = .ok output ∧
      (∀ line ∈ Text.splitLines output, ¬ Directive.opening <+: line) ∧
      ∀ (library' : Library) (settings' : Settings),
        inject library' settings' output = ⟨[], [], .ok output⟩ := by
  intro library document output
  have houtput : (inject library {} document).result = .ok output := by decide +kernel
  refine ⟨houtput, inject_output ?_ ?_ houtput⟩
  · intro path source hload
    cases hload
    decide
  · intro line hline source snippet hrenders
    have hlines : Text.splitLines document =
        ["cinj\x7ba\x7d\n".toList, " cinj\x7ba\x7d".toList] := by decide
    rw [hlines, List.mem_pair] at hline
    rcases hline with rfl | rfl
    · have hread : Directive.parse "cinj\x7ba\x7d\n".toList = .ok { path := "a".toList } := by
        decide +kernel
      obtain ⟨-, rfl⟩ := hrenders.eq_of_parse hread rfl rfl
      decide
    · exact absurd hrenders.isDirective (by decide)

end Document

end Excerpt
