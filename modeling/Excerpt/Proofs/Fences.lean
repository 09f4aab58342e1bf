import Excerpt.Proofs.Pieces
/-!
# What fences enclose

The fence that opens the piece for a directive is closed by the next line with the mark of a fence.
That is the one written for it, unless a line of the snippet has the mark too.
-/
namespace Excerpt.Document

/-- The lines that a fence encloses, out of those behind its opening line: all up to the next line
that starts with the mark of a fence. -/
def enclosed (lines : List Text) : List Text :=
  lines.takeWhile fun line => !fence.isPrefixOf line

/-- Whether the directive on a line behind the lines `above` is enclosed in an output by the fences
that were written for it: its snippet, and nothing else, stands between them. -/
def IsEnclosed (library : Library) (settings : Settings) (above : List Text) (line output : Text) :
    Prop :=
  ∃ upper source snippet lower,
    (inject library settings above.flatten).result = .ok upper ∧
    Renders library settings line source snippet ∧
    Text.splitLines output = Text.splitLines upper ++ (fence ++ source.language ++ ['\n']) ::
      (Text.splitLines (finished snippet) ++ (fence ++ ['\n']) :: lower) ∧
    enclosed (Text.splitLines (finished snippet) ++ (fence ++ ['\n']) :: lower) =
      Text.splitLines (finished snippet)

theorem enclosed_append_fence (lines rest : List Text) :
    enclosed (lines ++ (fence ++ ['\n']) :: rest) = lines ↔ ∀ line ∈ lines, ¬ fence <+: line := by
  have hfence : fence.isPrefixOf (fence ++ ['\n']) = true := by decide
  constructor
  · intro h line hmem hprefix
    rw [← h] at hmem
    have hline := List.mem_takeWhile_imp hmem
    simp [List.isPrefixOf_iff_prefix.2 hprefix] at hline
  · intro h
    rw [enclosed, List.takeWhile_append_of_pos]
    · simp [hfence]
    · intro line hmem
      simpa [← List.isPrefixOf_iff_prefix] using h line hmem

theorem enclosed_finished_iff (snippet : Text) (rest : List Text) :
    enclosed (Text.splitLines (finished snippet) ++ (fence ++ ['\n']) :: rest) =
        Text.splitLines (finished snippet) ↔
      ∀ inner ∈ Text.splitLines snippet, ¬ fence <+: inner := by
  have hmark := exists_mem_finished_iff (by decide : fence ≠ []) (by decide) snippet
  rw [enclosed_append_fence]
  simpa using not_congr hmark

/-- In an output, a directive has become an opening fence, its snippet and a bare fence. -/
theorem exists_splitLines_eq {library : Library} {settings : Settings} {document output : Text}
    (hlanguage : ∀ path source, library path = .ok source → '\n' ∉ source.language)
    (h : (inject library settings document).result = .ok output) {above below : List Text}
    {line : Text} (hlines : Text.splitLines document = above ++ line :: below)
    (hdirective : Directive.isDirective line = true) :
    ∃ upper source snippet lower,
      (inject library settings above.flatten).result = .ok upper ∧
      Renders library settings line source snippet ∧
      Text.splitLines output = Text.splitLines upper ++ (fence ++ source.language ++ ['\n']) ::
        (Text.splitLines (finished snippet) ++ (fence ++ ['\n']) :: lower) := by
  have hshape := Text.areLines_splitLines document
  rw [inject, hlines, injectLines_append, injectLines] at h
  simp only [Run.result_bind_eq_ok_iff, Run.pure_eq, Except.ok.injEq, result_injectLine_eq_ok_iff,
    result_injectLines_eq_ok_iff] at h
  obtain ⟨_, ⟨upper, hupper, rfl⟩, _, ⟨text, htext, _, ⟨lower, hlower, rfl⟩, rfl⟩, rfl⟩ := h
  cases htext with
  | copied hcopied =>
    rw [hcopied] at hdirective
    cases hdirective
  | @replaced source snippet hrenders =>
    rw [hlines] at hshape
    have habove : Text.AreLines above := (Text.AreLines.append_iff.1 hshape).1
    have hload : '\n' ∉ source.language := by
      obtain ⟨directive, -, hload, -⟩ := hrenders.exists_directive
      exact hlanguage directive.path source hload
    have houtput := splitLines_output hshape
      (List.rel_append hupper (.cons (.replaced hrenders) hlower))
    refine ⟨upper.flatten, source, snippet, lower.flatMap Text.splitLines, ?_, hrenders, ?_⟩
    · rw [inject, Text.splitLines_flatten habove]
      exact result_injectLines_eq_ok_iff.2 ⟨upper, hupper, rfl⟩
    · rw [List.flatten_append, List.flatten_cons] at houtput
      rw [houtput, List.flatMap_append, List.flatMap_cons, splitLines_output habove hupper,
        splitLines_fenced hload]
      simp

/-- Fences enclose the snippet of a directive exactly if no line of the snippet starts with the mark
of a fence. -/
theorem inject_isEnclosed_iff {library : Library} {settings : Settings} {document output : Text}
    (hlanguage : ∀ path source, library path = .ok source → '\n' ∉ source.language)
    (h : (inject library settings document).result = .ok output) {above below : List Text}
    {line : Text} (hlines : Text.splitLines document = above ++ line :: below)
    (hdirective : Directive.isDirective line = true) :
    IsEnclosed library settings above line output ↔
      ∀ source snippet, Renders library settings line source snippet →
        ∀ inner ∈ Text.splitLines snippet, ¬ fence <+: inner := by
  constructor
  · rintro ⟨upper, source, snippet, lower, -, hrenders, -, henclosed⟩ source' snippet' hrenders'
    obtain ⟨-, rfl⟩ := hrenders.unique hrenders'
    exact (enclosed_finished_iff snippet lower).1 henclosed
  · intro hsnippet
    obtain ⟨upper, source, snippet, lower, hupper, hrenders, houtput⟩ :=
      exists_splitLines_eq hlanguage h hlines hdirective
    refine ⟨upper, source, snippet, lower, hupper, hrenders, houtput, ?_⟩
    exact (enclosed_finished_iff snippet lower).2 (hsnippet source snippet hrenders)

theorem inject_isEnclosed_iff_ticks :
    let library : Library := fun _ => .ok ⟨" ``` x".toList, "py".toList⟩
    IsEnclosed library {} ["# A\n".toList] "cinj\x7ba\x7d".toList
      "# A\n```py\n ``` x\n```\n".toList := by
  intro library
  have houtput : (inject library {} "# A\ncinj\x7ba\x7d".toList).result =
      .ok "# A\n```py\n ``` x\n```\n".toList := by decide +kernel
  have hlines : Text.splitLines "# A\ncinj\x7ba\x7d".toList =
      ["# A\n".toList] ++ "cinj\x7ba\x7d".toList :: [] := by decide
  refine (inject_isEnclosed_iff ?_ houtput hlines (by decide)).2 ?_
  · intro path source hload
    cases hload
    decide
  · intro source snippet hrenders
    have hread : Directive.parse "cinj\x7ba\x7d".toList = .ok { path := "a".toList } := by
      decide +kernel
    obtain ⟨-, rfl⟩ := hrenders.eq_of_parse hread rfl rfl
    decide

/-- A fence in a snippet closes the one around it. -/
theorem inject_isEnclosed_iff_fence :
    let library : Library := fun _ => .ok ⟨"x\n```\ny\n".toList, "md".toList⟩
    (inject library {} "cinj\x7ba\x7d\n".toList).result = .ok "```md\nx\n```\ny\n```\n".toList ∧
      ¬ IsEnclosed library {} [] "cinj\x7ba\x7d\n".toList "```md\nx\n```\ny\n```\n".toList := by
  intro library
  refine ⟨by decide +kernel, ?_⟩
  rintro ⟨upper, source, snippet, lower, -, hrenders, -, henclosed⟩
  have hread : Directive.parse "cinj\x7ba\x7d\n".toList = .ok { path := "a".toList } := by
    decide +kernel
  obtain ⟨-, rfl⟩ := hrenders.eq_of_parse hread rfl rfl
  exact absurd ((enclosed_finished_iff _ lower).1 henclosed) (by decide)

end Excerpt.Document
