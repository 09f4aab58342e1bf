import Excerpt.Document
import Excerpt.Proofs.Lines
/-!
# Documents in two parts

A document that is cut at the end of a line can be injected in two parts: what is loaded, what is
logged and what comes out of the whole is that of the first part followed by that of the second.
Only the line numbers in the log depend on what stands before.
-/
namespace Excerpt

/-- An entry of the log when so many lines more stand before the document. -/
def LogEntry.shift (lines : Nat) : LogEntry → LogEntry
  | injected line path bytes => injected (line + lines) path bytes
  | boundary crossed => boundary crossed
  | listed tokens lines => listed tokens lines
  | extracted snippet => extracted snippet

namespace Run

variable {α β : Type}

instance : LawfulMonad Run := LawfulMonad.mk' Run
  (by
    intro α run
    obtain ⟨loads, log, result⟩ := run
    cases result with
    | error e => rfl
    | ok value => simp [Functor.map, andThen, ofExcept])
  (by
    intro α β value next
    simp)
  bind_bind

def shift (lines : Nat) (run : Run α) : Run α :=
  { run with log := run.log.map (LogEntry.shift lines) }

theorem shift_bind (lines : Nat) (run : Run α) (next : α → Run β) :
    (run >>= next).shift lines = run.shift lines >>= fun value => (next value).shift lines := by
  obtain ⟨loads, log, result⟩ := run
  cases result with
  | error e => rfl
  | ok value => simp [shift]

theorem shift_ofExcept (lines : Nat) (result : Except Error α) :
    (ofExcept result).shift lines = ofExcept result := rfl

theorem shift_pure (lines : Nat) (value : α) : (pure value : Run α).shift lines = pure value := rfl

theorem shift_request (lines : Nat) (path : Text) : (request path).shift lines = request path := rfl

theorem shift_note (lines : Nat) (entry : LogEntry) :
    (note entry).shift lines = note (entry.shift lines) := rfl

end Run

/-! ### Extraction knows no document -/

theorem Listing.shift_load (lines : Nat) (dialect : Dialect) (source : Text) :
    (load dialect source).shift lines = load dialect source := by
  rw [load, Run.shift_bind, Run.shift_ofExcept]
  congr 1
  funext listing
  simp [Run.shift, log, LogEntry.shift, Function.comp_def]

theorem Listing.shift_extract (lines : Nat) (listing : Listing) (decorated : Bool)
    (target : Target) :
    (listing.extract decorated target).shift lines = listing.extract decorated target := by
  simp only [extract, Run.shift_bind, Run.shift_ofExcept, Run.shift_note, Run.shift_pure,
    LogEntry.shift]

theorem Directive.shift_render (lines : Nat) (directive : Directive) (settings : Settings)
    (source : Text) :
    (directive.render settings source).shift lines = directive.render settings source := by
  unfold render
  split
  · rfl
  · simp only [extract, Run.shift_bind, Listing.shift_load, Listing.shift_extract]

/-! ### Injection -/

namespace Document

variable (library : Library) (settings : Settings)

theorem shift_injectLine (lines number : Nat) (line : Text) :
    (injectLine library settings number line).shift lines =
      injectLine library settings (number + lines) line := by
  unfold injectLine injectDirective
  split
  · simp only [Run.shift_bind, Run.shift_ofExcept, Run.shift_request, Directive.shift_render,
      Run.shift_note, Run.shift_pure, LogEntry.shift]
  · rfl

theorem shift_injectLines (lines number : Nat) (texts : List Text) :
    (injectLines library settings number texts).shift lines =
      injectLines library settings (number + lines) texts := by
  induction texts generalizing number with
  | nil => rfl
  | cons line rest ih =>
    simp only [injectLines, Run.shift_bind, shift_injectLine, ih, Run.shift_pure,
      Nat.add_right_comm number lines 1]

theorem injectLines_append (number : Nat) (first second : List Text) :
    injectLines library settings number (first ++ second) = (do
      let upper ← injectLines library settings number first
      let lower ← injectLines library settings (number + first.length) second
      return upper ++ lower) := by
  induction first generalizing number with
  | nil => simp only [injectLines, List.nil_append, List.length_nil, Nat.add_zero, pure_bind,
      bind_pure]
  | cons line rest ih =>
    simp only [List.cons_append, injectLines, ih, bind_assoc, pure_bind, List.append_assoc,
      List.length_cons, Nat.add_assoc, Nat.add_comm 1]

theorem injectLines_of_not_directive (number : Nat) {lines : List Text}
    (h : ∀ line ∈ lines, ¬ Directive.opening <+: line) :
    injectLines library settings number lines = pure lines.flatten := by
  induction lines generalizing number with
  | nil => rfl
  | cons line rest ih =>
    have hline : Directive.isDirective line = false := by
      rw [Directive.isDirective, ← Bool.not_eq_true, List.isPrefixOf_iff_prefix]
      exact h line List.mem_cons_self
    have hrest := ih (number + 1) fun other hmem => h other (List.mem_cons_of_mem _ hmem)
    simp only [injectLines, injectLine, hline, hrest, Bool.false_eq_true, if_false, pure_bind,
      List.flatten_cons]

theorem inject_eq_bind {first : Text} (hfirst : Text.EndsLine first) (second : Text) :
    inject library settings (first ++ second) = (do
      let upper ← inject library settings first
      let lower ← (inject library settings second).shift (Text.splitLines first).length
      return upper ++ lower) := by
  rw [inject, Text.splitLines_append hfirst, injectLines_append, ← shift_injectLines]
  rfl

/-- Behind the end of a line, a document is injected as if its second part stood alone, unless the
first part fails: then the whole fails in the same way, with the same loads and log. A document
without directives stays as it is, and nothing is loaded. -/
theorem inject_append :
    (∀ first second : Text, Text.EndsLine first →
      (∀ e, (inject library settings first).result = .error e →
        inject library settings (first ++ second) = inject library settings first) ∧
      ∀ text, (inject library settings first).result = .ok text →
        inject library settings (first ++ second) =
          ⟨(inject library settings first).loads ++ (inject library settings second).loads,
            (inject library settings first).log ++ (inject library settings second).log.map
              (LogEntry.shift (Text.splitLines first).length),
            (inject library settings second).result.map (text ++ ·)⟩) ∧
    ∀ document : Text, (∀ line ∈ Text.splitLines document, ¬ Directive.opening <+: line) →
      inject library settings document = ⟨[], [], .ok document⟩ := by
  constructor
  · intro first second hfirst
    rw [inject_eq_bind library settings hfirst]
    cases hupper : inject library settings first with
    | mk loads log result =>
      constructor
      · rintro e rfl
        rfl
      · rintro text rfl
        rw [Run.bind_ok, Run.shift]
        cases (inject library settings second).result with
        | error e => simp [Except.map]
        | ok lower => simp [Except.map]
  · intro document hplain
    rw [inject, injectLines_of_not_directive library settings 1 hplain, Text.flatten_splitLines,
      Run.pure_eq]

theorem inject_append_twice :
    let library : Library := fun path =>
      if path = "a".toList then .ok ⟨"x".toList, "py".toList⟩
      else .error (.unavailable path "not found".toList)
    let first := "cinj\x7ba\x7d\n".toList
    let second := "\ncinj\x7ba\x7d".toList
    Text.EndsLine first ∧ inject library {} (first ++ second) =
      ⟨["a".toList, "a".toList], [.injected 1 "a".toList 1, .injected 3 "a".toList 1],
        .ok "```py\nx\n```\n\n```py\nx\n```\n".toList⟩ := by
  intro library first second
  have hfirst : Text.EndsLine first := .inr (by decide)
  have hupper : (inject library {} first).result = .ok "```py\nx\n```\n".toList := rfl
  refine ⟨hfirst, ?_⟩
  rw [((inject_append library {}).1 first second hfirst).2 _ hupper]
  rfl

end Document

end Excerpt
