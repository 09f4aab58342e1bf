import Excerpt.Proofs.Pairs
import Excerpt.Proofs.Pieces
import Excerpt.Proofs.Vocabulary
import Mathlib.Data.Nat.Find
/-!
# Failures

With settings that were accepted, a document fails only where a directive cannot be read, where its
source is not available, or where what it asks for is not defined there. The tables of a listing are
never asked for an entry they do not have.
-/
namespace Excerpt

namespace Listing

/-- Whether the definition of a name at an index is the first one. -/
structure FirstDefines (listing : Listing) (kind : Kind) (name : Text) (keyword : Token)
    (index : Nat) : Prop where
  defines : listing.Defines kind name keyword index
  first : ∀ other earlier, earlier < index → ¬ listing.Defines kind name other earlier

theorem Defines.exists_first {listing : Listing} {kind : Kind} {name : Text} {keyword : Token}
    {index : Nat} (h : listing.Defines kind name keyword index) :
    ∃ first place, listing.FirstDefines kind name first place ∧ place ≤ index := by
  classical
  have hexists : ∃ place other, listing.Defines kind name other place := ⟨index, keyword, h⟩
  obtain ⟨first, hfirst⟩ := Nat.find_spec hexists
  refine ⟨first, Nat.find hexists, ⟨hfirst, ?_⟩, Nat.find_min' hexists ⟨keyword, h⟩⟩
  intro other earlier hlt hother
  exact Nat.find_min hexists hlt ⟨other, hother⟩

variable {dialect : Dialect} {source : Text}

/-- A function is not found within a class exactly if none of its definitions stands below the first
declaration of the class. -/
theorem method?_read_eq_none_iff {name scope : Text} :
    (read dialect source).method? name scope = none ↔
      ∀ first place, (read dialect source).FirstDefines .classKeyword scope first place →
        ∀ keyword index, (read dialect source).Defines .functionKeyword name keyword index →
          keyword.line ≤ first.line := by
  rw [method?_eq_none_iff]
  constructor
  · intro h first place hfirst keyword index hdefines
    exact h keyword index hdefines first place hfirst.defines
  · intro h keyword index hdefines other place hother
    obtain ⟨first, earlier, hfirst, hle⟩ := hother.exists_first
    have hline := hfirst.defines.line_le hother hle
    exact (h first earlier hfirst keyword index hdefines).trans hline

theorem methodSnippet_eq_error_iff {decorated : Bool} {name scope : Text} {e : Error} :
    (read dialect source).methodSnippet decorated name scope = .error e ↔
      e = .scopeNotFound name scope ∧ (read dialect source).method? name scope = none := by
  rw [methodSnippet]
  cases hmethod : (read dialect source).method? name scope with
  | none => simp [eq_comm]
  | some found =>
    obtain ⟨index, line⟩ := found
    obtain ⟨⟨keyword, hdefines⟩, other, place, hother, rfl⟩ := of_method?_eq_some hmethod
    obtain ⟨text, htext⟩ := hdefines.exists_definitionText rfl decorated
    obtain ⟨header, hheader⟩ := hother.exists_lineAt (by decide)
    simp [hheader, htext, bind, Except.bind, pure, Except.pure]

theorem classSnippet_eq_error_iff {decorated : Bool} {name : Text} {e : Error} :
    (read dialect source).classSnippet decorated name = .error e ↔
      e = .notFound .classKeyword name ∧
        ∀ keyword index, ¬ (read dialect source).Defines .classKeyword name keyword index := by
  rw [classSnippet, ← definitions_eq_nil_iff]
  cases hfound : (read dialect source).definitions .classKeyword name with
  | nil => simp [eq_comm]
  | cons first rest =>
    have hmem : first ∈ (read dialect source).definitions .classKeyword name := by simp [hfound]
    obtain ⟨keyword, hdefines⟩ := mem_definitions_iff.1 hmem
    obtain ⟨text, htext⟩ := hdefines.exists_definitionText rfl decorated
    simp [htext, Except.map]

theorem functionSnippet_eq_error_iff {decorated : Bool} {name : Text} {scope : Option Text}
    {e : Error} :
    (read dialect source).functionSnippet decorated name scope = .error e ↔
      e = .notFound .functionKeyword name ∧
          (∀ keyword index, ¬ (read dialect source).Defines .functionKeyword name keyword index) ∨
        ∃ outer, scope = some outer ∧ outer ≠ [] ∧ e = .scopeNotFound name outer ∧
          (∃ keyword index, (read dialect source).Defines .functionKeyword name keyword index) ∧
          (read dialect source).method? name outer = none := by
  rw [functionSnippet, ← definitions_eq_nil_iff]
  cases hfound : (read dialect source).definitions .functionKeyword name with
  | nil =>
    have hnone := definitions_eq_nil_iff.1 hfound
    simp [hnone, eq_comm]
  | cons first rest =>
    have hmem : first ∈ (read dialect source).definitions .functionKeyword name := by simp [hfound]
    obtain ⟨keyword, hdefines⟩ := mem_definitions_iff.1 hmem
    have hexists : ∃ keyword index,
        (read dialect source).Defines .functionKeyword name keyword index := ⟨_, _, hdefines⟩
    obtain ⟨text, htext⟩ := hdefines.exists_definitionText rfl decorated
    cases scope with
    | none => simp [htext, Except.map]
    | some outer =>
      by_cases hne : outer = []
      · have hscope : (some outer).filter (· ≠ []) = none := by simp [hne, Option.filter]
        rw [hscope]
        simp [hne, htext, Except.map]
      · have hscope : (some outer).filter (· ≠ []) = some outer := by simp [hne, Option.filter]
        rw [hscope]
        simp [hne, hexists, methodSnippet_eq_error_iff]

end Listing

/-! ### Why a directive fails -/

/-- Why a definition cannot be extracted: it is not there, or not below the first declaration of the
class within which it is asked for. -/
inductive Target.Lacks (listing : Listing) : Target → Error → Prop
  | noClass {name : Text}
      (hnone : ∀ keyword index, ¬ listing.Defines .classKeyword name keyword index) :
      Lacks listing (.ofClass name) (.notFound .classKeyword name)
  | noFunction {name : Text} {scope : Option Text}
      (hnone : ∀ keyword index, ¬ listing.Defines .functionKeyword name keyword index) :
      Lacks listing (.ofFunction name scope) (.notFound .functionKeyword name)
  | noScope {name scope : Text} (hne : scope ≠ [])
      (hsome : ∃ keyword index, listing.Defines .functionKeyword name keyword index)
      (hbelow : ∀ first place, listing.FirstDefines .classKeyword scope first place →
        ∀ keyword index, listing.Defines .functionKeyword name keyword index →
          keyword.line ≤ first.line) :
      Lacks listing (.ofFunction name (some scope)) (.scopeNotFound name scope)

/-- Why a directive on a line of a document fails. -/
inductive Document.Fails (library : Library) (settings : Settings) (line : Text) : Error → Prop
  | unreadable {fault : DirectiveFault}
      (hparse : Directive.parse line = .error (.invalidDirective (Text.trimEnd line) fault)) :
      Fails library settings line (.invalidDirective (Text.trimEnd line) fault)
  | unavailable {directive : Directive} {e : Error} (hparse : Directive.parse line = .ok directive)
      (hload : library directive.path = .error e) : Fails library settings line e
  | lacking {directive : Directive} {source : Source} {target : Target} {e : Error}
      (hparse : Directive.parse line = .ok directive)
      (hload : library directive.path = .ok source) (htarget : directive.target? = some target)
      (hlacks : target.Lacks (Listing.read settings.dialect source.text) e) :
      Fails library settings line e

namespace Listing

theorem snippet_eq_error_iff {dialect : Dialect} {source : Text} (decorated : Bool)
    {target : Target} {e : Error} :
    (read dialect source).snippet decorated target = .error e ↔
      target.Lacks (read dialect source) e := by
  cases target with
  | ofClass name =>
    rw [snippet, classSnippet_eq_error_iff]
    constructor
    · rintro ⟨rfl, hnone⟩
      exact .noClass hnone
    · intro hlacks
      cases hlacks with
      | noClass hnone => exact ⟨rfl, hnone⟩
  | ofFunction name scope =>
    rw [snippet, functionSnippet_eq_error_iff]
    simp only [method?_read_eq_none_iff]
    constructor
    · rintro (⟨rfl, hnone⟩ | ⟨outer, rfl, hne, rfl, hsome, hbelow⟩)
      · exact .noFunction hnone
      · exact .noScope hne hsome hbelow
    · intro hlacks
      cases hlacks with
      | noFunction hnone => exact .inl ⟨rfl, hnone⟩
      | noScope hne hsome hbelow => exact .inr ⟨_, rfl, hne, rfl, hsome, hbelow⟩

end Listing

theorem result_extract_eq_error_iff {dialect : Dialect} (hwidth : 1 ≤ dialect.indentWidth)
    {source : Text} {decorated : Bool} {target : Target} {e : Error} :
    (extract dialect source decorated target).result = .error e ↔
      target.Lacks (Listing.read dialect source) e := by
  rw [result_extract hwidth, ← Listing.snippet_eq_error_iff decorated]
  cases (Listing.read dialect source).snippet decorated target with
  | error cause => simp [Except.map]
  | ok snippet => simp [Except.map]

namespace Directive

theorem exists_fault_of_parse {line : Text} {e : Error} (h : parse line = .error e) :
    ∃ fault, e = .invalidDirective (Text.trimEnd line) fault := by
  rw [parse] at h
  cases hread : (inner (Text.trimEnd line)).bind fun text => ofWords (Text.words text) with
  | error fault =>
    simp only [hread, Except.mapError, Except.error.injEq] at h
    exact ⟨fault, h.symm⟩
  | ok directive => simp [hread, Except.mapError] at h

theorem result_render_eq_error_iff {settings : Settings} (hwidth : 1 ≤ settings.indentWidth)
    {directive : Directive} {source : Text} {e : Error} :
    (directive.render settings source).result = .error e ↔
      ∃ target, directive.target? = some target ∧
        target.Lacks (Listing.read settings.dialect source) e := by
  rw [render]
  cases directive.target? with
  | none => simp
  | some target =>
    have hdialect : 1 ≤ settings.dialect.indentWidth := hwidth
    simp [result_extract_eq_error_iff hdialect]

end Directive

namespace Document

section Lines

variable {library : Library} {settings : Settings}

theorem result_injectDirective_eq_error_iff {number : Nat} {line : Text} {e : Error} :
    (injectDirective library settings number line).result = .error e ↔
      Directive.parse line = .error e ∨ ∃ directive, Directive.parse line = .ok directive ∧
        (library directive.path = .error e ∨ ∃ source, library directive.path = .ok source ∧
          (directive.render settings source.text).result = .error e) := by
  simp only [injectDirective, Run.result_bind_eq_error_iff, Run.ofExcept, Run.request, Run.note,
    Run.pure_eq, reduceCtorEq, false_or, and_false, exists_false, or_false]
  simp

theorem result_injectLine_eq_error_iff (hwidth : 1 ≤ settings.indentWidth) {number : Nat}
    {line : Text} {e : Error} :
    (injectLine library settings number line).result = .error e ↔
      Directive.isDirective line = true ∧ Fails library settings line e := by
  rw [injectLine]
  cases Directive.isDirective line with
  | false => simp
  | true =>
    rw [if_pos rfl, result_injectDirective_eq_error_iff]
    simp only [Directive.result_render_eq_error_iff hwidth, true_and]
    constructor
    · rintro (hparse | ⟨directive, hparse, hload | ⟨source, hload, target, htarget, hlacks⟩⟩)
      · obtain ⟨fault, rfl⟩ := Directive.exists_fault_of_parse hparse
        exact .unreadable hparse
      · exact .unavailable hparse hload
      · exact .lacking hparse hload htarget hlacks
    · intro hfails
      cases hfails with
      | unreadable hparse => exact .inl hparse
      | unavailable hparse hload => exact .inr ⟨_, hparse, .inl hload⟩
      | lacking hparse hload htarget hlacks =>
        exact .inr ⟨_, hparse, .inr ⟨_, hload, _, htarget, hlacks⟩⟩

theorem result_injectLines_eq_error_iff (hwidth : 1 ≤ settings.indentWidth) {number : Nat}
    {lines : List Text} {e : Error} :
    (injectLines library settings number lines).result = .error e ↔
      ∃ above line below, lines = above ++ line :: below ∧
        (∀ earlier ∈ above, ∃ text, Becomes library settings earlier text) ∧
        Directive.isDirective line = true ∧ Fails library settings line e := by
  induction lines generalizing number with
  | nil => simp [injectLines]
  | cons line rest ih =>
    simp only [injectLines, Run.result_bind_eq_error_iff, result_injectLine_eq_ok_iff,
      result_injectLine_eq_error_iff hwidth, Run.pure_eq, reduceCtorEq, and_false, exists_false,
      or_false, ih]
    constructor
    · rintro (hline | ⟨text, htext, above, other, below, rfl, habove, hother⟩)
      · exact ⟨[], line, rest, rfl, by simp, hline⟩
      · refine ⟨line :: above, other, below, rfl, ?_, hother⟩
        exact List.forall_mem_cons.2 ⟨⟨text, htext⟩, habove⟩
    · rintro ⟨above, other, below, hlines, habove, hother⟩
      cases above with
      | nil =>
        obtain ⟨rfl, -⟩ := List.cons.inj hlines
        exact .inl hother
      | cons first above =>
        obtain ⟨rfl, rfl⟩ := List.cons.inj hlines
        obtain ⟨⟨text, htext⟩, habove⟩ := List.forall_mem_cons.1 habove
        exact .inr ⟨text, htext, above, other, below, rfl, habove, hother⟩

end Lines

end Document

/-- The errors that can come up with some settings: a document has that of its first directive that
fails, a directive line that is not read is reported as such, every source can be laid out, and a
directive is not rendered only for want of the definition it asks for. -/
structure Settings.IsExact (settings : Settings) : Prop where
  inject : ∀ library document e, (Document.inject library settings document).result = .error e ↔
    ∃ above line below, Text.splitLines document = above ++ line :: below ∧
      (∀ earlier ∈ above, ∃ text, Document.Becomes library settings earlier text) ∧
      Directive.isDirective line = true ∧ Document.Fails library settings line e
  parse : ∀ line e, Directive.parse line = .error e →
    ∃ fault, e = .invalidDirective (Text.trimEnd line) fault
  read : ∀ source, ∃ listing, Listing.ofSource settings.dialect source = .ok listing
  render : ∀ (directive : Directive) source e, (directive.render settings source).result = .error e ↔
    ∃ target listing, directive.target? = some target ∧
      Listing.ofSource settings.dialect source = .ok listing ∧ target.Lacks listing e

/-- With the default settings, and with all that are accepted, the errors are exact. -/
theorem Settings.isExact_of_accepted {settings : Settings}
    (h : settings = {} ∨ ∃ document, parse document = .ok settings) : settings.IsExact := by
  have hwidth : 1 ≤ settings.indentWidth := by
    rcases h with rfl | ⟨document, hparse⟩
    · decide
    · exact (of_parse_eq_ok hparse).1
  have hread : ∀ source, Listing.ofSource settings.dialect source =
      .ok (Listing.read settings.dialect source) := Listing.ofSource_eq_ok hwidth
  constructor
  case inject =>
    intro library document e
    exact Document.result_injectLines_eq_error_iff hwidth
  case parse =>
    intro line e
    exact Directive.exists_fault_of_parse
  case read =>
    intro source
    exact ⟨_, hread source⟩
  case render =>
    intro directive source e
    rw [Directive.result_render_eq_error_iff hwidth, hread source]
    simp

theorem Settings.isExact_of_accepted_words :
    ∃ settings, parse ("indent_width = 2\n[keywords]\nstruct = \"CLASS\"\nfn = \"FUNCTION\"\n" ++
      "end = \"NEWLINE\"\n").toList = .ok settings ∧ settings.IsExact := by
  let table := Keywords.ofList [("struct".toList, .classKeyword), ("fn".toList, .functionKeyword),
    ("end".toList, .newline)]
  have hparse : parse ("indent_width = 2\n[keywords]\nstruct = \"CLASS\"\nfn = \"FUNCTION\"\n" ++
      "end = \"NEWLINE\"\n").toList = .ok ⟨2, true, some table⟩ := by
    decide +kernel
  exact ⟨_, hparse, isExact_of_accepted (.inr ⟨_, hparse⟩)⟩

end Excerpt
