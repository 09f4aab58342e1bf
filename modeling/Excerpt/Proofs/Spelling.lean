import Excerpt.Proofs.Flags
import Excerpt.Proofs.Lines
import Mathlib.Data.List.Induction
/-!
# The spelling of directives

A line is read as a directive exactly if it spells one: a path and then flags, in any order and each
in any of its spellings. Of two flags for the same thing the last one counts.
-/
namespace Excerpt

/-! ### The flags of a directive -/

namespace Flag

def className? : Flag → Option Text
  | ofClass name => some name
  | ofFunction _ => none
  | decorators _ => none

def functionName? : Flag → Option Text
  | ofClass _ => none
  | ofFunction name => some name
  | decorators _ => none

def decorators? : Flag → Option Bool
  | ofClass _ => none
  | ofFunction _ => none
  | decorators wanted => some wanted

end Flag

namespace Directive

/-- The directive in which the last flag for each thing counts. -/
def ofLast (path : Text) (flags : List Flag) : Directive where
  path := path
  className := (flags.filterMap Flag.className?).getLast?
  functionName := (flags.filterMap Flag.functionName?).getLast?
  decorators := (flags.filterMap Flag.decorators?).getLast?

def flags (directive : Directive) : List Flag :=
  (directive.className.map Flag.ofClass).toList ++
    (directive.functionName.map Flag.ofFunction).toList ++
    (directive.decorators.map Flag.decorators).toList

theorem ofFlags_eq_ofLast (path : Text) (flags : List Flag) :
    ofFlags path flags = ofLast path flags := by
  induction flags using List.reverseRecOn with
  | nil => rfl
  | append_singleton flags flag ih =>
    rw [ofFlags] at ih
    rw [ofFlags, List.foldl_append, ih]
    cases flag <;>
      simp [apply, ofLast, Flag.className?, Flag.functionName?, Flag.decorators?]

private theorem getLast?_of_perm {α : Type} {list : List α} {item : Option α}
    (h : list.Perm item.toList) : list.getLast? = item := by
  cases item with
  | none => rw [List.perm_nil.1 h]; rfl
  | some value => rw [List.perm_singleton.1 h]; rfl

private theorem filterMap_flags (directive : Directive) :
    directive.flags.filterMap Flag.className? = directive.className.toList ∧
      directive.flags.filterMap Flag.functionName? = directive.functionName.toList ∧
      directive.flags.filterMap Flag.decorators? = directive.decorators.toList := by
  unfold flags
  cases directive.className <;> cases directive.functionName <;> cases directive.decorators <;>
    exact ⟨rfl, rfl, rfl⟩

theorem ofLast_of_perm {directive : Directive} {flags : List Flag}
    (h : flags.Perm directive.flags) : ofLast directive.path flags = directive := by
  obtain ⟨hclass, hfunction, hdecorators⟩ := filterMap_flags directive
  have hclass' := h.filterMap Flag.className?
  have hfunction' := h.filterMap Flag.functionName?
  have hdecorators' := h.filterMap Flag.decorators?
  rw [hclass] at hclass'
  rw [hfunction] at hfunction'
  rw [hdecorators] at hdecorators'
  rw [ofLast, getLast?_of_perm hclass', getLast?_of_perm hfunction', getLast?_of_perm hdecorators']

/-! ### Lines -/

/-- Whether a line spells a directive: between its braces stand a path and flags, behind them
nothing but blanks, and the last flag for each thing counts. -/
def Spells (line : Text) (directive : Directive) : Prop :=
  ∃ (inner trail path : Text) (spellings : List Flag.Spelling),
    line = opening ++ (inner ++ '\x7d' :: trail) ∧ (∀ c ∈ trail, Text.isBlank c = true) ∧
      Text.words inner = path :: spellings.flatMap Flag.Spelling.words ∧
      directive = ofLast path (spellings.map Flag.Spelling.flag)

def print (path : Text) (spellings : List Flag.Spelling) : Text :=
  opening ++ ([' '].intercalate (path :: spellings.flatMap Flag.Spelling.words) ++ ['\x7d'])

/-- Whether the path and the names of a directive can be written as words. -/
structure IsPrintable (directive : Directive) : Prop where
  path : Text.IsWord directive.path
  className : ∀ name ∈ directive.className, Text.IsWord name
  functionName : ∀ name ∈ directive.functionName, Text.IsWord name

theorem inner_eq_ok_iff {line text : Text} :
    inner line = .ok text ↔ line = opening ++ (text ++ ['\x7d']) := by
  unfold inner
  constructor
  · intro h
    split at h
    · cases h
    · next rest hrest =>
      rw [Text.after?_eq_some_iff.1 hrest]
      split at h
      · next hlast =>
        obtain rfl := Except.ok.inj h
        rw [← Text.eq_dropLast_append hlast]
      · cases h
  · intro h
    rw [Text.after?_eq_some_iff.2 h]
    simp

theorem inner_trimEnd_eq_ok_iff {line text : Text} :
    inner (Text.trimEnd line) = .ok text ↔
      ∃ trail, line = opening ++ (text ++ '\x7d' :: trail) ∧ ∀ c ∈ trail, Text.isBlank c = true := by
  rw [inner_eq_ok_iff]
  constructor
  · intro h
    obtain ⟨trail, hline, htrail⟩ := Text.exists_trimEnd line
    refine ⟨trail, ?_, htrail⟩
    rw [hline, h]
    simp
  · rintro ⟨trail, rfl, htrail⟩
    have htrim := Text.trimEnd_append (opening ++ text) (by decide : Text.isBlank '\x7d' = false)
      htrail
    simpa using htrim

theorem ofWords_eq_ok_iff {words : List Text} {directive : Directive} :
    ofWords words = .ok directive ↔ ∃ path, ∃ spellings : List Flag.Spelling,
      words = path :: spellings.flatMap Flag.Spelling.words ∧
        directive = ofLast path (spellings.map Flag.Spelling.flag) := by
  cases words with
  | nil => simp [ofWords]
  | cons path rest =>
    rw [ofWords]
    constructor
    · intro h
      cases hflags : Flag.parseAll rest with
      | error fault =>
        rw [hflags] at h
        cases h
      | ok flags =>
        rw [hflags] at h
        obtain ⟨spellings, hrest, rfl⟩ := Flag.parseAll_eq_ok_iff.1 hflags
        refine ⟨path, spellings, by rw [hrest], ?_⟩
        rw [← ofFlags_eq_ofLast]
        exact (Except.ok.inj h).symm
    · rintro ⟨path, spellings, hwords, rfl⟩
      obtain ⟨rfl, hrest⟩ := List.cons.inj hwords
      rw [Flag.parseAll_eq_ok_iff.2 ⟨spellings, hrest, rfl⟩, ← ofFlags_eq_ofLast]
      rfl

theorem parse_eq (line : Text) :
    parse line = match (inner (Text.trimEnd line)).bind fun text => ofWords (Text.words text) with
      | .ok directive => .ok directive
      | .error fault => .error (.invalidDirective (Text.trimEnd line) fault) := by
  rw [parse]
  cases (inner (Text.trimEnd line)).bind fun text => ofWords (Text.words text) <;> rfl

theorem parse_eq_ok_iff_spells {line : Text} {directive : Directive} :
    parse line = .ok directive ↔ Spells line directive := by
  have hparse : parse line = .ok directive ↔ ∃ text, inner (Text.trimEnd line) = .ok text ∧
      ofWords (Text.words text) = .ok directive := by
    rw [parse_eq]
    cases inner (Text.trimEnd line) with
    | error fault => simp [Except.bind]
    | ok text => cases hwords : ofWords (Text.words text) <;> simp [Except.bind, hwords]
  rw [hparse]
  constructor
  · rintro ⟨text, hinner, hwords⟩
    obtain ⟨trail, hline, htrail⟩ := inner_trimEnd_eq_ok_iff.1 hinner
    obtain ⟨path, spellings, hspelled, hmeaning⟩ := ofWords_eq_ok_iff.1 hwords
    exact ⟨text, trail, path, spellings, hline, htrail, hspelled, hmeaning⟩
  · rintro ⟨text, trail, path, spellings, hline, htrail, hspelled, hmeaning⟩
    refine ⟨text, ?_, ?_⟩
    · exact inner_trimEnd_eq_ok_iff.2 ⟨trail, hline, htrail⟩
    · exact ofWords_eq_ok_iff.2 ⟨path, spellings, hspelled, hmeaning⟩

/-- A directive is spelled by each line that has its path and, in any order, its flags. -/
theorem spells_print {directive : Directive} {spellings : List Flag.Spelling}
    (hprintable : directive.IsPrintable)
    (h : (spellings.map Flag.Spelling.flag).Perm directive.flags) :
    Spells (print directive.path spellings) directive := by
  have hwords : ∀ word ∈ directive.path :: spellings.flatMap Flag.Spelling.words,
      Text.IsWord word := by
    intro word hword
    rcases List.mem_cons.1 hword with rfl | hword
    · exact hprintable.path
    · obtain ⟨spelling, hspelling, hword⟩ := List.mem_flatMap.1 hword
      refine Flag.Spelling.isWord_of_mem_words ?_ word hword
      intro subject name hflag
      have hmem : subject.flag name ∈ directive.flags := by
        rw [← hflag]
        exact h.subset (List.mem_map_of_mem hspelling)
      cases subject with
      | ofClass => exact hprintable.className name (by simpa [flags, Flag.Subject.flag] using hmem)
      | ofFunction =>
        exact hprintable.functionName name (by simpa [flags, Flag.Subject.flag] using hmem)
  exact ⟨_, [], directive.path, spellings, rfl, by simp, Text.words_intercalate hwords,
    (ofLast_of_perm h).symm⟩

/-- A line is read as a directive exactly if it spells it, so each way to write a directive gives
it back. Every other line is refused, with an error that shows the line without the blanks at its
end. -/
theorem parse_exact :
    (∀ line directive, parse line = .ok directive ↔ Spells line directive) ∧
    (∀ (directive : Directive) (spellings : List Flag.Spelling), directive.IsPrintable →
      (spellings.map Flag.Spelling.flag).Perm directive.flags →
      parse (print directive.path spellings) = .ok directive) ∧
    ∀ line, (∀ directive, ¬ Spells line directive) →
      ∃ fault, parse line = .error (.invalidDirective (Text.trimEnd line) fault) := by
  refine ⟨?_, ?_, ?_⟩
  · intro line directive
    exact parse_eq_ok_iff_spells
  · intro directive spellings hprintable hflags
    exact parse_eq_ok_iff_spells.2 (spells_print hprintable hflags)
  · intro line hline
    have hparse := parse_eq line
    split at hparse
    · next directive _ => exact absurd (parse_eq_ok_iff_spells.1 hparse) (hline directive)
    · next fault _ => exact ⟨fault, hparse⟩

theorem parse_exact_signs :
    let directive : Directive :=
      ⟨"a\x7d".toList, some "=b".toList, some "-class".toList, some false⟩
    let spellings : List Flag.Spelling :=
      [.toggle .one true (some false), .apart .two .ofFunction "-class".toList (by decide),
        .joined .one .ofClass "=b".toList (by decide)]
    print directive.path spellings =
        "cinj\x7ba\x7d -decorators=false --function -class -class==b\x7d".toList ∧
      parse (print directive.path spellings) = .ok directive := by
  intro directive spellings
  refine ⟨rfl, ?_⟩
  apply parse_exact.2.1 directive spellings
  · refine ⟨by decide, ?_, ?_⟩
    · rintro name ⟨⟩
      decide
    · rintro name ⟨⟩
      decide
  · decide

end Directive

end Excerpt
