import Excerpt.Directive
import Excerpt.Proofs.Words
/-!
# The spelling of flags

A flag can be written with one dash or two, and the name that it takes behind an equals sign or as
the next word. Words are read as flags exactly if they spell them, one after the other.
-/
namespace Excerpt

theorem Text.after?_eq_some_iff {lead text rest : Text} :
    Text.after? lead text = some rest ↔ text = lead ++ rest := by
  unfold Text.after?
  constructor
  · intro h
    split at h
    · next hlead =>
      obtain ⟨tail, rfl⟩ := List.isPrefixOf_iff_prefix.1 hlead
      simpa using h
    · cases h
  · rintro rfl
    simp

namespace Flag

/-- The dashes that a flag starts with. -/
inductive Dashes where
  | one
  | two
  deriving DecidableEq, Repr

/-- What a flag with a name asks for. -/
inductive Subject where
  | ofClass
  | ofFunction
  deriving DecidableEq, Repr

namespace Dashes

def text : Dashes → Text
  | one => "-".toList
  | two => "--".toList

end Dashes

namespace Subject

def text : Subject → Text
  | ofClass => "class".toList
  | ofFunction => "function".toList

def flag : Subject → Text → Flag
  | ofClass => .ofClass
  | ofFunction => .ofFunction

end Subject

def toggleText (plural : Bool) : Text :=
  if plural then "decorators".toList else "decorator".toList

def truthText (truth : Bool) : Text :=
  if truth then "true".toList else "false".toList

def assign (name : Text) : Option Text → Text
  | none => name
  | some value => name ++ '=' :: value

/-- A way to write a flag. -/
inductive Spelling where
  /-- The name stands behind an equals sign. -/
  | joined (dashes : Dashes) (subject : Subject) (name : Text) (ne_nil : name ≠ [])
  /-- The name is the next word, whatever it looks like. -/
  | apart (dashes : Dashes) (subject : Subject) (name : Text) (ne_nil : name ≠ [])
  /-- A truth value may stand behind an equals sign; without one it is true. -/
  | toggle (dashes : Dashes) (plural : Bool) (truth : Option Bool)

namespace Spelling

def words : Spelling → List Text
  | joined dashes subject name _ => [dashes.text ++ assign subject.text (some name)]
  | apart dashes subject name _ => [dashes.text ++ assign subject.text none, name]
  | toggle dashes plural truth => [dashes.text ++ assign (toggleText plural) (truth.map truthText)]

def flag : Spelling → Flag
  | joined _ subject name _ => subject.flag name
  | apart _ subject name _ => subject.flag name
  | toggle _ _ truth => .decorators (truth.getD true)

end Spelling

/-! ### The parts of a flag -/

/-- What keeps the name of a flag apart from its dashes and its value. -/
private structure IsName (name : Text) : Prop where
  ne_nil : name ≠ []
  head?_ne : name.head? ≠ some '-'
  not_mem : '=' ∉ name

private theorem Subject.isName (subject : Subject) : IsName subject.text := by
  cases subject <;> exact ⟨by decide, by decide, by decide⟩

private theorem isName_toggleText (plural : Bool) : IsName (toggleText plural) := by
  cases plural <;> exact ⟨by decide, by decide, by decide⟩

private theorem undash?_assign (dashes : Dashes) {name : Text} (h : IsName name)
    (value : Option Text) :
    undash? (dashes.text ++ assign name value) = some (assign name value) := by
  obtain ⟨c, rest, rfl⟩ := List.exists_cons_of_ne_nil h.ne_nil
  have hc : '-' ≠ c := by simpa [eq_comm] using h.head?_ne
  have hassign : ∃ tail, assign (c :: rest) value = c :: tail := by
    cases value with
    | none => exact ⟨rest, rfl⟩
    | some value => exact ⟨rest ++ '=' :: value, rfl⟩
  obtain ⟨tail, hassign⟩ := hassign
  rw [hassign]
  cases dashes with
  | one => simp [undash?, Text.after?, Dashes.text, List.isPrefixOf, hc]
  | two => simp [undash?, Text.after?, Dashes.text, List.isPrefixOf]

private theorem exists_of_undash? {word flag : Text} (h : undash? word = some flag) :
    ∃ dashes : Dashes, word = dashes.text ++ flag := by
  unfold undash? at h
  cases htwo : Text.after? "--".toList word with
  | some rest =>
    rw [htwo] at h
    exact ⟨.two, Text.after?_eq_some_iff.1 (htwo.trans h)⟩
  | none =>
    rw [htwo] at h
    exact ⟨.one, Text.after?_eq_some_iff.1 h⟩

private theorem split_assign {name : Text} (h : IsName name) (value : Option Text) :
    split (assign name value) = (name, value) := by
  have hname : ∀ c ∈ name, decide (c ≠ '=') = true := by
    intro c hc
    rw [decide_eq_true_eq]
    rintro rfl
    exact h.not_mem hc
  cases value with
  | none => simp only [split, assign, List.takeWhile_eq_self_iff.2 hname,
      List.dropWhile_eq_nil_iff.2 hname]
  | some value =>
    rw [assign, split, List.takeWhile_append_of_pos hname, List.dropWhile_append_of_pos hname]
    simp

private theorem assign_split (flag : Text) : assign (split flag).1 (split flag).2 = flag := by
  have hflag := List.takeWhile_append_dropWhile (p := fun c => decide (c ≠ '=')) (l := flag)
  unfold split
  cases hrest : flag.dropWhile (fun c => decide (c ≠ '=')) with
  | nil =>
    rw [hrest, List.append_nil] at hflag
    exact hflag
  | cons c value =>
    have hc : c = '=' := by
      have hhead := List.head?_dropWhile_not (fun c => decide (c ≠ '=')) flag
      rw [hrest] at hhead
      simpa using hhead
    rw [hrest, hc] at hflag
    exact hflag

private theorem named?_text (subject : Subject) : named? subject.text = some subject.flag := by
  cases subject <;> rfl

private theorem exists_of_named? {name : Text} {make : Text → Flag} (h : named? name = some make) :
    ∃ subject : Subject, name = subject.text ∧ make = subject.flag := by
  unfold named? at h
  split at h
  · next hname => exact ⟨.ofClass, hname, (Option.some.inj h).symm⟩
  · split at h
    · next hname => exact ⟨.ofFunction, hname, (Option.some.inj h).symm⟩
    · cases h

private theorem unnamed_toggle (plural : Bool) (truth : Option Bool) :
    unnamed (toggleText plural) (truth.map truthText) = .ok (.decorators (truth.getD true)) := by
  cases plural <;> rcases truth with _ | (_ | _) <;> rfl

private theorem exists_of_truth {value : Option Text} {wanted : Bool}
    (h : truth value = .ok wanted) :
    ∃ written : Option Bool, value = written.map truthText ∧ wanted = written.getD true := by
  unfold truth at h
  split at h
  · exact ⟨none, rfl, (Except.ok.inj h).symm⟩
  · split at h
    · next htrue => exact ⟨some true, congrArg some htrue, (Except.ok.inj h).symm⟩
    · split at h
      · next hfalse => exact ⟨some false, congrArg some hfalse, (Except.ok.inj h).symm⟩
      · cases h

private theorem exists_of_unnamed {name : Text} {value : Option Text} {flag : Flag}
    (h : unnamed name value = .ok flag) :
    ∃ (plural : Bool) (written : Option Bool), name = toggleText plural ∧
      value = written.map truthText ∧ flag = .decorators (written.getD true) := by
  unfold unnamed at h
  split at h
  · next hname =>
    cases hvalue : truth value with
    | error fault => simp [hvalue, Except.map] at h
    | ok wanted =>
      obtain ⟨written, hwritten, rfl⟩ := exists_of_truth hvalue
      rw [hvalue] at h
      rcases hname with hname | hname
      · exact ⟨false, written, hname, hwritten, (Except.ok.inj h).symm⟩
      · exact ⟨true, written, hname, hwritten, (Except.ok.inj h).symm⟩
  · cases h

/-! ### Reading flags -/

theorem parseAll_words_append (spelling : Spelling) (rest : List Text) :
    parseAll (spelling.words ++ rest) = (parseAll rest).map (spelling.flag :: ·) := by
  cases spelling with
  | joined dashes subject name hne =>
    rw [Spelling.words, List.singleton_append, parseAll, undash?_assign dashes subject.isName]
    simp only [split_assign subject.isName, named?_text, withName, if_neg hne, bind, Except.bind]
    cases parseAll rest <;> rfl
  | apart dashes subject name hne =>
    rw [Spelling.words, List.cons_append, List.singleton_append, parseAll,
      undash?_assign dashes subject.isName]
    simp only [split_assign subject.isName, named?_text, withName, if_neg hne, bind, Except.bind]
    cases parseAll rest <;> rfl
  | toggle dashes plural truth =>
    have hnamed : named? (toggleText plural) = none := by
      cases plural <;> rfl
    rw [Spelling.words, List.singleton_append, parseAll,
      undash?_assign dashes (isName_toggleText plural)]
    simp only [split_assign (isName_toggleText plural), hnamed, unnamed_toggle, bind, Except.bind]
    cases parseAll rest <;> rfl

private theorem exists_of_withName {make : Text → Flag} {name value : Text} {flag : Flag}
    (h : withName make name value = .ok flag) : value ≠ [] ∧ flag = make value := by
  unfold withName at h
  split at h
  · cases h
  · next hne => exact ⟨hne, (Except.ok.inj h).symm⟩

private theorem exists_of_cons {first : Except DirectiveFault Flag}
    {rest : Except DirectiveFault (List Flag)} {flags : List Flag}
    (h : (do return (← first) :: (← rest)) = .ok flags) :
    ∃ flag more, first = .ok flag ∧ rest = .ok more ∧ flags = flag :: more := by
  cases first with
  | error fault => cases h
  | ok flag =>
    cases rest with
    | error fault => cases h
    | ok more => exact ⟨flag, more, rfl, rfl, (Except.ok.inj h).symm⟩

private theorem exists_of_parseAll {words : List Text} {flags : List Flag}
    (h : parseAll words = .ok flags) :
    ∃ spellings : List Spelling,
      words = spellings.flatMap Spelling.words ∧ flags = spellings.map Spelling.flag := by
  -- Each step of the reader takes the words of one spelling.
  fun_induction parseAll words generalizing flags with
  | case1 => exact ⟨[], rfl, (Except.ok.inj h).symm⟩
  | case2 word rest hword => cases h
  | case3 word flag hword rest hnamed ih =>
    obtain ⟨first, more, hfirst, hmore, rfl⟩ := exists_of_cons h
    obtain ⟨spellings, rfl, rfl⟩ := ih hmore
    obtain ⟨dashes, rfl⟩ := exists_of_undash? hword
    obtain ⟨plural, written, hname, hvalue, rfl⟩ := exists_of_unnamed hfirst
    refine ⟨.toggle dashes plural written :: spellings, ?_, rfl⟩
    rw [List.flatMap_cons, Spelling.words, ← hname, ← hvalue, assign_split, List.singleton_append]
  | case4 word flag hword make value rest hvalue hnamed ih =>
    obtain ⟨first, more, hfirst, hmore, rfl⟩ := exists_of_cons h
    obtain ⟨spellings, rfl, rfl⟩ := ih hmore
    obtain ⟨dashes, rfl⟩ := exists_of_undash? hword
    obtain ⟨subject, hname, rfl⟩ := exists_of_named? hnamed
    obtain ⟨hne, rfl⟩ := exists_of_withName hfirst
    refine ⟨.joined dashes subject value hne :: spellings, ?_, rfl⟩
    rw [List.flatMap_cons, Spelling.words, ← hname, ← hvalue, assign_split, List.singleton_append]
  | case5 word flag hword make hvalue hnamed => cases h
  | case6 word flag hword make value rest hvalue hnamed ih =>
    obtain ⟨first, more, hfirst, hmore, rfl⟩ := exists_of_cons h
    obtain ⟨spellings, rfl, rfl⟩ := ih hmore
    obtain ⟨dashes, rfl⟩ := exists_of_undash? hword
    obtain ⟨subject, hname, rfl⟩ := exists_of_named? hnamed
    obtain ⟨hne, rfl⟩ := exists_of_withName hfirst
    refine ⟨.apart dashes subject value hne :: spellings, ?_, rfl⟩
    rw [List.flatMap_cons, Spelling.words, ← hname, ← hvalue, assign_split, List.cons_append,
      List.singleton_append]

/-- Words are read as flags exactly if they spell them. -/
theorem parseAll_eq_ok_iff {words : List Text} {flags : List Flag} :
    parseAll words = .ok flags ↔ ∃ spellings : List Spelling,
      words = spellings.flatMap Spelling.words ∧ flags = spellings.map Spelling.flag := by
  constructor
  · exact exists_of_parseAll
  · rintro ⟨spellings, rfl, rfl⟩
    induction spellings with
    | nil => rfl
    | cons spelling rest ih =>
      rw [List.flatMap_cons, parseAll_words_append, ih]
      rfl

/-! ### The words of a flag -/

private theorem isWord_assign (dashes : Dashes) {name : Text} (hname : Text.IsWord name)
    {value : Option Text} (hvalue : ∀ text ∈ value, Text.IsWord text) :
    Text.IsWord (dashes.text ++ assign name value) := by
  have hdashes : Text.IsWord dashes.text := by
    cases dashes <;> decide
  apply hdashes.append
  cases value with
  | none => exact hname.not_isBlank
  | some text =>
    intro c hc
    rw [assign, List.mem_append, List.mem_cons] at hc
    rcases hc with hc | rfl | hc
    · exact hname.not_isBlank c hc
    · decide
    · exact (hvalue text rfl).not_isBlank c hc

theorem Spelling.isWord_of_mem_words {spelling : Spelling}
    (h : ∀ subject name, spelling.flag = Subject.flag subject name → Text.IsWord name) :
    ∀ word ∈ spelling.words, Text.IsWord word := by
  have hsubject : ∀ subject : Subject, Text.IsWord subject.text := by
    intro subject
    cases subject <;> decide
  intro word hword
  cases spelling with
  | joined dashes subject name hne =>
    obtain rfl := List.mem_singleton.1 hword
    apply isWord_assign dashes (hsubject subject)
    rintro text ⟨⟩
    exact h subject name rfl
  | apart dashes subject name hne =>
    rw [words, List.mem_cons, List.mem_singleton] at hword
    rcases hword with rfl | rfl
    · exact isWord_assign dashes (hsubject subject) (by simp)
    · exact h subject word rfl
  | toggle dashes plural truth =>
    obtain rfl := List.mem_singleton.1 hword
    apply isWord_assign dashes
    · cases plural <;> decide
    · intro text htext
      rcases truth with _ | (_ | _)
      · cases htext
      · obtain rfl := Option.some.inj htext
        decide
      · obtain rfl := Option.some.inj htext
        decide

end Flag

end Excerpt
