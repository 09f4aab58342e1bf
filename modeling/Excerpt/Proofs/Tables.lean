import Excerpt.Keywords
import Excerpt.Proofs.ByteOrder
import Mathlib.Data.List.Induction
import Mathlib.Data.List.Sort
/-!
# Keyword tables as maps

The table of a list of entries is an ordered map: a literal has the kind of its last entry, and of
the literals that have a kind the least one, by its bytes, is found for it. No more of the list
counts than the last entry of each literal, so it may be written in any order that keeps these.
-/
namespace Excerpt.Keywords

/-- The kind in the last entry for a literal. -/
def lastKind? (pairs : List (Text × Kind)) (literal : Text) : Option Kind :=
  (pairs.filter (·.1 = literal)).getLast?.map (·.2)

/-- Whether a literal is the least one, by its bytes, whose last entry has a kind. -/
structure IsLeastLiteral (pairs : List (Text × Kind)) (kind : Kind) (literal : Text) : Prop where
  last_eq : lastKind? pairs literal = some kind
  least : ∀ other, lastKind? pairs other = some kind → other ≠ literal →
    literal.BytesPrecede other

/-- Whether a table is the ordered map that a list of entries makes up. -/
structure IsMapOf (pairs : List (Text × Kind)) (table : Keywords) : Prop where
  mem_iff : ∀ literal kind, (literal, kind) ∈ table.entries ↔ lastKind? pairs literal = some kind
  ordered : table.entries.Pairwise fun first second => first.1.BytesPrecede second.1
  classify_eq : ∀ word, table.classify word = (lastKind? pairs word).getD .identifier
  literalFor?_eq_some_iff : ∀ kind literal,
    table.literalFor? kind = some literal ↔ IsLeastLiteral pairs kind literal
  literalFor?_eq_none_iff : ∀ kind,
    table.literalFor? kind = none ↔ ∀ literal, lastKind? pairs literal ≠ some kind
  classify_literalFor? : ∀ kind literal,
    table.literalFor? kind = some literal → table.classify literal = kind
  eq_ofList_iff : ∀ others,
    table = ofList others ↔ ∀ literal, lastKind? pairs literal = lastKind? others literal

/-! ### The last entries -/

theorem lastKind?_concat (pairs : List (Text × Kind)) (entry : Text × Kind) (literal : Text) :
    lastKind? (pairs ++ [entry]) literal =
      if literal = entry.1 then some entry.2 else lastKind? pairs literal := by
  rw [lastKind?, List.filter_append]
  by_cases h : literal = entry.1
  · simp [h]
  · rw [List.filter_cons_of_neg (by simpa [eq_comm] using h), List.filter_nil, List.append_nil,
      if_neg h, lastKind?]

private theorem lookup_cons (entry : Text × Kind) (entries : List (Text × Kind)) (word : Text) :
    (entry :: entries).lookup word =
      if word = entry.1 then some entry.2 else entries.lookup word := by
  rw [List.lookup_cons]
  split
  · next h => rw [if_pos (eq_of_beq h)]
  · next h => rw [if_neg (ne_of_beq_false h)]

/-- Entering a literal changes what is found for this literal only. -/
theorem lookup_insertEntry (literal word : Text) (kind : Kind) (entries : List (Text × Kind)) :
    (insertEntry literal kind entries).lookup word =
      if word = literal then some kind else entries.lookup word := by
  induction entries with
  | nil => rw [insertEntry, lookup_cons]
  | cons first rest ih =>
    rw [insertEntry]
    split
    · rw [lookup_cons]
    · split
      · next hsame =>
        rw [lookup_cons, lookup_cons, ← hsame]
        by_cases hword : word = literal
        · rw [if_pos hword, if_pos hword]
        · rw [if_neg hword, if_neg hword, if_neg hword]
      · next hother =>
        rw [lookup_cons, ih, lookup_cons]
        by_cases hword : word = literal
        · rw [if_neg (hword ▸ hother), if_pos hword, if_pos hword]
        · rw [if_neg hword, if_neg hword]

theorem lookup_ofList (pairs : List (Text × Kind)) (word : Text) :
    (ofList pairs).entries.lookup word = lastKind? pairs word := by
  induction pairs using List.reverseRecOn with
  | nil => rfl
  | append_singleton pairs entry ih =>
    have hinsert : ofList (pairs ++ [entry]) = (ofList pairs).insert entry.1 entry.2 := by
      rw [ofList, List.foldl_concat]
      rfl
    rw [hinsert, lastKind?_concat, ← ih]
    exact lookup_insertEntry entry.1 word entry.2 _

theorem mem_ofList_iff {pairs : List (Text × Kind)} {literal : Text} {kind : Kind} :
    (literal, kind) ∈ (ofList pairs).entries ↔ lastKind? pairs literal = some kind := by
  rw [← lookup_eq_some_iff, lookup_ofList]

/-! ### Tables with the same entries -/

/-- Tables in which the same is found for every word are equal: an ordered list has no other order. -/
theorem eq_of_lookup_eq {first second : Keywords}
    (h : ∀ word, first.entries.lookup word = second.entries.lookup word) : first = second := by
  let before (entry other : Text × Kind) : Prop := Text.precedes entry.1 other.1 = true
  have hirrefl : ∀ entry, ¬ before entry entry := by simp [before]
  have : Std.Irrefl before := ⟨hirrefl⟩
  have : Std.Antisymm before :=
    ⟨fun entry other hlt hgt => absurd (Text.precedes_trans hlt hgt) (hirrefl entry)⟩
  have hentries : first.entries = second.entries := by
    apply List.Pairwise.eq_of_mem_iff (r := before) first.sorted second.sorted
    intro entry
    rw [← lookup_eq_some_iff, h, lookup_eq_some_iff]
  cases first
  cases second
  simp_all

theorem ofList_eq_iff {pairs others : List (Text × Kind)} :
    ofList pairs = ofList others ↔ ∀ literal, lastKind? pairs literal = lastKind? others literal := by
  constructor
  · intro h literal
    rw [← lookup_ofList, h, lookup_ofList]
  · intro h
    apply eq_of_lookup_eq
    intro word
    rw [lookup_ofList, lookup_ofList, h]

/-! ### The literal of a kind -/

theorem pairwise_bytesPrecede (table : Keywords) :
    table.entries.Pairwise fun first second => first.1.BytesPrecede second.1 :=
  table.sorted.imp Text.precedes_iff_bytesPrecede.mp

theorem bytesPrecede_of_literalFor?_eq_some {table : Keywords} {kind : Kind}
    {literal other : Text} (h : table.literalFor? kind = some literal)
    (hmem : (other, kind) ∈ table.entries) (hne : other ≠ literal) :
    literal.BytesPrecede other := by
  obtain ⟨entry, hfound, rfl⟩ := Option.map_eq_some_iff.mp h
  obtain ⟨-, front, behind, hentries, hfront⟩ := List.find?_eq_some_iff_append.mp hfound
  have hordered := table.pairwise_bytesPrecede
  rw [hentries, List.pairwise_append] at hordered
  rw [hentries, List.mem_append, List.mem_cons] at hmem
  rcases hmem with hmem | hmem | hmem
  · -- An entry with the kind further up would have been found.
    simpa using hfront _ hmem
  · exact absurd (congrArg Prod.fst hmem) hne
  · exact (List.pairwise_cons.mp hordered.2.1).1 _ hmem

theorem literalFor?_eq_none_iff {table : Keywords} {kind : Kind} :
    table.literalFor? kind = none ↔ ∀ literal, (literal, kind) ∉ table.entries := by
  rw [literalFor?, Option.map_eq_none_iff, List.find?_eq_none]
  constructor
  · intro h literal hmem
    exact h _ hmem (by simp)
  · intro h entry hmem hkind
    obtain rfl : entry.2 = kind := by simpa using hkind
    exact h entry.1 hmem

theorem IsLeastLiteral.unique {pairs : List (Text × Kind)} {kind : Kind} {literal other : Text}
    (h : IsLeastLiteral pairs kind literal) (h' : IsLeastLiteral pairs kind other) :
    literal = other := by
  by_contra hne
  have hbefore := h.least other h'.last_eq (Ne.symm hne)
  have hbehind := h'.least literal h.last_eq hne
  exact Text.BytesPrecede.irrefl literal (hbefore.trans hbehind)

/-- The table of a list is the ordered map of its last entries, read in both directions. -/
theorem ofList_isMapOf (pairs : List (Text × Kind)) : (ofList pairs).IsMapOf pairs := by
  have hleast : ∀ kind literal, (ofList pairs).literalFor? kind = some literal →
      IsLeastLiteral pairs kind literal := by
    intro kind literal h
    refine ⟨mem_ofList_iff.mp (mem_of_literalFor?_eq_some h), ?_⟩
    intro other hother hne
    exact bytesPrecede_of_literalFor?_eq_some h (mem_ofList_iff.mpr hother) hne
  constructor
  case mem_iff => exact fun _ _ => mem_ofList_iff
  case ordered => exact pairwise_bytesPrecede _
  case classify_eq =>
    intro word
    rw [classify, lookup_ofList]
  case literalFor?_eq_some_iff =>
    intro kind literal
    refine ⟨hleast kind literal, ?_⟩
    intro h
    cases hfound : (ofList pairs).literalFor? kind with
    | none => exact absurd (mem_ofList_iff.mpr h.last_eq) (literalFor?_eq_none_iff.mp hfound literal)
    | some other => rw [(hleast kind other hfound).unique h]
  case literalFor?_eq_none_iff =>
    intro kind
    rw [literalFor?_eq_none_iff]
    simp only [mem_ofList_iff, ne_eq]
  case classify_literalFor? =>
    intro kind literal h
    exact classify_of_mem (mem_of_literalFor?_eq_some h)
  case eq_ofList_iff => exact fun _ => ofList_eq_iff

/-- The second `z` takes the place of the first one, and `～` takes up fewer bytes than `😀`. -/
example : (ofList [("z".toList, .classKeyword), ("😀".toList, .classKeyword),
    ("～".toList, .classKeyword), ("z".toList, .functionKeyword)]).literalFor? .classKeyword =
      some "～".toList := by
  decide

end Excerpt.Keywords
