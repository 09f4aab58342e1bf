import Excerpt.Kind
import Excerpt.Text.Order
/-!
# Keyword tables

A keyword table gives some words a kind of their own; every other word is an identifier. Its
entries are kept in the order of their literals, character by character, which is also the order
of their bytes in UTF-8. A literal has one entry, and the last one written wins.
-/
namespace Excerpt

/-- A table from literals to kinds, in strictly increasing order of the literals. -/
structure Keywords where
  entries : List (Text × Kind)
  sorted : entries.Pairwise (fun a b => Text.precedes a.1 b.1)
  deriving DecidableEq

namespace Keywords

/-- Enters a literal at its place in an ordered list, in place of an entry it already has. -/
def insertEntry (literal : Text) (kind : Kind) : List (Text × Kind) → List (Text × Kind)
  | [] => [(literal, kind)]
  | entry :: rest =>
    if Text.precedes literal entry.1 then (literal, kind) :: entry :: rest
    else if literal = entry.1 then (literal, kind) :: rest
    else entry :: insertEntry literal kind rest

private theorem literal_of_mem_insertEntry {literal : Text} {kind : Kind} {entry : Text × Kind} :
    ∀ {entries : List (Text × Kind)}, entry ∈ insertEntry literal kind entries →
      entry.1 = literal ∨ entry ∈ entries
  | [], h => by simp_all [insertEntry]
  | first :: rest, h => by
    rw [insertEntry] at h
    split at h
    · rcases List.mem_cons.1 h with rfl | h
      · exact .inl rfl
      · exact .inr h
    · split at h
      · rcases List.mem_cons.1 h with rfl | h
        · exact .inl rfl
        · exact .inr (List.mem_cons_of_mem _ h)
      · rcases List.mem_cons.1 h with rfl | h
        · exact .inr List.mem_cons_self
        · exact (literal_of_mem_insertEntry h).imp id (List.mem_cons_of_mem _)

theorem pairwise_insertEntry (literal : Text) (kind : Kind) {entries : List (Text × Kind)}
    (h : entries.Pairwise (fun a b => Text.precedes a.1 b.1)) :
    (insertEntry literal kind entries).Pairwise (fun a b => Text.precedes a.1 b.1) := by
  induction entries with
  | nil => simp [insertEntry]
  | cons first rest ih =>
    obtain ⟨hfirst, hrest⟩ := List.pairwise_cons.1 h
    rw [insertEntry]
    split
    · next hlt =>
      refine List.pairwise_cons.2 ⟨fun entry hmem => ?_, h⟩
      rcases List.mem_cons.1 hmem with rfl | hmem
      · exact hlt
      · exact Text.precedes_trans hlt (hfirst entry hmem)
    · next hlt =>
      split
      · next heq => exact List.pairwise_cons.2 ⟨fun entry hmem => heq ▸ hfirst entry hmem, hrest⟩
      · next hne =>
        refine List.pairwise_cons.2 ⟨fun entry hmem => ?_, ih hrest⟩
        rcases literal_of_mem_insertEntry hmem with heq | hmem
        · exact heq ▸ Text.precedes_of_ne (by simpa using hlt) hne
        · exact hfirst entry hmem

def empty : Keywords := ⟨[], .nil⟩

def insert (table : Keywords) (literal : Text) (kind : Kind) : Keywords :=
  ⟨insertEntry literal kind table.entries, pairwise_insertEntry literal kind table.sorted⟩

/-- The table of a list of entries; of two entries for one literal the later one counts. -/
def ofList (entries : List (Text × Kind)) : Keywords :=
  entries.foldl (fun table entry => table.insert entry.1 entry.2) empty

def python : Keywords :=
  ofList
    [("class".toList, .classKeyword), ("def".toList, .functionKeyword), ("@".toList, .decorator),
      ("import".toList, .importKeyword), ("from".toList, .fromKeyword)]

/-- The kind of a word; a word without an entry is an identifier. -/
def classify (table : Keywords) (word : Text) : Kind :=
  (table.entries.lookup word).getD .identifier

/-- The first literal, in the order of the table, that has a given kind. -/
def literalFor? (table : Keywords) (kind : Kind) : Option Text :=
  (table.entries.find? (·.2 = kind)).map (·.1)

def isEmpty (table : Keywords) : Bool := table.entries.isEmpty

private theorem lookup_of_mem {entries : List (Text × Kind)}
    (h : entries.Pairwise (fun a b => Text.precedes a.1 b.1)) {word : Text} {kind : Kind}
    (hmem : (word, kind) ∈ entries) : entries.lookup word = some kind := by
  induction entries with
  | nil => simp at hmem
  | cons first rest ih =>
    obtain ⟨hfirst, hrest⟩ := List.pairwise_cons.1 h
    rcases List.mem_cons.1 hmem with rfl | hmem
    · exact List.lookup_cons_self
    · have hne : word ≠ first.1 := by
        intro heq
        have hbefore := hfirst _ hmem
        simp [heq] at hbefore
      rw [List.lookup_cons, beq_false_of_ne hne]
      exact ih hrest hmem

theorem lookup_eq_some_iff {table : Keywords} {word : Text} {kind : Kind} :
    table.entries.lookup word = some kind ↔ (word, kind) ∈ table.entries := by
  refine ⟨?_, lookup_of_mem table.sorted⟩
  intro h
  obtain ⟨front, rest, hentries, -⟩ := List.lookup_eq_some_iff.1 h
  simp [hentries]

theorem classify_of_mem {table : Keywords} {word : Text} {kind : Kind}
    (h : (word, kind) ∈ table.entries) : table.classify word = kind := by
  rw [classify, lookup_eq_some_iff.2 h]
  rfl

theorem mem_of_classify_ne {table : Keywords} {word : Text}
    (h : table.classify word ≠ .identifier) : (word, table.classify word) ∈ table.entries := by
  rw [classify] at h ⊢
  cases hword : table.entries.lookup word with
  | none => simp [hword] at h
  | some kind => exact lookup_eq_some_iff.1 hword

theorem mem_of_literalFor?_eq_some {table : Keywords} {kind : Kind} {literal : Text}
    (h : table.literalFor? kind = some literal) : (literal, kind) ∈ table.entries := by
  obtain ⟨entry, hfound, rfl⟩ := Option.map_eq_some_iff.1 h
  obtain rfl : entry.2 = kind := by simpa using List.find?_some hfound
  exact List.mem_of_find?_eq_some hfound

end Keywords

/-- How a source is read: the number of spaces that make up one level of indentation, and the
keywords. A tab is always one level. -/
structure Dialect where
  indentWidth : Nat := 4
  keywords : Keywords := .python

end Excerpt
