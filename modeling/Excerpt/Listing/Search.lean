import Excerpt.Listing
/-!
# Search in a listing

Tokens are found by kind and literal. A definition is a keyword directly followed by an identifier,
which tells it from a mere reference to its name. The ancestor of a token is the last token before
it that is one level shallower.
-/
namespace Excerpt

/-- What encloses a token: nothing, or a token one level shallower. -/
inductive Ancestor where
  | root
  | found (index : Nat) (token : Token)
  deriving DecidableEq, Repr

/-- The ancestors of a token from the inside out, by index, and how the search for them ended. -/
structure Lineage where
  indices : List Nat
  ending : Except Error Unit

namespace Listing

/-- The tokens of a kind and literal, with their indices, in the order of the source. -/
def occurrences (listing : Listing) (kind : Kind) (literal : Text) : List (Token × Nat) :=
  listing.tokens.zipIdx.filter (·.1.is kind literal)

def findFirst (listing : Listing) (kind : Kind) (literal : Text) : Except Error (Token × Nat) :=
  match listing.tokens.zipIdx.find? (·.1.is kind literal) with
  | some occurrence => .ok occurrence
  | none => .error (.notFound kind literal)

/-- Every token of a kind and literal, with its index; it is an error if there is none. -/
def findAll (listing : Listing) (kind : Kind) (literal : Text) :
    Except Error (List (Token × Nat)) :=
  match listing.occurrences kind literal with
  | [] => .error (.notFound kind literal)
  | found => .ok found

/-- The keywords of the definitions of a name, with their indices, in the order of the source. -/
def definitionKeywords (listing : Listing) (kind : Kind) (name : Text) : List (Token × Nat) :=
  ((listing.tokens.zip listing.tokens.tail).zipIdx.filter fun pair =>
    pair.1.1.kind == kind && pair.1.2.is .identifier name).map fun pair => (pair.1.1, pair.2)

def definitions (listing : Listing) (kind : Kind) (name : Text) : List Nat :=
  (listing.definitionKeywords kind name).map (·.2)

def definitionLines (listing : Listing) (kind : Kind) (name : Text) : List Nat :=
  (listing.definitionKeywords kind name).map (·.1.line)

/-- Whether a token can be the ancestor of one at the given depth. -/
def isParent (depth : Nat) (candidate : Token) : Bool :=
  candidate.kind != .newline && candidate.depth == depth - 1

def parent? (listing : Listing) (index depth : Nat) : Option (Token × Nat) :=
  (listing.tokens.take index).zipIdx.reverse.find? (isParent depth ·.1)

def ancestor (listing : Listing) (index : Nat) : Except Error Ancestor := do
  let token ← listing.tokenAt index
  if token.depth ≤ 1 then
    return .root
  match listing.parent? index token.depth with
  | some (parent, place) => return .found place parent
  | none => throw (.notFound token.kind ("ancestor of ".toList ++ Text.ticked token.literal))

private theorem parent?_lt {listing : Listing} {index depth place : Nat} {parent : Token}
    (h : listing.parent? index depth = some (parent, place)) : place < index := by
  have hmem := List.mem_of_find?_eq_some h
  rw [List.mem_reverse] at hmem
  have := List.snd_lt_of_mem_zipIdx hmem
  simp only [List.length_take] at this
  omega

theorem ancestor_lt {listing : Listing} {index place : Nat} {parent : Token}
    (h : listing.ancestor index = .ok (.found place parent)) : place < index := by
  unfold ancestor at h
  cases ht : listing.tokenAt index with
  | error e => simp [ht, bind, Except.bind] at h
  | ok token =>
    simp only [ht, bind, Except.bind] at h
    split at h
    · simp [pure, Except.pure] at h
    · split at h
      · next hp =>
        simp only [pure, Except.pure, Except.ok.injEq, Ancestor.found.injEq] at h
        exact parent?_lt (h.1 ▸ hp)
      · simp [throw, throwThe, MonadExceptOf.throw] at h

/-- The ancestors of the token at `index`, each one the ancestor of the one before it. -/
def ancestors (listing : Listing) (index : Nat) : Lineage :=
  match _h : listing.ancestor index with
  | .ok .root => ⟨[], .ok ()⟩
  | .ok (.found place _) =>
    let further := listing.ancestors place
    ⟨place :: further.indices, further.ending⟩
  | .error e => ⟨[], .error e⟩
termination_by index
decreasing_by exact ancestor_lt ‹_›

end Listing

end Excerpt
