import Excerpt.Snippet
/-!
# Guarded queries

A guarded query answers as the query itself does, step by step, but it gets stuck where a step is
not covered: where a text would be cut at ends that are out of order, out of range or within a
character, where a list has no entry at an index or no cut at a place, and where a difference of
numbers would be negative.
-/
namespace Excerpt

/-- Whether a range of bytes can be cut out of a text: its ends are in order and in range, and they
are boundaries between characters. -/
structure Text.IsSlice (text : Text) (span : Span) : Prop where
  start_le : span.start ≤ span.stop
  stop_le : span.stop ≤ byteLength text
  start_boundary : IsBoundary text span.start
  stop_boundary : IsBoundary text span.stop

instance (text : Text) (span : Span) : Decidable (text.IsSlice span) :=
  decidable_of_iff (span.start ≤ span.stop ∧ span.stop ≤ Text.byteLength text ∧
      Text.IsBoundary text span.start ∧ Text.IsBoundary text span.stop)
    ⟨fun h => ⟨h.1, h.2.1, h.2.2.1, h.2.2.2⟩,
      fun h => ⟨h.start_le, h.stop_le, h.start_boundary, h.stop_boundary⟩⟩

/-- The answer to a query, which may be an error, or nothing if the query got stuck. -/
abbrev Guarded (α : Type) := ExceptT Error Option α

namespace Guarded

variable {α β : Type}

def answer (result : Except Error α) : Guarded α := ExceptT.mk (some result)

def stuck : Guarded α := ExceptT.mk none

/-! ### Steps that can get stuck -/

/-- A difference that is not negative. -/
def subtract (first second : Nat) : Guarded Nat :=
  if second ≤ first then pure (first - second) else stuck

def entry (items : List α) (index : Nat) : Guarded α :=
  match items[index]? with
  | some item => pure item
  | none => stuck

def before (items : List α) (place : Nat) : Guarded (List α) :=
  if place ≤ items.length then pure (items.take place) else stuck

def behind (items : List α) (place : Nat) : Guarded (List α) :=
  if place ≤ items.length then pure (items.drop place) else stuck

def slice (text : Text) (span : Span) : Guarded Text :=
  if text.IsSlice span then pure (Text.slice text span) else stuck

/-! ### Steps that are covered -/

/-- A query goes on as it does unguarded if what follows its first step does. -/
theorem answer_bind {result : Except Error α} {next : α → Guarded β} {other : α → Except Error β}
    (h : ∀ value, result = .ok value → next value = answer (other value)) :
    answer result >>= next = answer (result >>= other) := by
  cases result with
  | error e => rfl
  | ok value => exact h value rfl

theorem answer_bind_map {result : Except Error α} {next : α → Guarded β} {f : α → β}
    (h : ∀ value, result = .ok value → next value = answer (.ok (f value))) :
    answer result >>= next = answer (result.map f) := by
  cases result with
  | error e => rfl
  | ok value => exact h value rfl

theorem answer_bind_pure (result : Except Error α) (f : α → β) :
    (answer result >>= fun value => pure (f value)) = answer (result.map f) :=
  answer_bind_map fun _ _ => rfl

@[simp] theorem answer_ok_bind (value : α) (next : α → Guarded β) :
    answer (.ok value) >>= next = next value := rfl

theorem subtract_eq {first second : Nat} (h : second ≤ first) :
    subtract first second = answer (.ok (first - second)) := if_pos h

theorem entry_eq {items : List α} {index : Nat} {item : α} (h : items[index]? = some item) :
    entry items index = answer (.ok item) := by
  rw [entry, h]
  rfl

theorem before_eq {items : List α} {place : Nat} (h : place ≤ items.length) :
    before items place = answer (.ok (items.take place)) := if_pos h

theorem behind_eq {items : List α} {place : Nat} (h : place ≤ items.length) :
    behind items place = answer (.ok (items.drop place)) := if_pos h

theorem slice_eq {text : Text} {span : Span} (h : text.IsSlice span) :
    slice text span = answer (.ok (text.slice span)) := if_pos h

theorem mapM_eq {items : List α} {step : α → Guarded β} {f : α → β}
    (h : ∀ item ∈ items, step item = answer (.ok (f item))) :
    items.mapM step = answer (.ok (items.map f)) := by
  induction items with
  | nil => rfl
  | cons item rest ih =>
    obtain ⟨hitem, hrest⟩ := List.forall_mem_cons.mp h
    rw [List.mapM_cons, hitem, answer_ok_bind, ih hrest, answer_ok_bind]
    rfl

/-! ### Queries -/

section Queries

variable (listing : Listing)

def lineText (index : Nat) : Guarded Text := do
  let line ← answer (listing.lineAt index)
  slice listing.source line.span

def tokenTexts : Guarded (List Text) :=
  listing.tokens.mapM fun token => slice listing.source token.span

def ancestor (index : Nat) : Guarded Ancestor := do
  let token ← answer (listing.tokenAt index)
  if token.depth ≤ 1 then
    return .root
  else
    let target ← subtract token.depth 1
    let earlier ← before listing.tokens index
    match earlier.zipIdx.reverse.find? fun pair =>
      pair.1.kind != .newline && pair.1.depth == target with
    | some (parent, place) => return .found place parent
    | none => throw (.notFound token.kind ("ancestor of ".toList ++ Text.ticked token.literal))

def definitionLines (kind : Kind) (name : Text) : Guarded (List Nat) :=
  (listing.definitions kind name).mapM fun index => do
    let keyword ← entry listing.tokens index
    return keyword.line

def blockSpan (index : Nat) : Guarded Span := do
  let keyword ← answer (listing.tokenAt index)
  if keyword.kind.isDefinition && listing.isIdentifierAt (index + 1) then
    let later ← behind listing.tokens (index + 2)
    let stop := (later.find? keyword.endsBlock).map Token.start
    return ⟨keyword.start, stop.getD (Text.byteLength listing.source)⟩
  else
    throw (.notFound keyword.kind keyword.literal)

def blockLines (kind : Kind) (literal : Text) : Guarded (Nat × Nat) := do
  let (anchor, index) ← answer (listing.findFirst kind literal)
  let later ← behind listing.tokens (index + 1)
  let last := (later.find? anchor.endsBlock).map Token.line
  return (anchor.line, last.getD anchor.line)

def isDecoratorLine (column : Nat) (line : Text) : Guarded Bool := do
  let offset ← subtract column 1
  match Text.splitAtByte? offset line with
  | some (indent, rest) => return indent.all Text.isBlank && rest.head? == some '@'
  | none => return false

/-- The index of the first of the decorator lines right above the line with an index. -/
def firstDecorator (column : Nat) : Nat → Guarded Nat
  | 0 => return 0
  | index + 1 => do
    let line ← lineText listing index
    let found ← isDecoratorLine column line
    if found then firstDecorator column index else return index + 1

def decoratorSpan (index : Nat) : Guarded Span := do
  let keyword ← answer (listing.tokenAt index)
  let own ← subtract keyword.line 1
  let upper ← firstDecorator listing keyword.column own
  let first ← answer (listing.lineAt upper)
  let last ← answer (listing.lineAt own)
  return ⟨first.start, last.start⟩

def decorators (index : Nat) : Guarded Text := do
  let span ← decoratorSpan listing index
  slice listing.source span

def definitionText (decorated : Bool) (index : Nat) : Guarded Text := do
  let block ← blockSpan listing index
  if decorated then
    let above ← decoratorSpan listing index
    slice listing.source (if above.start < above.stop then ⟨above.start, block.stop⟩ else block)
  else
    slice listing.source block

def classSnippet (decorated : Bool) (name : Text) : Guarded Snippet :=
  match listing.definitions .classKeyword name with
  | [] => throw (.notFound .classKeyword name)
  | first :: _ => do
    let body ← definitionText listing decorated first
    return .ofClass name body

/-- The first of the definitions of a function that stands below one of the lines on which a class
is declared. -/
def methodSnippet (decorated : Bool) (name scope : Text) (lines : List Nat) :
    List Nat → Guarded Snippet
  | [] => throw (.scopeNotFound name scope)
  | index :: later => do
    let keyword ← entry listing.tokens index
    match lines.find? (· < keyword.line) with
    | none => methodSnippet decorated name scope lines later
    | some scopeLine => do
      let above ← subtract scopeLine 1
      let header ← lineText listing above
      let body ← definitionText listing decorated index
      return .ofMethod name scope scopeLine header body

def functionSnippet (decorated : Bool) (name : Text) (scope : Option Text) : Guarded Snippet :=
  match listing.definitions .functionKeyword name with
  | [] => throw (.notFound .functionKeyword name)
  | first :: later =>
    match scope.filter (· ≠ []) with
    | none => do
      let body ← definitionText listing decorated first
      return .ofFunction name body
    | some scope => do
      let lines ← definitionLines listing .classKeyword scope
      methodSnippet listing decorated name scope lines (first :: later)

def snippet (decorated : Bool) : Target → Guarded Snippet
  | .ofClass name => classSnippet listing decorated name
  | .ofFunction name scope => functionSnippet listing decorated name scope

end Queries

end Guarded

end Excerpt
