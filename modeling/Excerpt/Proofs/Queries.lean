import Excerpt.Proofs.Pairs
import Excerpt.Proofs.Slices
/-!
# Queries never get stuck

Every query about the listing of a text answers the same whether it is guarded or not. What it cuts
out is a slice, lines, columns and depths are counted from one, and the places it goes to are within
the lists, so that no step of it is uncovered.
-/
namespace Excerpt

/-- Whether no query about a listing gets stuck: guarded, each one answers as it does unguarded. All
tokens but the last take up a byte of the text, so that indices grow no larger than places in it. -/
structure Listing.IsSafe (listing : Listing) : Prop where
  length_le : listing.tokens.length ≤ Text.byteLength listing.source + 1
  lineText : ∀ index,
    Guarded.lineText listing index = .answer ((listing.lineAt index).map Line.text)
  tokenTexts : Guarded.tokenTexts listing = .answer (.ok listing.tokenTexts)
  ancestor : ∀ index, Guarded.ancestor listing index = .answer (listing.ancestor index)
  definitionLines : ∀ kind name, Guarded.definitionLines listing kind name =
    .answer (.ok (listing.definitionLines kind name))
  blockSpan : ∀ index, Guarded.blockSpan listing index = .answer (listing.blockSpan index)
  blockLines : ∀ kind literal,
    Guarded.blockLines listing kind literal = .answer (listing.blockLines kind literal)
  decoratorSpan : ∀ index,
    Guarded.decoratorSpan listing index = .answer (listing.decoratorSpan index)
  decorators : ∀ index, Guarded.decorators listing index = .answer (listing.decorators index)
  snippet : ∀ decorated target,
    Guarded.snippet listing decorated target = .answer (listing.snippet decorated target)

/-! ### Queries about any listing -/

namespace Listing

variable {listing : Listing} {index : Nat}

theorem lt_of_isIdentifierAt (h : listing.isIdentifierAt index = true) :
    index < listing.tokens.length := by
  by_contra hge
  rw [isIdentifierAt, List.getElem?_eq_none (Nat.le_of_not_lt hge)] at h
  cases h

theorem lt_of_findFirst {kind : Kind} {literal : Text} {found : Token × Nat}
    (h : listing.findFirst kind literal = .ok found) : found.2 < listing.tokens.length := by
  unfold findFirst at h
  split at h
  · next hfind =>
    rw [Except.ok.injEq] at h
    have hget := List.mem_zipIdx_iff_getElem?.mp (h ▸ List.mem_of_find?_eq_some hfind)
    exact (List.getElem?_eq_some_iff.mp hget).1
  · cases h

end Listing

namespace Guarded

variable (listing : Listing)

theorem ancestor_eq (index : Nat) : ancestor listing index = answer (listing.ancestor index) := by
  rw [ancestor, Listing.ancestor]
  apply answer_bind
  intro token htoken
  have hlength := (List.getElem?_eq_some_iff.mp (Listing.tokenAt_eq_ok_iff.mp htoken)).1
  split
  · rfl
  · next hdeep =>
    rw [subtract_eq (by omega), answer_ok_bind, before_eq hlength.le, answer_ok_bind]
    -- What is left is the search for the parent, written out.
    have hsearch : ((listing.tokens.take index).zipIdx.reverse.find? fun pair =>
        pair.1.kind != .newline && pair.1.depth == token.depth - 1) =
          listing.parent? index token.depth := rfl
    rw [hsearch]
    cases listing.parent? index token.depth with
    | none => rfl
    | some found => rfl

theorem definitionLines_eq (kind : Kind) (name : Text) :
    definitionLines listing kind name = answer (.ok (listing.definitionLines kind name)) := by
  rw [definitionLines, Listing.definitions, List.mapM_map, Listing.definitionLines]
  apply mapM_eq
  intro pair hmem
  have hdefines := Listing.mem_definitionKeywords_iff.mp hmem
  change entry listing.tokens pair.2 >>= _ = _
  rw [entry_eq hdefines.keyword_eq, answer_ok_bind]
  rfl

theorem blockSpan_eq (index : Nat) :
    blockSpan listing index = answer (listing.blockSpan index) := by
  rw [blockSpan, Listing.blockSpan]
  apply answer_bind
  intro keyword hkeyword
  split
  · next hpair =>
    have hname := Listing.lt_of_isIdentifierAt (Bool.and_eq_true_iff.mp hpair).2
    rw [behind_eq hname, answer_ok_bind]
    rfl
  · rfl

theorem blockLines_eq (kind : Kind) (literal : Text) :
    blockLines listing kind literal = answer (listing.blockLines kind literal) := by
  rw [blockLines, Listing.blockLines]
  apply answer_bind
  intro found hfound
  change behind listing.tokens (found.2 + 1) >>= _ = _
  rw [behind_eq (Listing.lt_of_findFirst hfound), answer_ok_bind]
  rfl

end Guarded

/-! ### Decorators -/

namespace Listing

theorem decoratorCount_succ {listing : Listing} {column index : Nat} {line : Line}
    (h : listing.lines[index]? = some line) :
    listing.decoratorCount column (index + 1) =
      if isDecoratorLine column line.text then listing.decoratorCount column index + 1 else 0 := by
  rw [decoratorCount, List.take_add_one, h, Option.toList_some, List.reverse_append,
    List.reverse_singleton, List.singleton_append, List.takeWhile_cons]
  split
  · rfl
  · rfl

end Listing

namespace Guarded

theorem isDecoratorLine_eq {column : Nat} (h : 1 ≤ column) (line : Text) :
    isDecoratorLine column line = answer (.ok (Listing.isDecoratorLine column line)) := by
  rw [isDecoratorLine, Listing.isDecoratorLine, subtract_eq h, answer_ok_bind]
  cases Text.splitAtByte? (column - 1) line with
  | none => rfl
  | some cut => rfl

variable {dialect : Dialect} {source : Text}

theorem lineText_eq (dialect : Dialect) (source : Text) (index : Nat) :
    lineText (.read dialect source) index =
      answer (((Listing.read dialect source).lineAt index).map Line.text) := by
  rw [lineText]
  apply answer_bind_map
  intro line hline
  have hmem := List.mem_of_getElem? (Listing.lineAt_eq_ok_iff.mp hline)
  rw [Listing.read_source, slice_eq (Listing.isSlice_of_mem_linesOf hmem),
    Listing.slice_of_mem_linesOf hmem]

theorem tokenTexts_eq (dialect : Dialect) (source : Text) :
    tokenTexts (.read dialect source) =
      answer (.ok (Listing.read dialect source).tokenTexts) := by
  apply mapM_eq
  intro token hmem
  exact slice_eq (Listing.isSlice_of_mem_tokensOf hmem)

theorem firstDecorator_eq {column index : Nat} (hcolumn : 1 ≤ column)
    (h : index ≤ (Listing.linesOf source).length) :
    firstDecorator (.read dialect source) column index =
      answer (.ok (index - (Listing.read dialect source).decoratorCount column index)) := by
  induction index with
  | zero =>
    rw [Nat.zero_sub]
    rfl
  | succ index ih =>
    have hline : (Listing.read dialect source).lines[index]? = some _ :=
      List.getElem?_eq_getElem h
    rw [firstDecorator, lineText_eq, Listing.lineAt_eq_ok_iff.mpr hline, Except.map, answer_ok_bind,
      isDecoratorLine_eq hcolumn, answer_ok_bind, Listing.decoratorCount_succ hline]
    split
    · rw [ih (Nat.le_of_succ_le h), Nat.add_sub_add_right]
    · rfl

theorem decoratorSpan_eq (dialect : Dialect) (source : Text) (index : Nat) :
    decoratorSpan (.read dialect source) index =
      answer ((Listing.read dialect source).decoratorSpan index) := by
  rw [decoratorSpan, Listing.decoratorSpan]
  apply answer_bind
  intro keyword hkeyword
  have hget := Listing.tokenAt_eq_ok_iff.mp hkeyword
  have hplaced := Token.isPlaced_of_mem (List.mem_of_getElem? hget)
  rw [subtract_eq hplaced.one_le_line, answer_ok_bind,
    firstDecorator_eq hplaced.one_le_column (Listing.line_le_length hget), answer_ok_bind]
  apply answer_bind
  intro first _
  apply answer_bind
  intro last _
  rfl

end Guarded

/-! ### Definitions -/

namespace Guarded

section Read

variable (dialect : Dialect) (source : Text)

theorem decorators_eq (index : Nat) :
    decorators (.read dialect source) index =
      answer ((Listing.read dialect source).decorators index) := by
  rw [decorators, decoratorSpan_eq, Listing.decorators]
  apply answer_bind_map
  intro span hspan
  exact slice_eq (Listing.isSlice_of_decoratorSpan hspan)

theorem definitionText_eq (decorated : Bool) (index : Nat) :
    definitionText (.read dialect source) decorated index =
      answer ((Listing.read dialect source).definitionText decorated index) := by
  rw [definitionText, blockSpan_eq, Listing.definitionText, Listing.definitionSpan]
  cases hblock : (Listing.read dialect source).blockSpan index with
  | error e => rfl
  | ok block =>
    have hplain := Listing.isSlice_of_blockSpan hblock
    rw [answer_ok_bind]
    cases decorated with
    | false => exact slice_eq hplain
    | true =>
      rw [if_pos rfl, decoratorSpan_eq]
      cases habove : (Listing.read dialect source).decoratorSpan index with
      | error e => rfl
      | ok above =>
        apply slice_eq
        split
        · exact Listing.isSlice_of_definition hblock habove
        · exact hplain

theorem classSnippet_eq (decorated : Bool) (name : Text) :
    classSnippet (.read dialect source) decorated name =
      answer ((Listing.read dialect source).classSnippet decorated name) := by
  rw [classSnippet, Listing.classSnippet]
  cases (Listing.read dialect source).definitions .classKeyword name with
  | nil => rfl
  | cons first later =>
    dsimp only
    rw [definitionText_eq]
    exact answer_bind_pure _ _

private theorem methodSnippet_map_eq (decorated : Bool) (name scope : Text) {lines : List Nat}
    (hlines : ∀ line ∈ lines, 1 ≤ line) {keywords : List (Token × Nat)}
    (hkeywords : ∀ pair ∈ keywords, (Listing.tokensOf dialect source)[pair.2]? = some pair.1) :
    methodSnippet (.read dialect source) decorated name scope lines (keywords.map (·.2)) =
      answer (match keywords.findSome? fun (keyword, index) =>
          (lines.find? (· < keyword.line)).map (index, ·) with
        | none => .error (.scopeNotFound name scope)
        | some (index, scopeLine) => do
          let header ← (Listing.read dialect source).lineAt (scopeLine - 1)
          let body ← (Listing.read dialect source).definitionText decorated index
          return .ofMethod name scope scopeLine header.text body) := by
  induction keywords with
  | nil => rfl
  | cons pair rest ih =>
    obtain ⟨keyword, index⟩ := pair
    obtain ⟨hkeyword, hrest⟩ := List.forall_mem_cons.mp hkeywords
    rw [List.map_cons, methodSnippet, Listing.read_tokens, entry_eq hkeyword, answer_ok_bind,
      List.findSome?_cons]
    dsimp only
    cases hfind : lines.find? (· < keyword.line) with
    | none => exact ih hrest
    | some line =>
      dsimp only [Option.map_some]
      rw [subtract_eq (hlines line (List.mem_of_find?_eq_some hfind)), answer_ok_bind, lineText_eq,
        definitionText_eq]
      cases (Listing.read dialect source).lineAt (line - 1) with
      | error e => rfl
      | ok header =>
        cases (Listing.read dialect source).definitionText decorated index with
        | error e => rfl
        | ok body => rfl

theorem functionSnippet_eq (decorated : Bool) (name : Text) (scope : Option Text) :
    functionSnippet (.read dialect source) decorated name scope =
      answer ((Listing.read dialect source).functionSnippet decorated name scope) := by
  rw [functionSnippet, Listing.functionSnippet]
  cases hdefined : (Listing.read dialect source).definitions .functionKeyword name with
  | nil => rfl
  | cons first later =>
    dsimp only
    cases scope.filter (· ≠ []) with
    | none =>
      dsimp only
      rw [definitionText_eq]
      exact answer_bind_pure _ _
    | some scope =>
      dsimp only
      rw [definitionLines_eq, answer_ok_bind, ← hdefined]
      apply methodSnippet_map_eq
      · intro line hline
        obtain ⟨keyword, index, hdefines, rfl⟩ := Listing.mem_definitionLines_iff.mp hline
        exact (Token.isPlaced_of_mem (List.mem_of_getElem? hdefines.keyword_eq)).one_le_line
      · intro pair hpair
        exact (Listing.mem_definitionKeywords_iff.mp hpair).keyword_eq

theorem snippet_eq (decorated : Bool) (target : Target) :
    snippet (.read dialect source) decorated target =
      answer ((Listing.read dialect source).snippet decorated target) := by
  cases target with
  | ofClass name => exact classSnippet_eq dialect source decorated name
  | ofFunction name scope => exact functionSnippet_eq dialect source decorated name scope

end Read

end Guarded

/-- No query about the listing of a text gets stuck. -/
theorem Listing.isSafe_read (dialect : Dialect) (source : Text) : (read dialect source).IsSafe := by
  constructor
  case length_le => exact length_tokensOf_le dialect source
  case lineText => exact Guarded.lineText_eq dialect source
  case tokenTexts => exact Guarded.tokenTexts_eq dialect source
  case ancestor => exact Guarded.ancestor_eq _
  case definitionLines => exact Guarded.definitionLines_eq _
  case blockSpan => exact Guarded.blockSpan_eq _
  case blockLines => exact Guarded.blockLines_eq _
  case decoratorSpan => exact Guarded.decoratorSpan_eq dialect source
  case decorators => exact Guarded.decorators_eq dialect source
  case snippet => exact Guarded.snippet_eq dialect source

end Excerpt
