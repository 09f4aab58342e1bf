import Excerpt.Extraction
import Excerpt.Proofs.FirstDefinition
import Mathlib.Data.List.DropRight
/-!
# Excerpts

What is cut out of a text for a definition is made up of whole lines and of parts of two: the line
of the keyword and the line that ends the block. Extraction finds the first site of the definition
and returns the excerpt at that site; no byte offset or token index is left in this description.
-/
namespace Excerpt

namespace Block

theorem exists_flatten_eq (dialect : Dialect) (depth : Nat) (lines : List Text) :
    ∃ rest, lines.flatten = (take dialect depth lines).flatten ++ rest := by
  induction lines with
  | nil => exact ⟨[], rfl⟩
  | cons line below ih =>
    obtain ⟨rest, hrest⟩ := ih
    rw [take]
    split
    · refine ⟨rest, ?_⟩
      rw [List.flatten_cons, hrest, List.flatten_cons, List.append_assoc]
    · next part hpart =>
      obtain ⟨first, second, hscan, -, rfl, -⟩ := exists_of_lastPart? hpart
      refine ⟨Lexeme.join second ++ below.flatten, ?_⟩
      rw [flatten_lastLine, List.flatten_cons, ← List.append_assoc, ← Lexeme.join_append, ← hscan,
        Lexeme.join_scan]

end Block

namespace Site

def decorators (site : Site) : List Text :=
  site.above.rtakeWhile
    (Listing.isDecoratorLine (Text.byteLength (Lexeme.join site.before) + 1))

/-- The text of the definition at a site. With decorators it begins at the start of a line. -/
def excerpt (dialect : Dialect) (decorated : Bool) (site : Site) : Text :=
  if decorated = true ∧ site.decorators ≠ [] then
    site.decorators.flatten ++ Lexeme.join site.before ++ site.blockText dialect
  else site.blockText dialect

section IsIn

variable {dialect : Dialect} {site : Site} {source : Text} {kind : Kind}

theorem exists_source_eq (dialect : Dialect) (h : site.IsIn source) :
    ∃ rest, source =
      site.above.flatten ++ Lexeme.join site.before ++ site.blockText dialect ++ rest := by
  obtain ⟨rest, hrest⟩ := Block.exists_flatten_eq dialect
    (1 + Indent.level dialect.indentWidth site.line) site.below
  refine ⟨rest, ?_⟩
  rw [blockText, blockBelow, List.append_assoc, List.append_assoc, List.append_assoc, ← hrest,
    ← List.append_assoc (Lexeme.join site.before), ← Lexeme.join_append]
  exact flatten_lines h

theorem exists_above_eq (site : Site) : ∃ upper, site.above = upper ++ site.decorators := by
  obtain ⟨upper, hupper⟩ := List.rtakeWhile_suffix
    (Listing.isDecoratorLine (Text.byteLength (Lexeme.join site.before) + 1)) site.above
  exact ⟨upper, hupper.symm⟩

theorem tokenAt_index (h : site.IsIn source)
    (hkind : site.lexeme.kind? dialect.keywords = some kind) :
    (Listing.read dialect source).tokenAt (site.index dialect.keywords) =
      .ok (site.token dialect kind) := by
  obtain ⟨front, hlength, htokens⟩ := tokensOf_eq h hkind
  rw [Listing.tokenAt, Listing.read_tokens, htokens, ← hlength]
  simp

theorem lineAt_eq (h : site.IsIn source) {first second : List Text} {text : Text}
    (hlines : site.lines = first ++ text :: second) :
    (Listing.read dialect source).lineAt first.length =
      .ok ⟨1 + first.length, Text.byteLength first.flatten, text⟩ := by
  rw [Listing.lineAt, Listing.read_lines, Listing.linesOf, h.lines_eq, hlines, Line.place_append]
  simp [Line.place]

theorem decoratorCount_eq (h : site.IsIn source) :
    (Listing.read dialect source).decoratorCount
      (Text.byteLength (Lexeme.join site.before) + 1) site.above.length =
        site.decorators.length := by
  have htake : (Listing.linesOf source).take site.above.length = Line.place 1 0 site.above := by
    rw [Listing.linesOf, h.lines_eq, lines, Line.place_append,
      List.take_append_of_le_length (by simp), List.take_of_length_le (by simp)]
  rw [Listing.decoratorCount, Listing.read_lines, htake, decorators, List.rtakeWhile,
    List.length_reverse,
    ← Line.map_text_place 1 0 site.above, ← List.map_reverse, List.takeWhile_map, List.length_map]
  simp [Function.comp_def]

theorem decoratorSpan_eq (h : site.IsIn source)
    (hkind : site.lexeme.kind? dialect.keywords = some kind) {upper : List Text}
    (habove : site.above = upper ++ site.decorators) :
    (Listing.read dialect source).decoratorSpan (site.index dialect.keywords) =
      .ok ⟨Text.byteLength upper.flatten, Text.byteLength site.above.flatten⟩ := by
  have hown : (site.token dialect kind).line - 1 = site.above.length := Nat.add_sub_cancel_left ..
  have hcount : (Listing.read dialect source).decoratorCount (site.token dialect kind).column
      site.above.length = site.decorators.length := decoratorCount_eq h
  have hfirst : site.above.length - site.decorators.length = upper.length := by
    have hlength := congrArg List.length habove
    rw [List.length_append] at hlength
    omega
  have hupper : ∃ text rest, site.lines = upper ++ text :: rest := by
    rw [lines, habove, List.append_assoc]
    cases site.decorators with
    | nil => exact ⟨_, _, rfl⟩
    | cons text rest => exact ⟨_, _, rfl⟩
  obtain ⟨text, rest, hupper⟩ := hupper
  have hstart : (Listing.read dialect source).lineAt upper.length = _ := lineAt_eq h hupper
  have hstop : (Listing.read dialect source).lineAt site.above.length = _ := lineAt_eq h rfl
  simp only [Listing.decoratorSpan, tokenAt_index h hkind, hown, hcount, hfirst, hstart, hstop,
    bind, Except.bind, pure, Except.pure]

theorem byteLength_above_lt_iff (h : site.IsIn source) {upper : List Text}
    (habove : site.above = upper ++ site.decorators) :
    Text.byteLength upper.flatten < Text.byteLength site.above.flatten ↔ site.decorators ≠ [] := by
  have hsize := congrArg (fun lines => Text.byteLength (List.flatten lines)) habove
  simp only [List.flatten_append, Text.byteLength_append] at hsize
  constructor
  · intro hlt hnil
    rw [hnil, List.flatten_nil, Text.byteLength_nil] at hsize
    omega
  · intro hne
    obtain ⟨text, rest, hcons⟩ := List.exists_cons_of_ne_nil hne
    have hmem : text ∈ site.lines := by simp [lines, habove, hcons]
    have hpos := Text.byteLength_pos ((areLines h).nonempty text hmem)
    rw [hcons, List.flatten_cons, Text.byteLength_append] at hsize
    omega

theorem definitionSpan_eq (h : site.IsIn source)
    (hkind : site.lexeme.kind? dialect.keywords = some kind) (hdef : kind.isDefinition = true)
    (hname : site.precedesIdentifier dialect.keywords = true) {upper : List Text}
    (habove : site.above = upper ++ site.decorators) (decorated : Bool) :
    (Listing.read dialect source).definitionSpan decorated (site.index dialect.keywords) =
      .ok ⟨if decorated = true ∧ site.decorators ≠ [] then Text.byteLength upper.flatten
        else (site.token dialect kind).start,
        (site.token dialect kind).start + Text.byteLength (site.blockText dialect)⟩ := by
  have hblock := blockSpan_eq h hkind hdef hname
  cases decorated with
  | false => simp [Listing.definitionSpan, hblock, bind, Except.bind, pure, Except.pure]
  | true =>
    simp only [Listing.definitionSpan, hblock, decoratorSpan_eq h hkind habove, bind, Except.bind,
      pure, Except.pure, byteLength_above_lt_iff h habove, if_true, true_and]
    split <;> rfl

/-- A definition is cut out of a text as the excerpt at its site. -/
theorem definitionText_eq (h : site.IsIn source)
    (hkind : site.lexeme.kind? dialect.keywords = some kind) (hdef : kind.isDefinition = true)
    (hname : site.precedesIdentifier dialect.keywords = true) (decorated : Bool) :
    (Listing.read dialect source).definitionText decorated (site.index dialect.keywords) =
      .ok (site.excerpt dialect decorated) := by
  obtain ⟨upper, habove⟩ := exists_above_eq site
  obtain ⟨rest, hsource⟩ := exists_source_eq dialect h
  have hstart := start_token dialect site kind
  rw [Listing.definitionText, definitionSpan_eq h hkind hdef hname habove, Except.map,
    Listing.read_source, excerpt]
  congr 1
  split
  · have hcut := Text.slice_append upper.flatten
      (site.decorators.flatten ++ Lexeme.join site.before ++ site.blockText dialect) rest
    rw [hstart, hsource, habove]
    simpa [Nat.add_assoc] using hcut
  · rw [hstart, hsource]
    exact Text.slice_append _ _ _

theorem of_find?_eq_some {keywords : Keywords} {name : Text}
    (h : find? keywords kind name (Text.splitLines source) = some site) :
    site.IsIn source ∧ site.lexeme.kind? keywords = some kind ∧
      site.precedesIdentifier keywords = true := by
  obtain ⟨hlines, -, hown⟩ := find?_eq_some_iff.1 h
  obtain ⟨-, -, hscan, hdef⟩ := of_findIn?_eq_some hown
  rw [Lexeme.defines, Bool.and_eq_true, beq_iff_eq] at hdef
  refine ⟨⟨hlines, hscan⟩, hdef.1, ?_⟩
  rw [precedesIdentifier]
  cases hnext : Lexeme.next? keywords site.behind with
  | none => simp [hnext] at hdef
  | some next =>
    simp only [hnext, Option.any_some, Bool.and_eq_true] at hdef
    exact hdef.2.1

end IsIn

end Site

/-! ### Extraction -/

namespace Target

def kind : Target → Kind
  | ofClass _ => .classKeyword
  | ofFunction _ _ => .functionKeyword

def name : Target → Text
  | ofClass name => name
  | ofFunction name _ => name

/-- Whether a target asks for a definition wherever it stands, and not for one within a class. -/
def isPlain : Target → Bool
  | ofClass _ => true
  | ofFunction _ scope => (scope.filter (· ≠ [])).isNone

theorem isDefinition_kind (target : Target) : target.kind.isDefinition = true := by
  cases target <;> rfl

theorem kind_ne_newline (target : Target) : target.kind ≠ .newline := by
  cases target <;> simp [kind]

end Target

namespace Listing

theorem text_snippet (listing : Listing) (decorated : Bool) {target : Target}
    (h : target.isPlain = true) :
    (listing.snippet decorated target).map Snippet.text =
      match (listing.definitions target.kind target.name).head? with
      | none => .error (.notFound target.kind target.name)
      | some index => listing.definitionText decorated index := by
  have htext : ∀ (body : Except Error Text) (wrap : Text → Snippet),
      (∀ text, (wrap text).text = text) → (body.map wrap).map Snippet.text = body := by
    intro body wrap hwrap
    cases body with
    | error e => rfl
    | ok text => exact congrArg Except.ok (hwrap text)
  cases target with
  | ofClass name =>
    rw [snippet, classSnippet, Target.kind, Target.name]
    cases listing.definitions .classKeyword name with
    | nil => rfl
    | cons first rest => exact htext _ _ fun _ => rfl
  | ofFunction name scope =>
    have hscope : scope.filter (· ≠ []) = none := Option.isNone_iff_eq_none.1 h
    rw [snippet, functionSnippet, Target.kind, Target.name, hscope]
    cases listing.definitions .functionKeyword name with
    | nil => rfl
    | cons first rest => exact htext _ _ fun _ => rfl

end Listing

theorem result_extract {dialect : Dialect} (hwidth : 1 ≤ dialect.indentWidth) (source : Text)
    (decorated : Bool) (target : Target) :
    (extract dialect source decorated target).result =
      ((Listing.read dialect source).snippet decorated target).map Snippet.text := by
  rw [extract, Listing.load, Listing.ofSource_eq_ok hwidth, Run.ofExcept, Run.bind_ok, Run.bind_ok,
    Listing.extract]
  cases (Listing.read dialect source).snippet decorated target with
  | error e => rfl
  | ok snippet => rfl

theorem extract_eq {dialect : Dialect} (hwidth : 1 ≤ dialect.indentWidth) (source : Text)
    (decorated : Bool) {target : Target} (h : target.isPlain = true) :
    (extract dialect source decorated target).result =
      match Site.find? dialect.keywords target.kind target.name (Text.splitLines source) with
      | none => .error (.notFound target.kind target.name)
      | some site => .ok (site.excerpt dialect decorated) := by
  rw [result_extract hwidth, Listing.text_snippet _ _ h,
    Listing.head?_definitions_read dialect source target.kind_ne_newline]
  cases hfind : Site.find? dialect.keywords target.kind target.name (Text.splitLines source) with
  | none => rfl
  | some site =>
    obtain ⟨hsite, hkind, hname⟩ := Site.of_find?_eq_some hfind
    exact Site.definitionText_eq hsite hkind target.isDefinition_kind hname decorated

end Excerpt
