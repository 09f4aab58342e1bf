import Excerpt.Proofs.Excerpts
import Excerpt.Proofs.Tiling
/-!
# Positions

A text is cut behind each of its newlines, and the table of its lines holds the bytes between two
cuts. Counting the newlines, and the bytes since the last of them, up to the first byte of a token
gives its line and its column, and every token but the one at the end lies within the entry of its
line.
-/
namespace Excerpt

/-- The bytes of the lines of a text that goes on at the byte `position`, where the line that goes
on there began at the byte `start`. Nothing follows a final newline. -/
def Text.lineSpans (start position : Nat) : Text → List Span
  | [] => if start < position then [⟨start, position⟩] else []
  | c :: rest =>
    let next := position + c.utf8Size
    if c = '\n' then ⟨start, next⟩ :: lineSpans next next rest else lineSpans start next rest

/-- Whether the line and the column of a token are those of its first byte. -/
structure Token.IsPlaced (source : Text) (token : Token) : Prop where
  boundary : Text.IsBoundary source token.start
  line_eq : token.line = 1 + (Text.takeBytes token.start source).count '\n'
  column_eq : token.column =
    1 + Text.byteLength (Text.unfinishedLine (Text.takeBytes token.start source))

/-- Whether a listing tells where its lines and tokens are. -/
structure Listing.IsPlaced (source : Text) (listing : Listing) : Prop where
  spans : listing.lines.map Line.span = Text.lineSpans 0 0 source
  texts : ∀ index line, listing.lineAt index = .ok line → Text.slice source line.span = line.text
  joined : (listing.lines.map fun line => Text.slice source line.span).flatten = source
  tokens : ∀ token ∈ listing.tokens, token.IsPlaced source
  within : ∀ token ∈ listing.tokens.dropLast, ∃ line,
    listing.lineAt (token.line - 1) = .ok line ∧ line.start ≤ token.start ∧ token.stop ≤ line.stop

/-! ### The lines -/

theorem Text.lineSpans_append {body : Text} (h : '\n' ∉ body) (start position : Nat)
    (rest : Text) :
    lineSpans start position (body ++ rest) =
      lineSpans start (position + byteLength body) rest := by
  induction body generalizing position with
  | nil => rfl
  | cons c body ih =>
    rw [List.mem_cons, not_or] at h
    rw [List.cons_append, lineSpans, if_neg (Ne.symm h.1), ih h.2, byteLength_cons, Nat.add_assoc]

namespace Line

theorem map_span_place {lines : List Text} (h : Text.AreLines lines) (number start : Nat) :
    (place number start lines).map span = Text.lineSpans start start lines.flatten := by
  induction lines generalizing number start with
  | nil => simp [place, Text.lineSpans]
  | cons line rest ih =>
    obtain ⟨hne, hsingle, hended, hrest⟩ := Text.AreLines.cons_iff.mp h
    rw [place, List.map_cons, ih hrest, List.flatten_cons]
    by_cases hlast : line.getLast? = some '\n'
    · have hline := Text.eq_dropLast_append hlast
      have hlength : Text.byteLength line = Text.byteLength line.dropLast + '\n'.utf8Size := by
        rw [hline, Text.byteLength_append, List.dropLast_concat]
        rfl
      conv_rhs => rw [hline]
      rw [List.append_assoc, Text.lineSpans_append hsingle, List.singleton_append, Text.lineSpans,
        if_pos rfl, span, stop, hlength, Nat.add_assoc]
    · have hnil : rest = [] := Classical.byContradiction fun hmore => hlast (hended hmore)
      have hpos := Text.byteLength_pos hne
      rw [hnil, List.flatten_nil, Text.lineSpans_append (Text.newline_not_mem hsingle hlast),
        Text.lineSpans, Text.lineSpans, if_neg (by omega), if_pos (by omega)]
      rfl

theorem exists_eq_of_mem_place {front : Text} {lines : List Text} {number : Nat} {line : Line}
    (h : line ∈ place number (Text.byteLength front) lines) :
    ∃ before behind, front ++ lines.flatten = before ++ line.text ++ behind ∧
      line.start = Text.byteLength before := by
  induction lines generalizing front number with
  | nil => simp [place] at h
  | cons text rest ih =>
    rw [place, ← Text.byteLength_append] at h
    rw [List.flatten_cons, ← List.append_assoc]
    rcases List.mem_cons.mp h with rfl | h
    · exact ⟨front, rest.flatten, rfl, rfl⟩
    · exact ih h

end Line

namespace Listing

theorem exists_eq_of_mem_linesOf {source : Text} {line : Line} (h : line ∈ linesOf source) :
    ∃ before behind, source = before ++ line.text ++ behind ∧
      line.start = Text.byteLength before := by
  have hplace : line ∈ Line.place 1 (Text.byteLength []) (Text.splitLines source) := h
  simpa using Line.exists_eq_of_mem_place hplace

theorem slice_of_mem_linesOf {source : Text} {line : Line} (h : line ∈ linesOf source) :
    Text.slice source line.span = line.text := by
  obtain ⟨before, behind, hsource, hstart⟩ := exists_eq_of_mem_linesOf h
  rw [Line.span, Line.stop, hstart, hsource]
  exact Text.slice_append before line.text behind

theorem lineAt_eq_ok_iff {listing : Listing} {index : Nat} {line : Line} :
    listing.lineAt index = .ok line ↔ listing.lines[index]? = some line := by
  unfold lineAt
  cases listing.lines[index]? <;> simp

end Listing

/-! ### The tokens -/

theorem Text.endsLine_flatten {lines : List Text}
    (h : ∀ line ∈ lines, line.getLast? = some '\n') : EndsLine lines.flatten := by
  induction lines with
  | nil => exact .inl rfl
  | cons line rest ih =>
    have hline := h line List.mem_cons_self
    right
    rw [List.flatten_cons, List.getLast?_append, hline]
    rcases ih fun next hmem => h next (List.mem_cons_of_mem _ hmem) with hrest | hrest
    · rw [hrest]
      rfl
    · rw [hrest]
      rfl

namespace Token

theorem isPlaced_of_append {before behind : Text} {token : Token}
    (hstart : token.start = Text.byteLength before)
    (hline : token.line = 1 + before.count '\n')
    (hcolumn : token.column = 1 + Text.byteLength (Text.unfinishedLine before)) :
    token.IsPlaced (before ++ behind) := by
  constructor
  case boundary =>
    rw [hstart]
    exact Text.isBoundary_byteLength before behind
  case line_eq => rw [hstart, Text.takeBytes_byteLength, hline]
  case column_eq => rw [hstart, Text.takeBytes_byteLength, hcolumn]

theorem isPlaced_endOf (source : Text) : (endOf source).IsPlaced source := by
  have hplaced : (endOf source).IsPlaced (source ++ []) :=
    isPlaced_of_append rfl rfl (Nat.add_comm _ _)
  rwa [List.append_nil] at hplaced

theorem exists_site {dialect : Dialect} {source : Text} {token : Token}
    (h : token ∈ ofLines dialect 1 0 1 (Text.splitLines source)) :
    ∃ site : Site, site.IsIn source ∧
      ∃ kind, site.lexeme.kind? dialect.keywords = some kind ∧ site.token dialect kind = token := by
  obtain ⟨index, hindex⟩ := List.mem_iff_getElem?.mp h
  have hlength := (List.getElem?_eq_some_iff.mp hindex).1
  have htoken : (Listing.tokensOf dialect source)[index]? = some token := by
    rw [tokensOf_eq, List.getElem?_append_left hlength, hindex]
  have hlast : index + 1 ≠ (Listing.tokensOf dialect source).length := by
    rw [tokensOf_eq, List.length_append, List.length_singleton]
    omega
  obtain ⟨site, kind, hsite, -, hkind, hown⟩ := Site.exists_of_getElem? htoken hlast
  exact ⟨site, hsite, kind, hkind, hown⟩

end Token

namespace Site

variable {dialect : Dialect} {site : Site} {source : Text}

theorem isPlaced_token (h : site.IsIn source) (kind : Kind) :
    (site.token dialect kind).IsPlaced source := by
  have hne : Lexeme.join (site.lexeme :: site.behind) ≠ [] :=
    Lexeme.join_ne_nil h.scan_eq (List.cons_ne_nil _ _)
  have habove : Text.EndsLine site.above.flatten := by
    apply Text.endsLine_flatten
    exact (Text.AreLines.append_iff.mp (areLines h)).2.2 (List.cons_ne_nil _ _)
  have hbefore : '\n' ∉ Lexeme.join site.before := by
    have hsingle := (Text.AreLines.cons_iff.mp (areLines_line_below h)).2.1
    rw [line_eq] at hsingle
    exact Text.newline_not_mem_left hsingle hne
  obtain ⟨rest, hsource⟩ := exists_source_eq dialect h
  rw [hsource, List.append_assoc _ (site.blockText dialect)]
  apply Token.isPlaced_of_append
  · exact start_token dialect site kind
  · rw [count_newline_before h hne]
    rfl
  · rw [habove.unfinishedLine_append, Text.unfinishedLine_of_not_mem hbefore, Nat.add_comm]
    rfl

theorem exists_lineAt (dialect : Dialect) (h : site.IsIn source) (kind : Kind) :
    ∃ line, (Listing.read dialect source).lineAt ((site.token dialect kind).line - 1) = .ok line ∧
      line.start ≤ (site.token dialect kind).start ∧ (site.token dialect kind).stop ≤ line.stop := by
  have hown : (site.token dialect kind).line - 1 = site.above.length := Nat.add_sub_cancel_left ..
  have hline := congrArg Text.byteLength (line_eq site)
  rw [Lexeme.join_cons, Text.byteLength_append, Text.byteLength_append] at hline
  rw [hown]
  refine ⟨_, lineAt_eq h rfl, Nat.le_add_right _ _, ?_⟩
  simp only [token, Line.stop]
  omega

end Site

theorem Token.isPlaced_of_mem {dialect : Dialect} {source : Text} {token : Token}
    (h : token ∈ Listing.tokensOf dialect source) : token.IsPlaced source := by
  rw [tokensOf_eq, List.mem_append, List.mem_singleton] at h
  rcases h with h | rfl
  · obtain ⟨site, hsite, kind, -, rfl⟩ := exists_site h
    exact Site.isPlaced_token hsite kind
  · exact isPlaced_endOf source

namespace Listing

/-- The lines of a text are the stretches between its newlines, and its tokens are where their lines
and columns say. -/
theorem ofSource_isPlaced (dialect : Dialect) (hwidth : 1 ≤ dialect.indentWidth) (source : Text) :
    ∃ listing, ofSource dialect source = .ok listing ∧ listing.IsPlaced source := by
  refine ⟨read dialect source, ofSource_eq_ok hwidth source, ?_⟩
  constructor
  case spans =>
    have hspans := Line.map_span_place (Text.areLines_splitLines source) 1 0
    rwa [Text.flatten_splitLines] at hspans
  case texts =>
    intro index line hline
    exact slice_of_mem_linesOf (List.mem_of_getElem? (lineAt_eq_ok_iff.mp hline))
  case joined =>
    have htexts : (linesOf source).map (fun line => Text.slice source line.span) =
        Text.splitLines source := by
      rw [List.map_congr_left fun line => slice_of_mem_linesOf, linesOf, Line.map_text_place]
    rw [read_lines, htexts, Text.flatten_splitLines]
  case tokens =>
    intro token hmem
    exact Token.isPlaced_of_mem hmem
  case within =>
    intro token hmem
    rw [read_tokens, Token.tokensOf_eq, List.dropLast_concat] at hmem
    obtain ⟨site, hsite, kind, -, rfl⟩ := Token.exists_site hmem
    exact Site.exists_lineAt dialect hsite kind

/-- A wide character takes up two columns, and a last line of blanks, which has no token of its own,
has an entry all the same. -/
theorem ofSource_isPlaced_wide :
    let source := "é(x)\n\n\ty\n \r".toList
    ∃ listing, ofSource {} source = .ok listing ∧
      listing.lines.map Line.span = [⟨0, 6⟩, ⟨6, 7⟩, ⟨7, 10⟩, ⟨10, 12⟩] ∧
      ∀ token ∈ listing.tokens, token.IsPlaced source := by
  intro source
  obtain ⟨listing, hlisting, h⟩ := ofSource_isPlaced {} (by decide) source
  refine ⟨listing, hlisting, ?_, h.tokens⟩
  rw [h.spans]
  decide

end Listing

end Excerpt
