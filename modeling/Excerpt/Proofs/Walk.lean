import Excerpt.Proofs.LineDepths
import Mathlib.Data.List.ModifyLast
/-!
# Laying out a source in one pass

A listing reads each line on its own. The same tokens, lines and boundaries come out of one pass over
the lexemes of the whole source, which carries along its place, the number and the start of the line
that it is on, and the depth of that line.
-/
namespace Excerpt

/-- A pass over the lexemes of a source: those ahead of it, where it is, and what it has found. -/
structure Walker where
  ahead : List Lexeme
  position : Nat := 0
  line : Nat := 1
  lineStart : Nat := 0
  atLineStart : Bool := true
  depth : Nat := 1
  tokens : List Token := []
  lines : List Span := []
  lineOpen : Bool := false
  boundaries : List Boundary := []

/-- The closings, on a line, of the levels above `low` up to `high`, the deepest first. -/
def Boundary.unwound (line low high : Nat) : List Boundary :=
  (List.range' (low + 1) (high - low)).reverse.map (closing line)

namespace Lexeme

/-- How many of the lexemes at the start of a line are its leading run, and the levels of this run. -/
def leadingRun (width : Nat) : List Lexeme → Nat × Nat
  | [] => (0, 0)
  | lexeme :: _ => match lexeme.shape with
    | .spaces => (1, Text.byteLength lexeme.text / width)
    | .tabs => (1, Text.byteLength lexeme.text)
    | _ => (0, 0)

def leadingControls (lexemes : List Lexeme) : Nat :=
  lexemes.findIdx fun lexeme => !(lexeme.shape == .control)

def endsLine : List Lexeme → Bool
  | [] => true
  | lexeme :: _ => lexeme.shape == .newline

end Lexeme

namespace Walker

def skip (count : Nat) (walker : Walker) : Walker :=
  { walker with
    ahead := walker.ahead.drop count
    position := walker.position + Text.byteLength (Lexeme.join (walker.ahead.take count)) }

def pushToken (kind : Kind) (literal : Text) (walker : Walker) : Walker :=
  { walker with
    tokens := walker.tokens ++
      [{ kind, literal, line := walker.line, column := walker.position - walker.lineStart + 1,
         depth := walker.depth, start := walker.position,
         stop := walker.position + Text.byteLength literal }] }

def closeLine (stop : Nat) (walker : Walker) : Walker :=
  if walker.lineOpen then
    { walker with
      lines := walker.lines.modifyLast fun span => { span with stop }
      lineOpen := false }
  else walker

def openLine (walker : Walker) : Walker :=
  { walker with
    atLineStart := false
    lines := walker.lines ++ [⟨walker.lineStart, walker.lineStart⟩]
    lineOpen := true }

def enter (depth : Nat) (walker : Walker) : Walker :=
  { walker with
    depth
    boundaries := walker.boundaries ++
      if walker.depth < depth then [.opening walker.line depth]
      else Boundary.unwound walker.line depth walker.depth }

/-- Opens an entry for a line and measures its depth. A line that ends behind its leading run, but
for carriage returns and form feeds, keeps the depth before it. -/
def startLine (width : Nat) (walker : Walker) : Walker :=
  let run := Lexeme.leadingRun width walker.ahead
  let moved := walker.openLine.skip run.1
  let inside := moved.skip (Lexeme.leadingControls moved.ahead)
  if Lexeme.endsLine inside.ahead then inside else inside.enter (1 + run.2)

def report (keywords : Keywords) (lexeme : Lexeme) (walker : Walker) : Walker :=
  match lexeme.kind? keywords with
  | none => walker
  | some kind => walker.pushToken kind lexeme.text

def endLine (walker : Walker) : Walker :=
  { walker.closeLine walker.position with
    line := walker.line + 1
    lineStart := walker.position
    atLineStart := true }

def take (keywords : Keywords) (lexeme : Lexeme) (walker : Walker) : Walker :=
  let moved := (walker.report keywords lexeme).skip 1
  if lexeme.shape = .newline then moved.endLine else moved

@[simp] theorem ahead_closeLine (stop : Nat) (walker : Walker) :
    (walker.closeLine stop).ahead = walker.ahead := by
  unfold closeLine
  split
  · rfl
  · rfl

@[simp] theorem ahead_report (keywords : Keywords) (lexeme : Lexeme) (walker : Walker) :
    (walker.report keywords lexeme).ahead = walker.ahead := by
  unfold report
  split
  · rfl
  · rfl

theorem ahead_take (keywords : Keywords) (lexeme : Lexeme) (walker : Walker) :
    (walker.take keywords lexeme).ahead = walker.ahead.drop 1 := by
  unfold take
  split
  · simp [endLine, skip]
  · simp [skip]

theorem atLineStart_startLine (width : Nat) (walker : Walker) :
    (walker.startLine width).atLineStart = false := by
  unfold startLine
  dsimp only
  split
  · rfl
  · rfl

theorem length_ahead_startLine_le (width : Nat) (walker : Walker) :
    (walker.startLine width).ahead.length ≤ walker.ahead.length := by
  unfold startLine
  dsimp only
  split
  · simp only [skip, openLine, List.length_drop]
    omega
  · simp only [enter, skip, openLine, List.length_drop]
    omega

def process (dialect : Dialect) (walker : Walker) : Walker :=
  if h : walker.ahead = [] then walker
  else if walker.atLineStart then process dialect (walker.startLine dialect.indentWidth)
  else process dialect (walker.take dialect.keywords (walker.ahead.head h))
termination_by 2 * walker.ahead.length + walker.atLineStart.toNat
decreasing_by
  · -- Starting a line need not pass any lexeme, but it lowers the flag.
    next hstart =>
    have hahead := length_ahead_startLine_le dialect.indentWidth walker
    rw [atLineStart_startLine, hstart]
    simp only [Bool.toNat_false, Bool.toNat_true]
    omega
  · have hflag := (walker.take dialect.keywords (walker.ahead.head h)).atLineStart.toNat_le
    have hlength := List.length_pos_of_ne_nil h
    rw [ahead_take, List.length_drop]
    omega

def finish (source : Text) (walker : Walker) : Walker :=
  let closed := walker.closeLine (Text.byteLength source)
  let margin : Walker := { closed with
    position := Text.byteLength source
    depth := 1
    boundaries := closed.boundaries ++ Boundary.unwound closed.line 1 closed.depth }
  margin.pushToken .endOfInput []

/-- Walks over the lexemes of a source, from the first one to the end of the source. -/
def walk (dialect : Dialect) (source : Text) : Walker :=
  (process dialect { ahead := Lexeme.scan source }).finish source

end Walker

/-! ### The start of a line -/

theorem Text.byteLength_takeWhile_eq {c : Char} (hc : c.utf8Size = 1) (text : Text) :
    byteLength (text.takeWhile (· = c)) = (text.takeWhile (· = c)).length := by
  have hrun : text.takeWhile (· = c) = List.replicate (text.takeWhile (· = c)).length c := by
    rw [List.eq_replicate_iff]
    exact ⟨rfl, fun d hd => by simpa using List.mem_takeWhile_imp hd⟩
  conv_lhs => rw [hrun]
  exact byteLength_replicate hc _

theorem Shape.ofChar_eq_control_iff (c : Char) : ofChar c = .control ↔ isControl c = true := by
  constructor
  · intro h
    have hstarts := starts_ofChar c
    rwa [h] at hstarts
  · intro h
    simp only [isControl, Bool.or_eq_true, beq_iff_eq] at h
    rcases h with rfl | rfl
    · decide
    · decide

/-- A line without its leading run and the carriage returns and form feeds behind it. -/
def Indent.afterControls (line : Text) : Text := (afterRun line).dropWhile Shape.isControl

namespace Lexeme

theorem exists_scan_afterRun (width : Nat) (text : Text) :
    ∃ front, scan text = front ++ scan (Indent.afterRun text) ∧
      leadingRun width (scan text) = (front.length, Indent.level width text) ∧
      ∀ keywords, ∀ lexeme ∈ front, lexeme.kind? keywords = none := by
  cases text with
  | nil => exact ⟨[], rfl, by simp [leadingRun, Indent.level], by simp⟩
  | cons c rest =>
    by_cases hspace : c = ' '
    · subst hspace
      have hscan : scan (' ' :: rest) =
          ⟨.spaces, (' ' :: rest).takeWhile (· = ' ')⟩ :: scan (Indent.afterRun (' ' :: rest)) := by
        rw [scan]
        rfl
      refine ⟨[_], hscan, ?_, ?_⟩
      · rw [hscan, leadingRun, Text.byteLength_takeWhile_eq (by decide)]
        rfl
      · simp [kind?]
    · by_cases htab : c = '\t'
      · subst htab
        have hscan : scan ('\t' :: rest) =
            ⟨.tabs, ('\t' :: rest).takeWhile (· = '\t')⟩ :: scan (Indent.afterRun ('\t' :: rest)) := by
          rw [scan]
          rfl
        refine ⟨[_], hscan, ?_, ?_⟩
        · rw [hscan, leadingRun, Text.byteLength_takeWhile_eq (by decide)]
          simp [Indent.level]
        · simp [kind?]
      · have hafter : Indent.afterRun (c :: rest) = c :: rest := by
          simp [Indent.afterRun, hspace, htab]
        have hlevel : Indent.level width (c :: rest) = 0 := by simp [Indent.level, hspace, htab]
        refine ⟨[], by rw [hafter, List.nil_append], ?_, by simp⟩
        rw [hlevel, scan, leadingRun]
        have hstarts := Shape.starts_ofChar c
        cases hshape : Shape.ofChar c <;> rw [hshape] at hstarts
        case spaces => exact absurd hstarts hspace
        case tabs => exact absurd hstarts htab
        all_goals rfl

theorem exists_scan_dropWhile (text : Text) :
    ∃ front, scan text = front ++ scan (text.dropWhile Shape.isControl) ∧
      leadingControls (scan text) = front.length ∧
      ∀ keywords, ∀ lexeme ∈ front, lexeme.kind? keywords = none := by
  induction text with
  | nil => exact ⟨[], rfl, by simp [leadingControls], by simp⟩
  | cons c rest ih =>
    by_cases hc : Shape.isControl c = true
    · have hshape := (Shape.ofChar_eq_control_iff c).mpr hc
      obtain ⟨front, hscan, hlength, hnone⟩ := ih
      have hcons : scan (c :: rest) = ⟨.control, [c]⟩ :: scan rest := by
        rw [scan, splitAfter, hshape]
      refine ⟨⟨.control, [c]⟩ :: front, ?_, ?_, ?_⟩
      · rw [hcons, List.dropWhile_cons_of_pos hc, List.cons_append, ← hscan]
      · rw [hcons, List.length_cons, ← hlength]
        simp [leadingControls, List.findIdx_cons]
      · intro keywords
        exact List.forall_mem_cons.mpr ⟨rfl, hnone keywords⟩
    · refine ⟨[], by rw [List.dropWhile_cons_of_neg hc, List.nil_append], ?_, by simp⟩
      have hshape : (Shape.ofChar c == .control) = false := by
        rwa [beq_eq_false_iff_ne, ne_eq, Shape.ofChar_eq_control_iff]
      simp [scan, leadingControls, List.findIdx_cons, hshape]

theorem endsLine_scan (text : Text) :
    endsLine (scan (Indent.afterControls text)) = Indent.isBare text := by
  rw [Indent.isBare, Indent.afterControls]
  cases (Indent.afterRun text).dropWhile Shape.isControl with
  | nil => simp [endsLine]
  | cons c rest =>
    rw [scan, endsLine, Bool.eq_iff_iff, beq_iff_eq, beq_iff_eq, Shape.ofChar_eq_newline_iff]

end Lexeme

theorem Boundary.closings_eq (line depth count : Nat) :
    closings line depth count = (List.range' (depth + 1) count).reverse.map (closing line) := by
  induction count with
  | zero => rfl
  | succ count ih =>
    rw [closings, ih, List.range'_1_concat, List.reverse_append, List.map_append,
      Nat.add_right_comm]
    rfl

theorem Boundary.between_eq (line fromDepth toDepth : Nat) :
    between line fromDepth toDepth =
      if fromDepth < toDepth then [opening line toDepth] else unwound line toDepth fromDepth := by
  rw [between, unwound, closings_eq]

theorem Boundary.ofLines_concat (width : Nat) (above : List Text) (line : Text) :
    ofLines width 1 0 1 (above ++ [line]) =
      ofLines width 1 0 1 above ++ ofRow (Row.below width above line) := by
  rw [ofLines_append, ofLines_cons, Nat.zero_add]
  exact congrArg _ (List.append_nil _)

theorem Line.map_span_concat (above : List Text) (line : Text) :
    (place 1 0 (above ++ [line])).map span = (place 1 0 above).map span ++
      [⟨Text.byteLength above.flatten, Text.byteLength above.flatten + Text.byteLength line⟩] := by
  rw [place_append, List.map_append, Nat.zero_add]
  rfl

theorem Lexeme.scan_append_ending {ending : Text} (h : Text.FollowsLine ending) (text : Text) :
    scan (text ++ ending) = scan text ++ scan ending := by
  cases h with
  | nil => simp
  | newline rest => exact scan_append_newline text rest

theorem Token.place_eq_nil {keywords : Keywords} {lexemes : List Lexeme}
    (h : ∀ lexeme ∈ lexemes, lexeme.kind? keywords = none) (row : Row) (offset : Nat) :
    place keywords row offset lexemes = [] := by
  rw [List.eq_nil_iff_forall_not_mem]
  intro token hmem
  obtain ⟨-, -, lexeme, hlexeme, hkind⟩ := exists_of_mem_place keywords row hmem
  rw [h lexeme hlexeme] at hkind
  cases hkind

namespace Walker

theorem skip_length {walker : Walker} {front ahead : List Lexeme}
    (h : walker.ahead = front ++ ahead) :
    walker.skip front.length =
      { walker with ahead, position := walker.position + Text.byteLength (Lexeme.join front) } := by
  rw [skip, h, List.drop_left, List.take_left]

/-- At the start of a line the walk passes gaps only, and takes over the depth of the line. -/
theorem exists_startLine (width : Nat) {walker : Walker} {text : Text}
    (h : walker.ahead = Lexeme.scan text) :
    ∃ front, Lexeme.scan text = front ++ Lexeme.scan (Indent.afterControls text) ∧
      (∀ keywords, ∀ lexeme ∈ front, lexeme.kind? keywords = none) ∧
      walker.startLine width = { walker with
        ahead := Lexeme.scan (Indent.afterControls text)
        position := walker.position + Text.byteLength (Lexeme.join front)
        atLineStart := false
        depth := Indent.depthAfter width walker.depth text
        lines := walker.lines ++ [⟨walker.lineStart, walker.lineStart⟩]
        lineOpen := true
        boundaries := walker.boundaries ++
          Boundary.between walker.line walker.depth (Indent.depthAfter width walker.depth text) } := by
  obtain ⟨run, hrun, hlevel, hnone⟩ := Lexeme.exists_scan_afterRun width text
  obtain ⟨controls, hcontrols, hcount, hnone'⟩ := Lexeme.exists_scan_dropWhile (Indent.afterRun text)
  refine ⟨run ++ controls, ?_, ?_, ?_⟩
  · rw [hrun, hcontrols, List.append_assoc]
    rfl
  · intro keywords lexeme hmem
    exact (List.mem_append.mp hmem).elim (hnone keywords lexeme) (hnone' keywords lexeme)
  · -- The walker behind the run, and the one behind the controls that follow it.
    let moved : Walker := { walker.openLine with
      ahead := Lexeme.scan (Indent.afterRun text)
      position := walker.position + Text.byteLength (Lexeme.join run) }
    let inside : Walker := { walker.openLine with
      ahead := Lexeme.scan (Indent.afterControls text)
      position := walker.position + Text.byteLength (Lexeme.join (run ++ controls)) }
    have hmoved : walker.openLine.skip (Lexeme.leadingRun width walker.ahead).1 = moved := by
      rw [h, hlevel]
      exact skip_length (h.trans hrun)
    have hinside : moved.skip (Lexeme.leadingControls moved.ahead) = inside := by
      rw [show moved.ahead = Lexeme.scan (Indent.afterRun text) from rfl, hcount,
        skip_length (show moved.ahead = _ from hcontrols)]
      simp [moved, inside, Nat.add_assoc, Indent.afterControls]
    have hstart : walker.startLine width =
        if Indent.isBare text then inside else inside.enter (1 + Indent.level width text) := by
      rw [startLine, hmoved, hinside, Lexeme.endsLine_scan, h, hlevel]
    rw [hstart, Indent.depthAfter, Indent.depth?]
    split
    · simp [inside, openLine]
    · rw [Boundary.between_eq]
      rfl

/-! ### Whole lines -/

theorem process_nil (dialect : Dialect) {walker : Walker} (h : walker.ahead = []) :
    walker.process dialect = walker := by
  rw [process, dif_pos h]

theorem process_startLine (dialect : Dialect) {walker : Walker} (h : walker.ahead ≠ [])
    (hstart : walker.atLineStart = true) :
    walker.process dialect = (walker.startLine dialect.indentWidth).process dialect := by
  rw [process, dif_neg h, if_pos hstart]

theorem process_take (dialect : Dialect) {walker : Walker} {lexeme : Lexeme} {rest : List Lexeme}
    (h : walker.ahead = lexeme :: rest) (hstart : walker.atLineStart = false) :
    walker.process dialect = (walker.take dialect.keywords lexeme).process dialect := by
  rw [process, dif_neg (by simp [h]), if_neg (by simp [hstart])]
  simp only [h, List.head_cons]

section Lines

variable (dialect : Dialect) (above : List Text) (line : Text)

/-- The state behind whole lines, where a text follows. -/
def behind (rest : Text) : Walker where
  ahead := Lexeme.scan rest
  position := Text.byteLength above.flatten
  line := 1 + above.length
  lineStart := Text.byteLength above.flatten
  atLineStart := true
  depth := above.foldl (Indent.depthAfter dialect.indentWidth) 1
  tokens := Token.ofLines dialect 1 0 1 above
  lines := (Line.place 1 0 above).map Line.span
  lineOpen := false
  boundaries := Boundary.ofLines dialect.indentWidth 1 0 1 above

/-- The state on a line below others, behind the first of its lexemes. -/
def within (front ahead : List Lexeme) : Walker :=
  let row := Row.below dialect.indentWidth above line
  { ahead
    position := row.line.start + Text.byteLength (Lexeme.join front)
    line := row.line.number
    lineStart := row.line.start
    atLineStart := false
    depth := row.depth
    tokens := Token.ofLines dialect 1 0 1 above ++ Token.place dialect.keywords row 0 front
    lines := (Line.place 1 0 above).map Line.span ++ [⟨row.line.start, row.line.start⟩]
    lineOpen := true
    boundaries := Boundary.ofLines dialect.indentWidth 1 0 1 (above ++ [line]) }

variable {line} {ending ending' : Text}

theorem exists_startLine_behind (body : Text) (hending : Text.FollowsLine ending)
    (hending' : Text.FollowsLine ending') :
    ∃ front, Lexeme.scan body = front ++ Lexeme.scan (Indent.afterControls body) ∧
      (behind dialect above (body ++ ending)).startLine dialect.indentWidth =
        within dialect above (body ++ ending') front
          (Lexeme.scan (Indent.afterControls body) ++ Lexeme.scan ending) := by
  obtain ⟨front, hscan, hnone, hstart⟩ := exists_startLine dialect.indentWidth
    (show (behind dialect above (body ++ ending)).ahead = Lexeme.scan (body ++ ending) from rfl)
  have hafter : Lexeme.scan (Indent.afterControls (body ++ ending)) =
      Lexeme.scan (Indent.afterControls body) ++ Lexeme.scan ending := by
    rw [Indent.afterControls, Indent.afterRun_append_ending hending,
      Text.dropWhile_append_ending hending (by decide), Lexeme.scan_append_ending hending]
    rfl
  have hdepth : ∀ previous, Indent.depthAfter dialect.indentWidth previous (body ++ ending) =
      Indent.depthAfter dialect.indentWidth previous (body ++ ending') := by
    intro previous
    rw [Indent.depthAfter, Indent.depthAfter, Indent.depth?_append_ending hending,
      Indent.depth?_append_ending hending']
  refine ⟨front, ?_, ?_⟩
  · rw [Lexeme.scan_append_ending hending, hafter, ← List.append_assoc] at hscan
    exact List.append_cancel_right hscan
  · rw [hstart, hafter, hdepth, within, Token.place_eq_nil (hnone dialect.keywords),
      Boundary.ofLines_concat, List.append_nil]
    rfl

theorem take_within {lexeme : Lexeme} (h : lexeme.shape ≠ .newline) (front ahead : List Lexeme) :
    (within dialect above line front (lexeme :: ahead)).take dialect.keywords lexeme =
      within dialect above line (front ++ [lexeme]) ahead := by
  rw [take, if_neg h, within, within, Token.place_append, report]
  cases hkind : lexeme.kind? dialect.keywords with
  | none => simp [skip, Token.place, hkind, Nat.add_assoc]
  | some kind => simp [skip, pushToken, Token.place, hkind, Nat.add_assoc]

theorem take_newline (body rest : Text) :
    (within dialect above (body ++ ['\n']) (Lexeme.scan body)
        (⟨.newline, ['\n']⟩ :: Lexeme.scan rest)).take dialect.keywords ⟨.newline, ['\n']⟩ =
      behind dialect (above ++ [body ++ ['\n']]) rest := by
  have hscan := Lexeme.scan_append_newline body []
  rw [Lexeme.scan_newline, Lexeme.scan_nil] at hscan
  rw [take, if_pos rfl, behind, Token.ofLines_concat, Token.ofRow]
  simp only [Row.below]
  rw [hscan, Token.place_append]
  simp [within, report, Lexeme.kind?, pushToken, skip, endLine, closeLine, Row.below, Token.place,
    List.modifyLast_concat, Line.map_span_concat, Nat.add_assoc]

theorem process_within {lexemes : List Lexeme} (h : ∀ lexeme ∈ lexemes, lexeme.shape ≠ .newline)
    (front ahead : List Lexeme) :
    (within dialect above line front (lexemes ++ ahead)).process dialect =
      (within dialect above line (front ++ lexemes) ahead).process dialect := by
  induction lexemes generalizing front with
  | nil => rw [List.nil_append, List.append_nil]
  | cons lexeme rest ih =>
    obtain ⟨hlexeme, hrest⟩ := List.forall_mem_cons.mp h
    rw [List.cons_append, process_take dialect rfl rfl, take_within dialect above hlexeme, ih hrest,
      List.append_assoc, List.singleton_append]

/-- A line is passed from its start to its end, or to the newline that ends it. -/
theorem process_behind {body : Text} (h : '\n' ∉ body) (hne : body ++ ending ≠ [])
    (hending : Text.FollowsLine ending) (hending' : Text.FollowsLine ending') :
    (behind dialect above (body ++ ending)).process dialect =
      (within dialect above (body ++ ending') (Lexeme.scan body) (Lexeme.scan ending)).process
        dialect := by
  obtain ⟨front, hbody, hstart⟩ := exists_startLine_behind dialect above body hending hending'
  have hshape : ∀ lexeme ∈ Lexeme.scan (Indent.afterControls body), lexeme.shape ≠ .newline := by
    intro lexeme hmem hnewline
    have hscan : lexeme ∈ Lexeme.scan body := hbody ▸ List.mem_append_right _ hmem
    obtain ⟨c, rest, rfl, hc⟩ := Lexeme.exists_of_mem_scan hscan
    exact h ((Shape.ofChar_eq_newline_iff c).mp hnewline ▸ hc)
  have hahead : (behind dialect above (body ++ ending)).ahead ≠ [] := by
    intro hnil
    have hjoin := Lexeme.join_scan (body ++ ending)
    rw [show Lexeme.scan (body ++ ending) = [] from hnil] at hjoin
    exact hne hjoin.symm
  rw [process_startLine dialect hahead rfl, hstart, process_within dialect above hshape, ← hbody]

theorem process_lines {lines : List Text} (h : Text.AreLines lines)
    (hended : ∀ line ∈ lines, line.getLast? = some '\n') (rest : Text) :
    (behind dialect above (lines.flatten ++ rest)).process dialect =
      (behind dialect (above ++ lines) rest).process dialect := by
  induction lines generalizing above with
  | nil => rw [List.flatten_nil, List.nil_append, List.append_nil]
  | cons line lines ih =>
    obtain ⟨hline, hlines⟩ := List.forall_mem_cons.mp hended
    obtain ⟨-, hsingle, -, hrest⟩ := Text.AreLines.cons_iff.mp h
    have hcut := Text.eq_dropLast_append hline
    rw [List.flatten_cons, hcut, List.append_assoc, List.append_assoc, List.singleton_append,
      process_behind dialect above hsingle (by simp) (.newline _) (.newline []),
      Lexeme.scan_newline, process_take dialect rfl rfl, take_newline, ih _ hrest hlines,
      List.append_assoc, List.singleton_append]

end Lines

/-! ### The end of a source -/

/-- Whether a walk has passed all lines of a source and closed the last of them. -/
structure IsThrough (dialect : Dialect) (source : Text) (walker : Walker) : Prop where
  line_eq : walker.line = (Token.endOf source).line
  lineStart_eq : walker.lineStart + Text.byteLength (Text.unfinishedLine source) =
    Text.byteLength source
  depth_eq : walker.depth =
    (Text.splitLines source).foldl (Indent.depthAfter dialect.indentWidth) 1
  tokens_eq : walker.tokens = Token.ofLines dialect 1 0 1 (Text.splitLines source)
  lines_eq : walker.lines = (Listing.linesOf source).map Line.span
  boundaries_eq : walker.boundaries =
    Boundary.ofLines dialect.indentWidth 1 0 1 (Text.splitLines source)

/-- Whether a walk has found what a listing holds. -/
structure Finds (walker : Walker) (listing : Listing) : Prop where
  tokens_eq : walker.tokens = listing.tokens
  spans_eq : walker.lines = listing.lines.map Line.span
  boundaries_eq : walker.boundaries = listing.boundaries

variable {dialect : Dialect} {source : Text}

theorem IsThrough.finds {walker : Walker}
    (h : (walker.closeLine (Text.byteLength source)).IsThrough dialect source) :
    (walker.finish source).Finds (Listing.read dialect source) := by
  constructor
  case tokens_eq =>
    have hcolumn := h.lineStart_eq
    rw [Listing.read_tokens, Token.tokensOf_eq, finish, pushToken]
    simp only [h.tokens_eq, h.line_eq, Token.endOf, Text.byteLength_nil, Nat.add_zero]
    congr 3
    omega
  case spans_eq => exact h.lines_eq
  case boundaries_eq =>
    have hdepth := Indent.one_le_foldl_depthAfter dialect.indentWidth (Nat.le_refl 1)
      (Text.splitLines source)
    rw [Listing.read_boundaries, Boundary.boundariesOf_eq, Boundary.between_eq, if_neg (by omega)]
    simp only [finish, pushToken, h.boundaries_eq, h.line_eq, h.depth_eq]

theorem isThrough_behind (h : Text.EndsLine source) :
    ((behind dialect (Text.splitLines source) []).closeLine (Text.byteLength source)).IsThrough
      dialect source := by
  have hplain := h.unfinishedLine_append []
  rw [List.append_nil] at hplain
  constructor
  case line_eq => exact congrArg (1 + ·) h.length_splitLines
  case lineStart_eq =>
    rw [hplain, closeLine, behind]
    exact congrArg Text.byteLength (Text.flatten_splitLines source)
  all_goals rfl

theorem isThrough_within {front plain : Text} (hfront : Text.EndsLine front) (hplain : '\n' ∉ plain)
    (hne : plain ≠ []) :
    ((within dialect (Text.splitLines front) plain (Lexeme.scan plain) []).closeLine
      (Text.byteLength (front ++ plain))).IsThrough dialect (front ++ plain) := by
  have hlines : Text.splitLines (front ++ plain) = Text.splitLines front ++ [plain] := by
    rw [Text.splitLines_append hfront, Text.splitLines_body hplain hne]
  constructor
  case line_eq =>
    have hcount : (front ++ plain).count '\n' = (Text.splitLines front).length := by
      rw [List.count_append, List.count_eq_zero.mpr hplain, Nat.add_zero, hfront.length_splitLines]
    exact congrArg (1 + ·) hcount.symm
  case lineStart_eq =>
    rw [hfront.unfinishedLine_append, Text.unfinishedLine_of_not_mem hplain, Text.byteLength_append]
    simp [closeLine, within, Row.below]
  case depth_eq =>
    rw [hlines, List.foldl_concat]
    rfl
  case tokens_eq =>
    rw [hlines, Token.ofLines_concat]
    rfl
  case lines_eq =>
    rw [Listing.linesOf, hlines, Line.map_span_concat, Text.flatten_splitLines]
    simp [closeLine, within, Row.below, List.modifyLast_concat]
  case boundaries_eq =>
    rw [hlines]
    rfl

/-- One pass over a source finds the tokens, the lines and the boundaries of its listing. -/
theorem walk_finds (dialect : Dialect) (source : Text) :
    (walk dialect source).Finds (Listing.read dialect source) := by
  obtain ⟨front, hfront, hsource⟩ := Text.exists_eq_append_unfinishedLine source
  have hplain := Text.newline_not_mem_unfinishedLine source
  generalize Text.unfinishedLine source = plain at hsource hplain
  subst hsource
  have hpassed := process_lines dialect [] (Text.areLines_splitLines front)
    (fun line hmem => hfront.of_mem_splitLines hmem) plain
  rw [Text.flatten_splitLines, List.nil_append] at hpassed
  have hwalk : walk dialect (front ++ plain) =
      ((behind dialect (Text.splitLines front) plain).process dialect).finish (front ++ plain) :=
    congrArg (finish (front ++ plain)) hpassed
  rw [hwalk]
  apply IsThrough.finds
  by_cases hne : plain = []
  · subst hne
    rw [List.append_nil, process_nil dialect Lexeme.scan_nil]
    exact isThrough_behind hfront
  · have hline := process_behind dialect (Text.splitLines front) hplain (by simpa using hne) .nil
      .nil
    rw [List.append_nil] at hline
    rw [hline, Lexeme.scan_nil, process_nil dialect rfl]
    exact isThrough_within hfront hplain hne

end Walker

end Excerpt
