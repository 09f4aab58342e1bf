import Excerpt.Listing.Definition
import Excerpt.Proofs.Rows
/-!
# Blocks as lines

The block of a definition takes in the lines below it until one ends it: a line that is no deeper
and holds a token other than a newline. Of that line the block keeps what stands before the token.
Finding the end of a block among tokens comes to the same as taking lines.
-/
namespace Excerpt

/-- Whether a lexeme cannot end a block, as it stands for no token or for a newline. -/
def Lexeme.isSilent (keywords : Keywords) (lexeme : Lexeme) : Bool :=
  (lexeme.kind? keywords).all (· == .newline)

namespace Block

/-- What stands on a line before the first token that can end a block, if there is one. -/
def lead? (keywords : Keywords) (line : Text) : Option Text :=
  if (Lexeme.scan line).all (Lexeme.isSilent keywords) then none
  else some (Lexeme.join ((Lexeme.scan line).takeWhile (Lexeme.isSilent keywords)))

/-- What of a line belongs to a block of the given depth above it, if the line ends the block. -/
def lastPart? (dialect : Dialect) (depth : Nat) (line : Text) : Option Text :=
  if 1 + Indent.level dialect.indentWidth line ≤ depth then lead? dialect.keywords line else none

/-- The lines that belong to a block of the given depth, out of those below its first line. The
last one may be cut short. -/
def take (dialect : Dialect) (depth : Nat) : List Text → List Text
  | [] => []
  | line :: below =>
    match lastPart? dialect depth line with
    | none => line :: take dialect depth below
    | some part => if part = [] then [] else [part]

theorem exists_of_lastPart? {dialect : Dialect} {depth : Nat} {line part : Text}
    (h : lastPart? dialect depth line = some part) :
    ∃ first second, Lexeme.scan line = first ++ second ∧ second ≠ [] ∧ Lexeme.join first = part ∧
      first.all (Lexeme.isSilent dialect.keywords) = true := by
  rw [lastPart?] at h
  split at h
  · rw [lead?] at h
    split at h
    · cases h
    · next hloud =>
      refine ⟨_, (Lexeme.scan line).dropWhile (Lexeme.isSilent dialect.keywords),
        List.takeWhile_append_dropWhile.symm, ?_, Option.some.inj h, List.all_takeWhile⟩
      intro hnil
      apply hloud
      rw [List.all_eq_true]
      exact List.dropWhile_eq_nil_iff.1 hnil
  · cases h

theorem flatten_lastLine (part : Text) :
    (if part = [] then [] else [part] : List Text).flatten = part := by
  by_cases h : part = [] <;> simp [h]

end Block

theorem Indent.hasContent_of_not_silent {keywords : Keywords} {line : Text}
    (hline : '\n' ∉ line.dropLast)
    (h : (Lexeme.scan line).all (Lexeme.isSilent keywords) = false) : hasContent line = true := by
  obtain ⟨lexeme, hmem, hloud⟩ := List.all_eq_false.1 h
  cases hkind : lexeme.kind? keywords with
  | none => simp [Lexeme.isSilent, hkind] at hloud
  | some kind =>
    rw [Lexeme.isSilent, hkind, Option.all_some, beq_iff_eq] at hloud
    exact hasContent_of_mem_scan hline hmem hkind hloud

namespace Token

section Place

variable {keywords : Keywords} {row : Row} {anchor : Token}

private theorem not_endsBlock_of_mem {offset : Nat} {lexemes : List Lexeme}
    (h : anchor.depth < row.depth ∨ lexemes.all (Lexeme.isSilent keywords) = true) :
    ∀ token ∈ place keywords row offset lexemes, anchor.endsBlock token = false := by
  intro token hmem
  obtain ⟨-, hdepth, lexeme, hlexeme, hkind⟩ := exists_of_mem_place keywords row hmem
  rcases h with h | h
  · have hdeep : ¬ token.depth ≤ anchor.depth := by omega
    simp [endsBlock, hdeep]
  · have hsilent := List.all_eq_true.1 h lexeme hlexeme
    rw [Lexeme.isSilent, hkind, Option.all_some, beq_iff_eq] at hsilent
    simp [endsBlock, hsilent]

private theorem start_find?_place (hline : row.line.number ≠ anchor.line)
    (hdepth : row.depth ≤ anchor.depth) {offset : Nat} {lexemes : List Lexeme}
    (h : lexemes.all (Lexeme.isSilent keywords) = false) :
    ((place keywords row offset lexemes).find? anchor.endsBlock).map start =
      some (row.line.start + offset +
        Text.byteLength (Lexeme.join (lexemes.takeWhile (Lexeme.isSilent keywords)))) := by
  induction lexemes generalizing offset with
  | nil => simp at h
  | cons lexeme rest ih =>
    rw [place]
    cases hkind : lexeme.kind? keywords with
    | none =>
      have hsilent : lexeme.isSilent keywords = true := by simp [Lexeme.isSilent, hkind]
      rw [List.all_cons, hsilent, Bool.true_and] at h
      rw [List.takeWhile_cons_of_pos hsilent]
      simp [ih h, Nat.add_assoc]
    | some kind =>
      by_cases hn : kind = .newline
      · have hsilent : lexeme.isSilent keywords = true := by simp [Lexeme.isSilent, hkind, hn]
        rw [List.all_cons, hsilent, Bool.true_and] at h
        rw [List.takeWhile_cons_of_pos hsilent, List.find?_cons_of_neg (by simp [endsBlock, hn])]
        simp [ih h, Nat.add_assoc]
      · have hsilent : ¬ lexeme.isSilent keywords = true := by simp [Lexeme.isSilent, hkind, hn]
        rw [List.takeWhile_cons_of_neg hsilent,
          List.find?_cons_of_pos (by simp [endsBlock, hn, hdepth, hline])]
        simp

end Place

/-- The first token that ends the block of a token above some lines starts where the lines that
belong to the block end. -/
theorem start_find?_ofLines (dialect : Dialect) (anchor : Token) {lines : List Text}
    (hlines : Text.AreLines lines) (number start previous : Nat) (hline : anchor.line < number) :
    (((ofLines dialect number start previous lines).find? anchor.endsBlock).map Token.start).getD
        (start + Text.byteLength lines.flatten) =
      start + Text.byteLength (Block.take dialect anchor.depth lines).flatten := by
  induction lines generalizing number start previous with
  | nil => rfl
  | cons line below ih =>
    obtain ⟨-, hsingle, -, hbelow⟩ := Text.AreLines.cons_iff.1 hlines
    have hnext := ih hbelow (number + 1) (start + Text.byteLength line)
      (Indent.depthAfter dialect.indentWidth previous line) (by omega)
    rw [ofLines_cons, List.find?_append, ofRow, Block.take, Block.lastPart?, Block.lead?]
    cases hsilent : (Lexeme.scan line).all (Lexeme.isSilent dialect.keywords) with
    | true =>
      -- Nothing on the line can end a block, so the block takes it in.
      rw [List.find?_eq_none.2 (by simpa using not_endsBlock_of_mem (.inr hsilent))]
      simpa [Nat.add_assoc] using hnext
    | false =>
      have hdepth := Indent.depthAfter_of_hasContent dialect.indentWidth previous
        (Indent.hasContent_of_not_silent hsingle hsilent)
      by_cases hle : 1 + Indent.level dialect.indentWidth line ≤ anchor.depth
      · have hfound : ((place dialect.keywords ⟨⟨number, start, line⟩, previous,
            Indent.depthAfter dialect.indentWidth previous line⟩ 0 (Lexeme.scan line)).find?
              anchor.endsBlock).map Token.start = some (start + 0 + _) :=
          start_find?_place (by dsimp only; omega) (by dsimp only; omega) hsilent
        obtain ⟨token, htoken, hstart⟩ := Option.map_eq_some_iff.1 hfound
        rw [htoken, Option.some_or, Option.map_some, Option.getD_some, hstart, if_pos hle]
        simp [Block.flatten_lastLine]
      · -- The line is too deep to end the block.
        rw [List.find?_eq_none.2 (by
          simpa using not_endsBlock_of_mem (.inl (by dsimp only; omega)))]
        simpa [hle, Nat.add_assoc] using hnext

end Token

end Excerpt
