import Mathlib.Data.List.Forall2
import Preload.Program
import Preload.Text.Size
import Preload.Token.Lexeme

/-!
# Texts made of pieces

A text is covered by pieces when it is these pieces in order, with nothing but spacing around them.
A piece may say where it stands; then it has to stand there (`Covers`).

Main statements:
* `Covers.selects`: the span of a piece selects its text;
* `Covers.pairwise`: the spans follow each other.
-/

namespace Preload

/-- Whether a span is that of a text in a source: it is not empty, both its ends are between
characters, and the text stands between them. -/
def Span.Selects (s : Span) (text source : List Char) : Prop :=
  s.start < s.stop ∧
    ∃ before after, source = before ++ (text ++ after) ∧
      s.start = byteLength before ∧ s.stop = byteLength (before ++ text)

/-- Blanks and line feeds. -/
def isSpacing (c : Char) : Bool :=
  isBlank c || c == '\n'

/-- A part of a text. -/
structure Piece where
  text : List Char
  /-- Where it stands, if it says so. -/
  span? : Option Span

/-- Whether a text that stands at a position is some pieces in order, with nothing but spacing
around them, and these stand where they say. -/
inductive Covers : Nat → List Piece → List Char → Prop
  | nil {pos : Nat} {cs : List Char} (spacing : ∀ c ∈ cs, isSpacing c = true) : Covers pos [] cs
  | cons {pos : Nat} {gap : List Char} {piece : Piece} {pieces : List Piece} {cs : List Char}
      (spacing : ∀ c ∈ gap, isSpacing c = true)
      (text_ne_nil : piece.text ≠ [])
      (span : ∀ span ∈ piece.span?,
        span = ⟨pos + byteLength gap, pos + byteLength (gap ++ piece.text)⟩)
      (rest : Covers (pos + byteLength (gap ++ piece.text)) pieces cs) :
      Covers pos (piece :: pieces) (gap ++ (piece.text ++ cs))

namespace Covers

variable {pos : Nat} {pieces : List Piece} {cs : List Char}

/-- The span of a piece selects its text. -/
theorem selects (h : Covers pos pieces cs) {before : List Char} (hpos : pos = byteLength before) :
    ∀ piece ∈ pieces, ∀ span ∈ piece.span?, span.Selects piece.text (before ++ cs) := by
  -- `before` grows by each piece, so that its size stays the position of what is left
  induction h generalizing before with
  | nil => simp
  | @cons pos gap piece pieces cs _ text_ne_nil span _ ih =>
    refine List.forall_mem_cons.2 ⟨fun s hs => ?_, fun p hp s hs => ?_⟩
    · have hlength : byteLength piece.text ≠ 0 := mt (byteLength_eq_zero_iff _).1 text_ne_nil
      -- what stands in front of the piece is all before it and its gap
      obtain rfl := span s hs
      refine ⟨?_, before ++ gap, cs, ?_, ?_, ?_⟩
      · simp only [byteLength_append]
        omega
      · rw [List.append_assoc]
      · simp only [byteLength_append, hpos]
      · simp only [byteLength_append, hpos, Nat.add_assoc]
    · have hbefore : pos + byteLength (gap ++ piece.text) =
          byteLength (before ++ (gap ++ piece.text)) := by
        rw [byteLength_append before, hpos]
      have hselects := ih hbefore p hp s hs
      rwa [List.append_assoc, List.append_assoc] at hselects

/-- No piece stands in front of the text. -/
theorem le_start (h : Covers pos pieces cs) :
    ∀ span ∈ pieces.filterMap (·.span?), pos ≤ span.start := by
  induction h with
  | nil => simp
  | @cons pos gap piece pieces cs _ _ span _ ih =>
    intro s hs
    obtain ⟨p, hp, hspan⟩ := List.mem_filterMap.1 hs
    -- the first piece starts behind its gap, and the others behind its end
    obtain rfl | hp := List.mem_cons.1 hp
    · rw [span s hspan]
      exact Nat.le_add_right _ _
    · have hle := ih s (List.mem_filterMap.2 ⟨p, hp, hspan⟩)
      omega

/-- The pieces that say where they stand follow each other. -/
theorem pairwise (h : Covers pos pieces cs) :
    (pieces.filterMap (·.span?)).Pairwise fun a b => a.stop ≤ b.start := by
  induction h with
  | nil => exact .nil
  | @cons pos gap piece pieces cs _ _ span rest ih =>
    rw [List.filterMap_cons]
    cases hspan : piece.span? with
    | none => exact ih
    | some s =>
      obtain rfl := span s hspan
      -- the pieces behind start where this one stops, or later
      exact List.pairwise_cons.2 ⟨rest.le_start, ih⟩

end Covers

/-- Whether a piece is another one that may say where it stands. -/
def Piece.IsOf (p q : Piece) : Prop :=
  p.text = q.text ∧ ∀ span ∈ p.span?, span ∈ q.span?

/-- Pieces need not all say where they stand. -/
theorem Covers.of_forall₂ {pos : Nat} {ps qs : List Piece} {cs : List Char}
    (h : Covers pos qs cs) (hps : List.Forall₂ Piece.IsOf ps qs) : Covers pos ps cs := by
  induction h generalizing ps with
  | nil spacing =>
    cases hps
    exact .nil spacing
  | cons spacing text_ne_nil span _ ih =>
    obtain _ | @⟨p, _, ps, _, ⟨htext, hspan⟩, hps⟩ := hps
    rw [← htext] at text_ne_nil span ⊢
    -- only the text of a piece counts for what is spelled, and that is the same
    refine .cons spacing text_ne_nil (fun s hs => span s (hspan s hs)) ?_
    rw [htext]
    exact ih hps

end Preload
