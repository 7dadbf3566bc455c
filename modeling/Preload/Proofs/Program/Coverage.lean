import Preload.Proofs.Group.Spreading
import Preload.Proofs.Program.Reading
import Preload.Proofs.Text.Pieces
import Preload.Proofs.Token.Place

/-!
# Where the parts of a program stand

Reading a program loses nothing: its source is the shebang line and then, in order, the text of each
comment of the prologue, of each directive and of each statement, with nothing but spacing around
them; and the spans of the directives and statements are where their texts stand.

Main statements:
* `Group.covers_of_readGroups`: the groups that are read cover their text;
* `Program.forall₂_pieces_ofGroups`: what groups make up has their texts, in the same order;
* `Program.parse_covers`: the account for a whole source.
-/

namespace Preload

/-! ## Groups in a text -/

theorem isSpacing_of_isBlank {c : Char} (h : isBlank c = true) : isSpacing c = true := by
  rw [isSpacing, h, Bool.true_or]

/-- Line breaks and the blanks in front of them are spacing. -/
theorem Token.isSpacing_spelling {ts : List Token} (hsound : ∀ t ∈ ts, t.Sound)
    (hkind : ∀ t ∈ ts, t.kind = .newline) : ∀ c ∈ spelling ts, isSpacing c = true := by
  -- a character of the spelling is a blank in front of some line break, or that line break itself
  intro c hc
  obtain ⟨t, ht, hc⟩ := List.mem_flatMap.1 hc
  obtain hc | hc := List.mem_append.1 hc
  · exact isSpacing_of_isBlank ((hsound t ht).gap c hc)
  · rw [(hsound t ht).text_of_newline (hkind t ht), List.mem_singleton] at hc
    rw [hc]
    rfl

namespace Group

/-- The group as a piece of its source. -/
def piece (g : Group) : Piece :=
  ⟨g.text, some g.span⟩

theorem spelling_tokens (g : Group) : Token.spelling g.tokens = g.first.gap ++ g.text := by
  rw [tokens, Token.spelling_cons]
  rfl

theorem getLast?_tokens (g : Group) : g.tokens.getLast? = some (g.rest.getLast?.getD g.first) :=
  List.getLast?_cons

/-- A group of tokens at their places stands where its text does. -/
theorem span_of_place {pos : Nat} {g : Group} (h : Token.place pos g.tokens = g.tokens) :
    g.span = ⟨pos + byteLength g.first.gap, pos + byteLength (g.first.gap ++ g.text)⟩ := by
  -- the span starts behind the blanks of the first token
  have hfirst : g.first.placeAt pos = g.first := (List.cons.inj h).1
  have hstart : g.start = pos + byteLength g.first.gap := by
    rw [start, ← hfirst]
    rfl
  -- and it stops where the last token does
  have hstop : g.stop = pos + byteLength (Token.spelling g.tokens) :=
    Token.stop_of_place h (getLast?_tokens g)
  rw [span, hstart, hstop, spelling_tokens]

/-- A group is not empty. -/
theorem text_ne_nil {g : Group} (h : g.first.Sound) : g.text ≠ [] := by
  rw [text]
  exact List.append_ne_nil_of_left_ne_nil h.text_ne_nil _

/-- Groups that are spread over tokens at their places cover their spelling. -/
theorem covers_of_spread {gs : List Group} {pos : Nat} {ts : List Token} {blanks : List Char}
    (hspread : Spread (·.kind = .newline) (gs.map tokens) ts) (hsound : ∀ t ∈ ts, t.Sound)
    (hplace : Token.place pos ts = ts) (hblanks : ∀ c ∈ blanks, isBlank c = true) :
    Covers pos (gs.map piece) (Token.spelling ts ++ blanks) := by
  -- the induction is over the groups; the position of what is left is behind the group before it
  induction gs generalizing pos ts with
  | nil =>
    -- with no groups left there are only line breaks and blanks
    obtain ⟨fillers⟩ := hspread
    refine .nil (List.forall_mem_append.2 ⟨Token.isSpacing_spelling hsound fillers, ?_⟩)
    exact fun c hc => isSpacing_of_isBlank (hblanks c hc)
  | cons g gs ih =>
    -- line breaks, then the group, then what is left: all that is known comes apart like this
    obtain _ | @⟨skipped, _, _, us, fillers, -, rest⟩ := hspread
    obtain ⟨hskipped, hsound⟩ := List.forall_mem_append.1 hsound
    obtain ⟨hgroup, hus⟩ := List.forall_mem_append.1 hsound
    have hfirst : g.first.Sound := hgroup _ List.mem_cons_self
    obtain ⟨-, hplace⟩ := Token.place_append_eq_iff.1 hplace
    obtain ⟨hgroupPlace, husPlace⟩ := Token.place_append_eq_iff.1 hplace
    have hspelling : Token.spelling (skipped ++ (g.tokens ++ us)) ++ blanks =
        (Token.spelling skipped ++ g.first.gap) ++
          (g.piece.text ++ (Token.spelling us ++ blanks)) := by
      simp [spelling_tokens, piece]
    have hstop : pos + byteLength (Token.spelling skipped) + byteLength (Token.spelling g.tokens) =
        pos + byteLength (Token.spelling skipped ++ g.first.gap ++ g.piece.text) := by
      simp [spelling_tokens, piece, Nat.add_assoc]
    -- the blanks in front of the group count as spacing, with the line breaks
    rw [hspelling]
    refine .cons (List.forall_mem_append.2 ⟨Token.isSpacing_spelling hskipped fillers, ?_⟩)
      (text_ne_nil hfirst) ?_ ?_
    · exact fun c hc => isSpacing_of_isBlank (hfirst.gap c hc)
    · -- the span is that of the text, shifted by what stands in front
      rintro _ ⟨⟩
      rw [span_of_place hgroupPlace]
      simp [piece, Nat.add_assoc]
    · rw [← hstop]
      exact ih rest hus husPlace

/-- The groups that are read from a text cover it. -/
theorem covers_of_readGroups {pos : Nat} {cs : List Char} {gs : List Group}
    (h : readGroups pos cs = .ok gs) : Covers pos (gs.map piece) cs := by
  obtain ⟨herror, -, rfl⟩ := of_readGroups h
  -- reading is lexing with nothing left over but blanks, and then splitting
  obtain ⟨hreadable, blanks, hcs, -, hblanks⟩ := readable_lexFrom pos true cs
  have hcovers := covers_of_spread (spread_split (lex pos cs).tokens) hreadable.sound
    (Token.place_lexFrom pos true cs) (hblanks herror)
  rwa [lex, ← hcs] at hcovers

end Group

/-! ## What groups make up -/

/-- The text that a statement has from its source. -/
def Statement.stored? (s : Statement) : Option String :=
  match s.kind with
  | .load _ _ => s.raw
  | .other text => some text

/-- The statement as a piece of its source. -/
def Statement.piece (s : Statement) : Piece :=
  ⟨s.text.toList, some s.span⟩

/-- The comments of a directive and the directive as pieces of their source. -/
def Directive.pieces (d : Directive) : List Piece :=
  d.leadingComments.map (fun comment => ⟨comment.toList, none⟩) ++ [⟨d.text.toList, some d.span⟩]

theorem Group.piece_toStatement (g : Group) : g.toStatement.piece = g.piece := by
  -- a statement keeps the text of its group in one field or the other
  rw [Statement.piece, text_toStatement, source, String.toList_ofList]
  unfold toStatement
  cases g.load? <;> rfl

theorem Group.stored?_toStatement (g : Group) :
    g.toStatement.stored? = some g.toStatement.text := by
  rw [text_toStatement]
  unfold toStatement
  cases g.load? <;> rfl

theorem Piece.isOf_rfl {p : Piece} : p.IsOf p :=
  ⟨rfl, fun _ h => h⟩

/-- A directive has the texts of the groups that it was made of. -/
theorem Group.forall₂_pieces_toDirective (comments : List Group) (literal : List Char) (g : Group) :
    List.Forall₂ Piece.IsOf (g.toDirective comments literal).pieces
      (comments.map piece ++ [g.piece]) := by
  -- leading comments have no span of their own, so only their texts are compared
  refine List.rel_append ?_ (.cons ?_ .nil)
  · rw [toDirective, List.map_map, List.forall₂_map_left_iff, List.forall₂_map_right_iff,
      List.forall₂_same]
    exact fun comment _ => ⟨String.toList_ofList, by simp⟩
  · exact ⟨String.toList_ofList, fun _ h => h⟩

namespace Program

/-- The comments of the prologue, the directives and the statements as pieces of their source. -/
def pieces (p : Program) : List Piece :=
  p.directives.flatMap Directive.pieces ++ p.body.map Statement.piece

/-- The spans of the directives and the statements. -/
def spans (p : Program) : List Span :=
  p.directives.map (·.span) ++ p.body.map (·.span)

theorem filterMap_span_pieces (p : Program) : p.pieces.filterMap (·.span?) = p.spans := by
  -- comments have no span, so a directive gives one
  have hdirective (d : Directive) : d.pieces.filterMap (·.span?) = [d.span] := by
    rw [Directive.pieces, List.filterMap_append, List.filterMap_map]
    simp
  rw [pieces, List.filterMap_append, spans]
  congr 1
  · rw [List.filterMap_flatMap, List.map_eq_flatMap]
    simp only [hdirective]
  · rw [List.filterMap_map]
    simp [Function.comp_def, Statement.piece]

/-- What groups make up has their texts, in the same order. -/
theorem forall₂_pieces_ofGroups (pending gs : List Group) :
    List.Forall₂ Piece.IsOf (ofGroups pending gs).pieces ((pending ++ gs).map Group.piece) := by
  -- from where the prologue ends, each group makes one statement
  have hbody (hs : List Group) :
      List.Forall₂ Piece.IsOf (ofBody (hs.map Group.toStatement)).pieces (hs.map Group.piece) := by
    have hpieces : (ofBody (hs.map Group.toStatement)).pieces = hs.map Group.piece := by
      simp [pieces, ofBody, Group.piece_toStatement]
    rw [hpieces, List.forall₂_same]
    exact fun p _ => Piece.isOf_rfl
  -- the cases follow the prologue: no group, a comment waits, a directive takes it, code ends it
  fun_induction ofGroups pending gs with
  | case1 pending =>
    rw [List.append_nil]
    exact hbody pending
  | case2 pending g gs _ ih =>
    -- a comment that waits is moved from the groups to those that wait
    rwa [List.append_assoc] at ih
  | case3 pending g gs _ literal _ p ih =>
    -- the comments that waited stand in front of their directive again
    have hdirective := Group.forall₂_pieces_toDirective pending literal g
    have hall := List.rel_append hdirective ih
    rw [List.nil_append] at hall
    simpa [pieces] using hall
  | case4 pending g gs => exact hbody (pending ++ g :: gs)

/-- What groups make up keeps the text of each of its nodes. -/
theorem stored_ofGroups (pending gs : List Group) :
    (∀ d ∈ (ofGroups pending gs).directives, d.raw = some d.text) ∧
      ∀ s ∈ (ofGroups pending gs).body, s.stored? = some s.text := by
  have hbody (hs : List Group) : ∀ s ∈ hs.map Group.toStatement, s.stored? = some s.text := by
    intro s hs
    obtain ⟨g, -, rfl⟩ := List.mem_map.1 hs
    exact g.stored?_toStatement
  -- the cases are those of the prologue again; only a directive adds a node of its own
  fun_induction ofGroups pending gs with
  | case1 pending => exact ⟨by simp [ofBody], hbody pending⟩
  | case2 pending g gs _ ih => exact ih
  | case3 pending g gs _ literal _ p ih =>
    exact ⟨List.forall_mem_cons.2 ⟨rfl, ih.1⟩, ih.2⟩
  | case4 pending g gs => exact ⟨by simp [ofBody], hbody (pending ++ g :: gs)⟩

/-! ## Whole sources -/

/-- Reading a source loses and repeats nothing. The directives and statements keep the texts that
their spans select, and follow each other; the groups that they are made of are spread over the
tokens of the source, with nothing but line breaks around them; and behind the shebang line the
source is the comments of the prologue, the directives and the statements, in order and with nothing
but spacing around them. -/
theorem parse_covers {source : String} {p : Program} (h : parse source = .ok p) :
    (∀ d ∈ p.directives, d.raw = some d.text ∧ d.span.Selects d.text.toList source.toList) ∧
      (∀ s ∈ p.body, s.stored? = some s.text ∧ s.span.Selects s.text.toList source.toList) ∧
      p.spans.Pairwise (fun a b => a.stop ≤ b.start) ∧
      ∃ line rest gs, source.toList = line ++ rest ∧ IsShebangLine line rest p.shebang ∧
        p = ofParts p.shebang gs ∧
        Spread (·.kind = .newline) (gs.map Group.tokens) (lex (byteLength line) rest).tokens ∧
        Covers (byteLength line) p.pieces rest := by
  obtain ⟨line, rest, gs, hsource, hshebang, hgs, hp⟩ := exists_of_parse h
  -- the groups are what the tokens are split into
  obtain ⟨-, -, hsplit⟩ := of_readGroups hgs
  have hspread : Spread (·.kind = .newline) (gs.map Group.tokens)
      (lex (byteLength line) rest).tokens := by
    rw [hsplit]
    exact Group.spread_split _
  have hpieces : p.pieces = (ofGroups [] gs).pieces := by rw [hp]; rfl
  have hcovers : Covers (byteLength line) p.pieces rest := by
    rw [hpieces]
    -- the pieces of the program are those of the groups, with the spans of those that have one
    exact (Group.covers_of_readGroups hgs).of_forall₂ (forall₂_pieces_ofGroups [] gs)
  have hstored := stored_ofGroups [] gs
  have hselects := hcovers.selects rfl
  rw [← hsource] at hselects
  refine ⟨fun d hd => ⟨?_, ?_⟩, fun s hs => ⟨?_, ?_⟩, ?_,
    line, rest, gs, hsource, hshebang, hp, hspread, hcovers⟩
  · rw [hp] at hd
    exact hstored.1 d hd
  · -- a directive is the last of its own pieces
    have hpiece : ⟨d.text.toList, some d.span⟩ ∈ p.pieces := by
      refine List.mem_append_left _ (List.mem_flatMap.2 ⟨d, hd, ?_⟩)
      exact List.mem_append_right _ List.mem_cons_self
    exact hselects _ hpiece _ rfl
  · rw [hp] at hs
    exact hstored.2 s hs
  · exact hselects _ (List.mem_append_right _ (List.mem_map_of_mem hs)) _ rfl
  · -- the pieces stand in order, and the spans are those of pieces
    rw [← filterMap_span_pieces]
    exact hcovers.pairwise

/-- A carriage return ends the shebang line, a comment of two-byte characters waits for its
directive, and another comment stays with a directive behind its semicolon. -/
theorem parse_covers_of_comments :
    let source := "#!node\r\n// é\n'use strict'; /* a */ require('./x');\n\n/['/]/ +\n2"
    let p : Program :=
      ⟨some "node",
        [⟨"'use strict'", ⟨14, 35⟩, some "'use strict'; /* a */", ["// é"]⟩],
        [⟨.load .requireCall "./x", ⟨36, 51⟩, .standard, some "require('./x');"⟩,
          ⟨.other "/['/]/ +\n2", ⟨53, 63⟩, .standard, none⟩]⟩
    parse source = .ok p ∧ p.spans.Pairwise (fun a b => a.stop ≤ b.start) ∧
      (∀ s ∈ p.body, s.span.Selects s.text.toList source.toList) ∧
      ∃ line rest, source.toList = line ++ rest ∧ IsShebangLine line rest p.shebang ∧
        Covers (byteLength line) p.pieces rest := by
  intro source p
  -- every part that a source can have stands in this one
  have hparse : parse source = .ok p := by decide +kernel
  obtain ⟨-, hbody, hspans, line, rest, gs, hsource, hshebang, -, -, hcovers⟩ := parse_covers hparse
  exact ⟨hparse, hspans, fun s hs => (hbody s hs).2, line, rest, hsource, hshebang, hcovers⟩

end Program

end Preload
