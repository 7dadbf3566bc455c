import Preload.Proofs.Program.Reading

/-!
# Reading back a printed program

Printing a program that was read and reading the text again gives the same program, up to the places
of its nodes. There is one exception: a statement that opens with `#!` moves to the front of the
text and is taken for a shebang line there.

Main statements:
* `Program.opensWithMarker_ofParts_iff`: when the text of a program gains a shebang line;
* `Program.parse_render_iff`: printed programs are read back, but for that exception.
-/

namespace Preload

/-! ## The exception -/

/-- Whether the text of a program opens with a statement that looks like a shebang line. -/
def Program.OpensWithMarker (p : Program) : Prop :=
  p.shebang = none ∧ p.directives = [] ∧ ∃ s ∈ p.body.head?, ['#', '!'] <+: s.text.toList

/-- What opens with `#` is an operator. -/
theorem Lexeme.kind_of_first?_numberSign {regexAllowed : Bool} {cs : List Char} {l : Lexeme}
    (h : first? regexAllowed ('#' :: cs) = some l) : l.kind = .punct := by
  cases h
  rfl

namespace Group

/-- A first token that is code and no semicolon is part of what the group says. -/
theorem exists_words_eq_cons {g : Group} (hcomment : g.first.isComment = false)
    (hsemicolon : g.first.kind ≠ .semicolon) : ∃ words, g.words = g.first.word :: words := by
  have hcode : g.code = g.first :: g.rest.filter (!·.isComment) := by
    rw [code, tokens, List.filter_cons_of_pos (by simp [hcomment])]
  rw [words, core, hcode]
  split
  · next hlast =>
    -- the semicolon is not the first token, so another one is left in front of it
    cases hrest : g.rest.filter (!·.isComment) with
    | nil => simp [hrest, hsemicolon] at hlast
    | cons t ts => exact ⟨_, rfl⟩
  · exact ⟨_, rfl⟩

/-- In the text of legible groups only a group of code opens with `#!`. -/
theorem Legible.exists_of_marker {gs : List Group} (h : Legible gs)
    (hmarker : ['#', '!'] <+: Token.spelling (lines gs)) :
    ∃ g hs, gs = g :: hs ∧ ['#', '!'] <+: g.text ∧ g.first.kind = .punct := by
  cases gs with
  | nil => simp at hmarker
  | cons g hs =>
    have hreadable := h.readable
    rw [lines_cons, tokens, List.cons_append] at hreadable
    obtain _ | ⟨_, _, hlexeme, _⟩ := hreadable
    -- what opens with `#` is read as an operator, so it is enough that the first character is one
    obtain ⟨c, text, htext : g.first.text = c :: text⟩ :=
      List.exists_cons_of_ne_nil (Lexeme.text_ne_nil hlexeme)
    -- the line break behind the group is no part of the marker
    rw [spelling_lines_cons, marker_isPrefix_append_iff (by simp)] at hmarker
    obtain rfl : '#' = c := by
      rw [Group.text, htext, List.cons_append, List.cons_prefix_cons] at hmarker
      exact hmarker.1
    refine ⟨g, hs, rfl, hmarker, ?_⟩
    have hkind : ∀ after, Lexeme.first? true (g.first.text ++ after) =
        some ⟨g.first.kind, g.first.text, after⟩ → g.first.kind = .punct := by
      intro after hfirst
      rw [htext] at hfirst
      exact Lexeme.kind_of_first?_numberSign hfirst
    exact hkind _ hlexeme

end Group

namespace Program

/-- A program opens with a marker just if the lines of its groups do and nothing stands in front of
them. -/
theorem opensWithMarker_ofParts_iff {shebang : Option String} {gs : List Group}
    (hgs : Group.Legible gs) :
    (ofParts shebang gs).OpensWithMarker ↔
      shebang = none ∧ ['#', '!'] <+: Token.spelling (Group.lines gs) := by
  constructor
  · rintro ⟨rfl, hdirectives, s, hs, hmarker⟩
    -- without directives all groups are statements, each with its own text
    have hsources : (ofGroups [] gs).body.map Statement.text = gs.map Group.source := by
      have hcode := codeLines_ofGroups [] gs
      rwa [codeLines, show (ofGroups [] gs).directives = [] from hdirectives] at hcode
    rw [Option.mem_def, ofParts, List.head?_eq_some_iff] at hs
    obtain ⟨ss, hs⟩ := hs
    cases gs with
    | nil => cases hs
    | cons g gs =>
      rw [show (ofGroups [] (g :: gs)).body = s :: ss from hs] at hsources
      obtain ⟨htext, -⟩ := List.cons_eq_cons.1 hsources
      rw [htext, Group.source, String.toList_ofList] at hmarker
      rw [Group.spelling_lines_cons]
      exact ⟨rfl, hmarker.trans (List.prefix_append _ _)⟩
  · rintro ⟨rfl, hmarker⟩
    obtain ⟨g, hs, rfl, htext, hkind⟩ := hgs.exists_of_marker hmarker
    -- an operator is code, and neither a literal nor a comment, so the prologue is empty
    have hcomment : g.first.isComment = false := by rw [Token.isComment, hkind]; rfl
    obtain ⟨words, hwords⟩ := Group.exists_words_eq_cons hcomment (by simp [hkind])
    have hliteral : g.literal? = none := by
      rw [Group.literal?, hwords, Token.word, hkind]
    have hcode : ¬g.code.isEmpty := by
      rw [Group.code, Group.tokens, List.filter_cons_of_pos (by simp [hcomment])]
      simp
    have hbody : ofGroups [] (g :: hs) = ofBody ((g :: hs).map Group.toStatement) := by
      rw [ofGroups, if_neg hcode, hliteral]
      rfl
    rw [← ofGroups_eq_ofParts, hbody]
    refine ⟨rfl, rfl, g.toStatement, rfl, ?_⟩
    rwa [Group.text_toStatement, Group.source, String.toList_ofList]

/-! ## The round trip -/

/-- A program that was read is read back from its text, up to the places of its nodes, unless it
opens with a marker; then the text holds another program, with a shebang line, or none. -/
theorem parse_render_iff {source : String} {p : Program} (h : parse source = .ok p) :
    ((∃ q, parse (p.render "\n") = .ok q ∧ q.unplaced = p.unplaced ∧
        q.render "\n" = p.render "\n") ↔ ¬p.OpensWithMarker) ∧
      (p.OpensWithMarker → ∀ q, parse (p.render "\n") = .ok q →
        q.shebang.isSome ∧ q.unplaced ≠ p.unplaced) := by
  obtain ⟨gs, hp, hgs, hline⟩ := ofParts_of_parse h
  generalize p.shebang = shebang at hp hline
  subst hp
  have hmarked (hmarker : (ofParts shebang gs).OpensWithMarker) (q : Program)
      (hq : parse ((ofParts shebang gs).render "\n") = .ok q) :
      q.shebang.isSome ∧ q.unplaced ≠ (ofParts shebang gs).unplaced := by
    obtain ⟨rfl, hopen⟩ := (opensWithMarker_ofParts_iff hgs).1 hmarker
    -- the text opens with `#!`, so what is read has a shebang line
    have hsome : q.shebang.isSome := by
      unfold parse at hq
      split at hq
      · obtain ⟨hs, -, rfl⟩ := exists_of_map_eq_ok hq
        rfl
      · next hnone =>
        rw [toList_render_ofParts] at hnone
        exact absurd hopen (shebang?_eq_none_iff.1 hnone)
    refine ⟨hsome, fun heq => ?_⟩
    have hshebang : q.shebang = none := congrArg Program.shebang heq
    rw [hshebang] at hsome
    cases hsome
  refine ⟨⟨?_, fun hmarker => ?_⟩, hmarked⟩
  · rintro ⟨q, hq, heq, -⟩ hmarker
    exact (hmarked hmarker q hq).2 heq
  · obtain ⟨q, hq, heq⟩ := parse_render_ofParts hgs hline fun hnone hopen =>
      hmarker ((opensWithMarker_ofParts_iff hgs).2 ⟨hnone, hopen⟩)
    refine ⟨q, hq, heq, ?_⟩
    -- printing says nothing about places
    rw [← render_unplaced, heq, render_unplaced]

/-- A blank in front of `#!` is enough to read a statement that is not read back. -/
theorem parse_render_of_blank_marker :
    ∃ p, parse " #!x" = .ok p ∧ p.OpensWithMarker ∧
      ¬∃ q, parse (p.render "\n") = .ok q ∧ q.unplaced = p.unplaced ∧
        q.render "\n" = p.render "\n" := by
  have hparse : parse " #!x" = .ok (ofBody [.ofKind (.other "#!x") ⟨1, 4⟩]) := by
    decide +kernel
  have hmarker : (ofBody [.ofKind (.other "#!x") ⟨1, 4⟩]).OpensWithMarker :=
    ⟨rfl, rfl, _, rfl, by decide⟩
  exact ⟨_, hparse, hmarker, fun hback => (parse_render_iff hparse).1.1 hback hmarker⟩

end Program

end Preload
