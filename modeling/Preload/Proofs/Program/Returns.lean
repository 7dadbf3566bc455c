import Preload.Proofs.Group.Returns
import Preload.Proofs.Program.RoundTrip

/-!
# Programs printed with carriage returns

A program that is printed with a carriage return and a line break behind each line is read back as
it was, but for its line comments: the carriage return behind one becomes part of it. So the text
gains a carriage return there each time it is read and printed.

Main statements:
* `Program.exists_parse_returns`: what the text of legible groups is read into;
* `Program.parse_render_crlf`: printing and reading, and when the text stays the same.
-/

namespace Preload

namespace Program

/-- The text of a program is its shebang line and the lines of its groups. -/
theorem toList_render_crlf (shebang : Option String) (gs : List Group) :
    ((ofParts shebang gs).render "\r\n").toList =
      shebangTextWith ['\r'] shebang ++ gs.flatMap fun g => g.text ++ ['\r', '\n'] :=
  toList_render_returns (show "\r\n".toList = ['\r'] ++ ['\n'] from rfl) shebang gs

/-- The text of a shebang line and legible groups is read into these groups with their carriage
returns, unless a shebang line is found where there was none. -/
theorem exists_parse_returns {shebang : Option String} {gs : List Group} (hgs : Group.Legible gs)
    (hline : ∀ line ∈ shebang, IsInterpreter line.toList)
    (hmarker : shebang = none → ¬['#', '!'] <+: Token.spelling (Group.lines gs)) :
    ∃ hs, parse ((ofParts shebang gs).render "\r\n") = .ok (ofParts shebang hs) ∧
      hs.map Group.bare = (gs.map Group.returned).map Group.bare := by
  -- a carriage return is a blank, so the brackets are those of the groups
  have hnested : nested [] ((Group.returnLines gs).map (·.kind)) := by
    rw [Group.map_kind_returnLines]
    exact hgs.nested
  have hmarker' : shebang = none → ¬['#', '!'] <+: Token.spelling (Group.returnLines gs) := by
    intro hnone hopen
    cases gs with
    | nil => simp [Group.returnLines, Group.linesWith] at hopen
    | cons g gs =>
      -- only the text of the first group could hold the marker
      rw [Group.spelling_returnLines, List.flatMap_cons, List.append_assoc,
        marker_isPrefix_append_iff (by simp)] at hopen
      refine hmarker hnone ?_
      rw [Group.spelling_lines_cons]
      exact hopen.trans (List.prefix_append _ _)
  obtain ⟨hs, hread, hbare⟩ := parse_spelling hline hmarker'
    (Group.readable_returnLines hgs.readable) hnested
    (Group.split_returnLines hgs.whole hgs.separated) ['\r'] (by simp)
  refine ⟨hs, ?_, hbare⟩
  rw [← hread, Group.spelling_returnLines, ← toList_render_crlf, String.ofList_toList]

/-- The text with carriage returns stays the same just if no group ends in a line comment. -/
theorem render_crlf_eq_iff (shebang : Option String) (gs : List Group) :
    (ofParts shebang (gs.map Group.returned)).render "\r\n" = (ofParts shebang gs).render "\r\n" ↔
      ∀ g ∈ gs, ¬g.EndsInLineComment := by
  rw [← String.toList_inj, toList_render_crlf, toList_render_crlf, List.append_cancel_left_eq]
  constructor
  · intro heq
    -- one line comment would make the text longer
    have hlength := congrArg List.length heq
    rw [Group.length_flatMap_text_returned] at hlength
    have hnone : (gs.countP fun g => g.EndsInLineComment) = 0 := by omega
    simpa using List.countP_eq_zero.1 hnone
  · -- without a line comment at its end, each group keeps its text
    intro hnone
    rw [List.flatMap_map]
    refine List.flatMap_congr fun g hg => ?_
    rw [Group.text_returned, if_neg (hnone g hg)]

/-- Printed with carriage returns, a program that was read is read back, unless it opens with a
marker. It says the same of directives and modules, and its lines are the same but for the carriage
returns that line comments at their ends took in. So it is printed as the same text again just if no
line ends in a line comment. -/
theorem parse_render_crlf {source : String} {p : Program} (h : parse source = .ok p)
    (hmarker : ¬p.OpensWithMarker) :
    ∃ gs q, scriptGroups source = .ok gs ∧ parse (p.render "\r\n") = .ok q ∧
      q.shebang = p.shebang ∧ q.outline = p.outline ∧
      p.lines = p.shebangLines ++ gs.map Group.source ∧
      q.lines = p.shebangLines ++
        gs.map (fun g => if g.EndsInLineComment then g.source ++ "\r" else g.source) ∧
      (q.render "\r\n" = p.render "\r\n" ↔ ∀ g ∈ gs, ¬g.EndsInLineComment) := by
  obtain ⟨line, rest, shebang, -, hscript, hline, -, hprogram⟩ := parse_eq_groups source
  rw [hprogram] at h
  obtain ⟨gs, hgs, rfl⟩ := exists_of_map_eq_ok h
  have hlegible : Group.Legible gs := by
    rw [scriptGroups, hscript] at hgs
    exact Group.legible_of_readGroups hgs
  obtain ⟨hs, hread, hbare⟩ := exists_parse_returns hlegible hline.isInterpreter fun hnone hopen =>
    hmarker ((opensWithMarker_ofParts_iff hlegible).2 ⟨hnone, hopen⟩)
  -- what was read are the groups with their carriage returns, up to blanks and places
  have hshapes : hs.map Group.shape = gs.map Group.shape := by
    have hshapes := congrArg (List.map Group.shape) hbare
    simpa [Function.comp_def, Group.shape_returned] using hshapes
  have hsources : hs.map Group.source = (gs.map Group.returned).map Group.source := by
    have hsources := congrArg (List.map Group.source) hbare
    simpa [Function.comp_def] using hsources
  have hlines : (ofParts shebang hs).lines = (ofParts shebang (gs.map Group.returned)).lines := by
    rw [lines_ofParts, hsources, lines_ofParts]
    rfl
  refine ⟨gs, ofParts shebang hs, hgs, hread, rfl, outline_ofParts_congr hshapes shebang shebang,
    lines_ofParts shebang gs, ?_, ?_⟩
  · rw [lines_ofParts, hsources, List.map_map]
    simp only [Function.comp_def, Group.source_returned]
    rfl
  · rw [← render_crlf_eq_iff shebang gs, render, hlines, ← render]

/-- Carriage returns at the end of the shebang line and of a comment inside of a statement are kept
apart from those of the lines. -/
theorem parse_render_crlf_of_inner_comment :
    let source := "#!é\r\n'a' /* b */\nf( // c\r\n)\nrequire('./d')"
    let p : Program := ⟨some "é", [⟨"'a'", ⟨6, 17⟩, some "'a' /* b */", []⟩],
      [.ofKind (.other "f( // c\r\n)") ⟨18, 28⟩,
        ⟨.load .requireCall "./d", ⟨29, 43⟩, .standard, some "require('./d')"⟩]⟩
    parse source = .ok p ∧ ¬p.OpensWithMarker ∧
      ∃ q, parse (p.render "\r\n") = .ok q ∧ q.outline = p.outline ∧
        q.render "\r\n" = p.render "\r\n" := by
  intro source p
  have hparse : parse source = .ok p := by decide +kernel
  have hmarker : ¬p.OpensWithMarker := fun hopen => absurd hopen.1 (Option.some_ne_none _)
  have hcomments : (scriptGroups source).map (·.all fun g => !g.EndsInLineComment) = .ok true := by
    decide +kernel
  obtain ⟨gs, q, hgs, hq, -, houtline, -, -, hsame⟩ := parse_render_crlf hparse hmarker
  rw [hgs] at hcomments
  have hnone : ∀ g ∈ gs, ¬g.EndsInLineComment := by
    simpa [Except.map] using hcomments
  exact ⟨hparse, hmarker, q, hq, houtline, hsame.2 hnone⟩

/-- The carriage return behind a line comment becomes part of it, and the text gains another one. -/
theorem parse_render_crlf_of_lineComment :
    let p := ofBody [.ofKind (.other "// x") ⟨0, 4⟩]
    let q := ofBody [.ofKind (.other "// x\r") ⟨0, 5⟩]
    parse "// x" = .ok p ∧ p.render "\r\n" = "// x\r\n" ∧ parse "// x\r\n" = .ok q ∧
      q.render "\r\n" = "// x\r\r\n" := by
  refine ⟨?_, ?_, ?_, ?_⟩ <;> decide +kernel

end Program

end Preload
