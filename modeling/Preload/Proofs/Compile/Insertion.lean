import Preload.Compile
import Preload.Proofs.Injector.Transform
import Preload.Proofs.Program.Hoisting
import Preload.Proofs.Program.RoundTrip

/-!
# The line that compiling inserts

A file that is no entry is printed as it was read. An entry gets one more line, behind its shebang
line and its directives, and the text with that line is read as the program with one more statement
in front of its body.

The new line ends in a semicolon, so a slash behind it opens a regex literal. Where the directives
end in a string without a semicolon, a slash behind them divides instead. That is the one case in
which the text need not be read as the program with one more statement.

Main statement:
* `compileFile_inserts_line`.
-/

namespace Preload

/-- Whether the last token of code in a directive is a semicolon. -/
def Directive.isTerminated (d : Directive) : Bool :=
  endsInSemicolon d.text.toList

namespace Program

/-- The program up to its body. -/
def prologue (p : Program) : Program :=
  { p with body := [] }

/-- Whether the body has code and its first token of code opens with a slash. -/
def bodyOpensWithSlash (p : Program) : Bool :=
  opensWithSlash ((ofBody p.body).render "\n").toList

/-! ## The text of a program with one more statement -/

theorem lines_eq_prologue_append (p : Program) :
    p.lines = p.prologue.lines ++ (ofBody p.body).lines := by
  simp [lines, prologue, ofBody, shebangLines]

theorem render_eq_prologue_append (newline : String) (p : Program) :
    p.render newline = p.prologue.render newline ++ (ofBody p.body).render newline := by
  rw [render, lines_eq_prologue_append, List.map_append, String.join_append, render, render]

theorem render_prepend (newline : String) (s : Statement) (p : Program) :
    (p.prepend s).render newline =
      p.prologue.render newline ++ (s.text ++ newline) ++ (ofBody p.body).render newline := by
  -- the new statement has a line of its own
  have hbody : (ofBody (s :: p.body)).render newline =
      s.text ++ newline ++ (ofBody p.body).render newline := by
    have hlines : (ofBody (s :: p.body)).lines = [s.text] ++ (ofBody p.body).lines := rfl
    -- the lines of the prologue are the same
    rw [render, hlines, List.map_append, String.join_append, render]
    simp
  rw [render_eq_prologue_append, String.append_assoc, ← hbody]
  rfl

theorem toList_render_ofBody (gs : List Group) :
    ((ofBody (gs.map Group.toStatement)).render "\n").toList =
      Token.spelling (Group.lines gs) := by
  -- each statement is the text of its group
  have hlines : (ofBody (gs.map Group.toStatement)).lines = gs.map Group.source := by
    simp [lines, ofBody, shebangLines, Function.comp_def]
  rw [toList_render, hlines, flatMap_sources, Group.spelling_lines]
  rfl

/-- The statements of a program that was read ask for no other place. -/
theorem standard_of_parse {source : String} {p : Program} (h : parse source = .ok p) :
    ∀ s ∈ p.body, s.hoist = .standard := by
  -- statements from groups are made without a place of their own
  obtain ⟨gs, hp, -, -⟩ := ofParts_of_parse h
  intro s hs
  rw [hp, ofParts, body_ofGroups] at hs
  obtain ⟨g, -, rfl⟩ := List.mem_map.1 hs
  unfold Group.toStatement
  cases g.load? <;> rfl

/-! ## Reading the text with the new line -/

/-- Whether a program was read from the groups `front`, which end in the last directive, and
`back`. -/
structure IsCut (p : Program) (front back : List Group) : Prop where
  legible : Group.Legible (front ++ back)
  inPrologue : ∀ g ∈ front, g.InPrologue
  shebang : ∀ line ∈ p.shebang, IsInterpreter line.toList
  lastDirective : p.directives.getLast?.map Directive.text = front.getLast?.map Group.source
  body : p.body = back.map Group.toStatement
  /-- A group of code in between is the first statement of the body. -/
  insert : ∀ g : Group, ¬g.code.isEmpty → g.literal? = none →
    ofParts p.shebang (front ++ g :: back) = p.prepend g.toStatement

theorem exists_isCut_of_parse {source : String} {p : Program} (h : parse source = .ok p) :
    ∃ front back, p.IsCut front back := by
  obtain ⟨gs, hgs, hlegible, hline⟩ := ofParts_of_parse h
  -- the prologue is cut off where the first group of code begins
  generalize p.shebang = shebang at hgs hline
  subst hgs
  refine ⟨(Group.cutPrologue [] gs).1, (Group.cutPrologue [] gs).2, ?_, ?_, hline, ?_, ?_, ?_⟩
  · rwa [Group.cutPrologue_append]
  · exact Group.inPrologue_of_mem_cutPrologue (by simp) gs
  · exact text_getLast?_directives [] gs
  · exact body_ofGroups [] gs
  · intro g hcode hliteral
    exact ofParts_insert hcode hliteral shebang gs

namespace IsCut

variable {p : Program} {front back : List Group}

/-- The groups of the body can be read at the start of a text, if a regex literal may stand behind
the prologue or no slash does. -/
theorem readable_back (h : p.IsCut front back)
    (hcontext : (∀ d ∈ p.directives.getLast?, d.isTerminated) ∨ p.bodyOpensWithSlash = false) :
    Token.Readable true (Group.lines back) := by
  -- what stands behind the prologue is readable wherever a regex literal may stand
  refine h.legible.readable_back h.inPrologue ?_
  cases hcontext with
  | inl hdirectives =>
    -- the last group of the prologue is the last directive
    refine .inl fun g hg => ?_
    have hlast := h.lastDirective
    rw [show front.getLast? = some g from hg, Option.map_some] at hlast
    obtain ⟨d, hd, htext⟩ := Option.map_eq_some_iff.1 hlast
    have hterminated := hdirectives d hd
    rwa [Directive.isTerminated, htext, Group.source, String.toList_ofList] at hterminated
  | inr hbody =>
    -- the body opens with no slash
    rw [bodyOpensWithSlash, h.body, toList_render_ofBody] at hbody
    exact .inr (by simp [hbody])

/-- No shebang line is found in front of a prologue and a group that opens with no operator. -/
theorem not_marker (h : p.IsCut front back) {g : Group}
    (hlegible : Group.Legible (front ++ g :: back)) (hg : g.first.kind ≠ .punct) :
    ¬['#', '!'] <+: Token.spelling (Group.lines (front ++ g :: back)) := by
  intro hmarker
  obtain ⟨first, rest, hgs, -, hkind⟩ := hlegible.exists_of_marker hmarker
  cases hfront : front with
  | nil =>
    -- with no group in front the new one opens the text, and its first token is no `#`
    rw [hfront] at hgs
    cases hgs
    exact hg hkind
  | cons f fs =>
    -- the prologue opens with a comment or a string, and so with no operator
    rw [hfront] at hgs
    cases hgs
    have hprologue := h.inPrologue first (by rw [hfront]; exact List.mem_cons_self)
    have hfirst := hprologue first.first List.mem_cons_self
    rw [hkind] at hfirst
    cases hfirst

end IsCut

/-- The text with a line for a module behind the prologue is read as the program with the statement
for that module in front of its body, if a regex literal may stand behind the prologue or no slash
does. -/
theorem parse_render_insert {source : String} {p : Program} (hp : parse source = .ok p)
    {specifier : String} (hfeed : '\n' ∉ specifier.toList) (style : ImportStyle)
    (hcontext : (∀ d ∈ p.directives.getLast?, d.isTerminated) ∨ p.bodyOpensWithSlash = false) :
    ∃ q, parse (p.prologue.render "\n" ++ (style.render specifier ++ ";" ++ "\n") ++
        (ofBody p.body).render "\n") = .ok q ∧
      q.unplaced = (p.prepend
        ⟨.load style specifier, .dummy, .standard, some (style.render specifier ++ ";")⟩).unplaced := by
  -- the line is a group of its own, closed by its semicolon, and it may be put anywhere
  obtain ⟨front, back, hcut⟩ := exists_isCut_of_parse hp
  have hload := Group.load?_closed_load style specifier
  have halone := Group.standsAlone_closed_load hfeed style
  have hsource := Group.source_closed_load style specifier
  have hcode := Group.code_closed_load style specifier
  have hkind : (Group.load style specifier).closed.first.kind ≠ .punct := by
    cases style <;> exact Token.Kind.noConfusion
  generalize (Group.load style specifier).closed = g at *
  -- the text is that of the groups with the new one
  have hinsert := hcut.insert g hcode (Group.literal?_of_load? hload)
  -- so the groups with the new one are readable as they stand
  have hlegible := hcut.legible.insert hcut.inPrologue (hcut.readable_back hcontext) halone
  obtain ⟨q, hq, hsame⟩ := parse_render_ofParts hlegible hcut.shebang
    fun _ => hcut.not_marker hlegible hkind
  rw [hinsert] at hq hsame
  rw [render_prepend, Group.text_toStatement, hsource] at hq
  -- the statement is the one that the group makes
  refine ⟨q, hq, hsame.trans ?_⟩
  rw [Group.toStatement_of_load? hload, hsource]
  rfl

end Program

/-! ## Compiling -/

/-- Compiling a file that is no entry prints it as it was read. -/
theorem compileFile_of_not_isEntry {i : Injector} {f : SourceFile} {p : Program}
    (hp : Program.parse f.source = .ok p) (hentry : i.isEntry f.path = false) (r : Run) :
    compileFile i f r = (.ok ⟨false, p.render "\n"⟩, r) := by
  -- nothing is transformed, and a program that was read is in its order already
  unfold compileFile
  simp only [hp, Injector.transform_of_not_isEntry hentry, Output.ofTransform, Option.getD_none,
    Program.hoist_of_standard (Program.standard_of_parse hp), Option.isSome_none]

/-- Compiling inserts one line into entries, behind their directives, and disturbs nothing else. -/
theorem compileFile_inserts_line (i : Injector) (f : SourceFile) (r : Run) {p : Program}
    (hp : Program.parse f.source = .ok p) :
    (i.isEntry f.path = false → compileFile i f r = (.ok ⟨false, p.render "\n"⟩, r)) ∧
      (i.isEntry f.path = true → ∀ result r', i.transform p f.path r = (.ok result, r') →
        ∃ placement, i.placement f.path = .ok (some placement) ∧
          let style := i.layout.importStyle
          let line := style.render placement.specifier ++ ";"
          let text := p.prologue.render "\n" ++ (line ++ "\n") ++ (Program.ofBody p.body).render "\n"
          p.render "\n" = p.prologue.render "\n" ++ (Program.ofBody p.body).render "\n" ∧
            '\n' ∉ line.toList ∧
            compileFile i f r = (.ok ⟨true, text⟩, r') ∧
            ((∀ d ∈ p.directives.getLast?, d.isTerminated) ∨ p.bodyOpensWithSlash = false →
              ∃ q, Program.parse text = .ok q ∧
                q.unplaced = (p.prepend
                  ⟨.load style placement.specifier, .dummy, .standard, some line⟩).unplaced)) := by
  refine ⟨fun hentry => compileFile_of_not_isEntry hp hentry r, fun hentry result r' h => ?_⟩
  -- the transformation went through, so there is a placement and an injection
  obtain ⟨placement, hplacement, hinject⟩ := Injector.of_transform_eq_ok hentry h
  have hstandard := Program.standard_of_parse hp
  -- no statement of the program is hoisted, so one is injected
  rw [Injector.injectInPlace_eq, Injector.opensWith_of_standard hstandard] at hinject
  simp only [Bool.false_eq_true, if_false] at hinject
  split at hinject
  · cases hinject
  · next hfeed =>
    cases hinject
    refine ⟨placement, hplacement, Program.render_eq_prologue_append "\n" p, ?_, ?_, ?_⟩
    · simp [Group.newline_not_mem_render hfeed]
    · -- what is inserted is standard like all others, so nothing moves
      have hhoist : (p.prepend (i.injected placement.specifier)).hoist =
          p.prepend (i.injected placement.specifier) := Program.hoist_prepend hstandard rfl
      unfold compileFile
      simp only [hp, h, Output.ofTransform, Option.getD_some, hhoist, Option.isSome_some,
        Program.render_prepend]
      rfl
    · exact Program.parse_render_insert hp hfeed i.layout.importStyle

/-- Under a directive with a semicolon the body may open with a slash. -/
theorem compileFile_inserts_line_above_slash :
    let i : Injector := ⟨.default, ⟨"/app"⟩⟩
    let f : SourceFile := ⟨⟨"src/index.js"⟩, "#!node\n'use strict';\n/a/.test(b)"⟩
    ∃ p placement r', Program.parse f.source = .ok p ∧
      i.placement f.path = .ok (some placement) ∧
      let line := i.layout.importStyle.render placement.specifier ++ ";"
      let text := p.prologue.render "\n" ++ (line ++ "\n") ++ (Program.ofBody p.body).render "\n"
      compileFile i f (.fresh .empty "") = (.ok ⟨true, text⟩, r') ∧
        ∃ q, Program.parse text = .ok q ∧ q.unplaced = (p.prepend
          ⟨.load i.layout.importStyle placement.specifier, .dummy, .standard, some line⟩).unplaced := by
  intro i f
  let p : Program :=
    -- the semicolon of the directive ends its statement before the slash
    ⟨some "node", [⟨"'use strict'", ⟨7, 20⟩, some "'use strict';", []⟩],
      [.ofKind (.other "/a/.test(b)") ⟨21, 32⟩]⟩
  have hparse : Program.parse f.source = .ok p := by decide +kernel
  have hentry : i.isEntry f.path = true := by decide +kernel
  have hterminated : ∀ d ∈ p.directives.getLast?, d.isTerminated := by decide +kernel
  obtain ⟨r', htransform⟩ := Injector.exists_transformInPlace_index (Program.standard_of_parse hparse)
  obtain ⟨placement, hplacement, -, -, hcompile, hreparse⟩ :=
    (compileFile_inserts_line i f (.fresh .empty "") hparse).2 hentry _ r'
      (Injector.transform_of_transformInPlace htransform)
  exact ⟨p, placement, r', hparse, hplacement, hcompile, hreparse (.inl hterminated)⟩

end Preload
