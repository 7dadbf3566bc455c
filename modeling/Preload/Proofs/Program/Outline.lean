import Preload.Proofs.Program.Reading

/-!
# Outlines of programs

The outline of a program is what it says of directives and of modules: the values of the directives,
and for each statement what it loads, if it loads anything. Of the tokens of a script it depends on
the kinds and on the texts of the string literals only (`Token.shape`): not on names, comments,
blanks and places.

Main statements:
* `Program.parse_eq_groups`: a script is read as its shebang line and its groups;
* `Program.outline_ofParts_congr`: groups of one shape make up programs of one outline.
-/

namespace Preload

/-! ## The parts of a script -/

/-- The first line of a script up to its line break, if that is a shebang line, and what is behind
it. -/
def scriptParts (cs : List Char) : Split :=
  match shebang? cs with
  | some line => line.push ['#', '!']
  | none => ⟨[], cs⟩

/-- The tokens of a script behind its shebang line. -/
def scriptTokens (source : String) : List Token :=
  let parts := scriptParts source.toList
  (lex (byteLength parts.taken) parts.rest).tokens

/-- The groups of a script, one for each line of the program that is read from it. -/
def scriptGroups (source : String) : Except ParseError (List Group) :=
  let parts := scriptParts source.toList
  readGroups (byteLength parts.taken) parts.rest

namespace Program

theorem scriptParts_append {line rest : List Char} {shebang : Option String}
    (hline : IsShebangLine line rest shebang) (hmarker : shebang = none → ¬['#', '!'] <+: rest) :
    scriptParts (line ++ rest) = ⟨line, rest⟩ := by
  -- a shebang line is a part of its own, and without one the script is all rest
  rw [scriptParts, shebang?_of_isShebangLine hline hmarker]
  cases shebang with
  | none =>
    obtain rfl : line = [] := hline
    rfl
  | some interpreter =>
    obtain ⟨-, -, returns, rfl, -⟩ := hline
    rfl

/-- A script is read as its shebang line and its groups. -/
theorem parse_eq_groups (source : String) :
    ∃ line rest shebang, source.toList = line ++ rest ∧ scriptParts source.toList = ⟨line, rest⟩ ∧
      IsShebangLine line rest shebang ∧ (shebang = none → ¬['#', '!'] <+: rest) ∧
      parse source = (scriptGroups source).map (ofParts shebang) := by
  -- the parts are those that reading takes the source apart into
  obtain ⟨line, rest, shebang, hsource, hline, hmarker, hparse⟩ := exists_parse_eq source
  have hparts : scriptParts source.toList = ⟨line, rest⟩ := by
    rw [hsource, scriptParts_append hline hmarker]
  refine ⟨line, rest, shebang, hsource, hparts, hline, hmarker, ?_⟩
  rw [hparse, scriptGroups, hparts]

end Program

/-! ## Shapes -/

/-- The token without its place, and without its text unless it is a string. -/
def Token.shape (t : Token) : Token :=
  ⟨[], t.kind, if t.kind = .string then t.text else [], 0⟩

namespace Group

/-- The group without places and all texts but those of strings. -/
def shape (g : Group) : Group :=
  ⟨g.first.shape, g.rest.map Token.shape⟩

theorem split_map_shape (ts : List Token) : split (ts.map Token.shape) = (split ts).map shape := by
  -- cutting looks at kinds alone, and shapes keep them
  have hkind (t : Token) : t.shape.kind = t.kind := rfl
  rw [split, cut_map hkind]
  rfl

@[simp] theorem shape_bare (g : Group) : g.bare.shape = g.shape := by
  simp only [bare, unplaced, flush, shape, Token.shape, Token.unplaced, Token.flush, List.map_map]
  rfl

/-- A word without its text unless it is a string. -/
def wordShape (word : Token.Kind × List Char) : Token.Kind × List Char :=
  (word.1, if word.1 = .string then word.2 else [])

theorem tokens_shape (g : Group) : g.shape.tokens = g.tokens.map Token.shape := rfl

theorem code_shape (g : Group) : g.shape.code = g.code.map Token.shape := by
  rw [code, tokens_shape, List.filter_map, code]
  rfl

@[simp] theorem isEmpty_code_shape (g : Group) : g.shape.code.isEmpty = g.code.isEmpty := by
  rw [code_shape, List.isEmpty_map]

theorem words_shape (g : Group) : g.shape.words = g.words.map wordShape := by
  -- the core leaves out a semicolon, which shows in the kind of the last token
  have hlast : g.shape.code.getLast?.map (·.kind) = g.code.getLast?.map (·.kind) := by
    rw [code_shape, List.getLast?_map, Option.map_map]
    rfl
  have hcore : g.shape.core = g.core.map Token.shape := by
    rw [core, hlast, code_shape, ← List.map_dropLast, core]
    split <;> rfl
  rw [words, hcore, words, List.map_map, List.map_map]
  rfl

/-- A group is a string literal if its words are that literal alone. -/
theorem literal?_eq_some_iff {g : Group} {literal : List Char} :
    g.literal? = some literal ↔ g.words = [(.string, literal)] := by
  unfold literal?
  -- a group of any other words is no literal, and has other words
  split
  · next hwords => simp [hwords]
  · next hwords => exact iff_of_false nofun (hwords literal)

theorem load?_eq_some_requireCall_iff {g : Group} {literal : List Char} :
    g.load? = some (.requireCall, literal) ↔
      ∃ word opener closer, g.words = [(.keyword .requireCall, word), (.opening .round, opener),
        (.string, literal), (.closing .round, closer)] := by
  unfold load?
  split
  · next hwords => simp [hwords]
  · next hwords => simp [hwords]
  · next hwords _ =>
    refine iff_of_false nofun ?_
    -- the other form of loading has a keyword of its own
    rintro ⟨word, opener, closer, heq⟩
    exact hwords _ _ _ _ heq

theorem load?_eq_some_importDecl_iff {g : Group} {literal : List Char} :
    g.load? = some (.importDecl, literal) ↔
      ∃ word, g.words = [(.keyword .importDecl, word), (.string, literal)] := by
  unfold load?
  split
  · next hwords => simp [hwords]
  · next hwords => simp [hwords]
  · next _ hwords =>
    refine iff_of_false nofun ?_
    rintro ⟨word, heq⟩
    exact hwords _ _ heq

theorem wordShape_eq_string_iff {word : Token.Kind × List Char} {literal : List Char} :
    wordShape word = (.string, literal) ↔ word = (.string, literal) := by
  -- only strings keep their text
  obtain ⟨kind, text⟩ := word
  cases kind <;> simp [wordShape]

@[simp] theorem literal?_shape (g : Group) : g.shape.literal? = g.literal? := by
  -- a literal is a word alone, and a shape hides no string
  ext literal
  simp [literal?_eq_some_iff, words_shape, List.map_eq_cons_iff, wordShape_eq_string_iff]

@[simp] theorem load?_shape (g : Group) : g.shape.load? = g.load? := by
  ext ⟨style, literal⟩
  -- the words of a shape come from words of the same kinds, one by one
  cases style with
  | requireCall =>
    simp only [load?_eq_some_requireCall_iff, words_shape, List.map_eq_cons_iff,
      List.map_eq_nil_iff, wordShape_eq_string_iff]
    constructor
    · -- only the string keeps its text in the shape; of the others any text will do
      rintro ⟨_, _, _, ⟨_, word⟩, _, hwords, hword, ⟨_, opener⟩, _, rfl, hopener, _, _, rfl, rfl,
        ⟨_, closer⟩, _, rfl, hcloser, rfl⟩
      cases hword
      cases hopener
      cases hcloser
      exact ⟨word, opener, closer, hwords⟩
    · rintro ⟨word, opener, closer, hwords⟩
      exact ⟨_, _, _, _, _, hwords, rfl, _, _, rfl, rfl, _, _, rfl, rfl, _, _, rfl, rfl, rfl⟩
  | importDecl =>
    simp only [load?_eq_some_importDecl_iff, words_shape, List.map_eq_cons_iff,
      List.map_eq_nil_iff, wordShape_eq_string_iff]
    constructor
    · rintro ⟨_, ⟨_, word⟩, _, hwords, hword, _, _, rfl, rfl, rfl⟩
      cases hword
      exact ⟨word, hwords⟩
    · rintro ⟨word, hwords⟩
      exact ⟨_, _, _, hwords, rfl, _, _, rfl, rfl, rfl⟩

end Group

/-! ## Outlines -/

/-- The style and the specifier of a statement that loads a module. -/
def StatementKind.load? : StatementKind → Option (ImportStyle × String)
  | .load style specifier => some (style, specifier)
  | .other _ => none

/-- What a program says of directives and of modules. -/
structure Outline where
  /-- The values of the directives. -/
  values : List String
  /-- For each statement what it loads, if it loads anything. -/
  loads : List (Option (ImportStyle × String))
  deriving DecidableEq, Repr

/-- What the program says of directives and of modules. -/
def Program.outline (p : Program) : Outline :=
  ⟨p.directives.map (·.value), p.body.map (·.kind.load?)⟩

namespace Group

theorem value_toDirective_shape (comments : List Group) (literal : List Char) (g : Group) :
    (g.shape.toDirective (comments.map shape) literal).value =
      (g.toDirective comments literal).value := rfl

theorem load?_toStatement (g : Group) :
    g.toStatement.kind.load? =
      g.load?.map fun load => (load.1, unquote (String.ofList load.2)) := by
  -- the specifier is the literal, and a shape has the same one
  unfold toStatement
  cases g.load? <;> rfl

theorem load?_toStatement_shape (g : Group) :
    g.shape.toStatement.kind.load? = g.toStatement.kind.load? := by
  rw [load?_toStatement, load?_shape, load?_toStatement]

end Group

namespace Program

/-- Groups of one shape make up programs of one outline. -/
theorem outline_ofParts_congr {gs hs : List Group} (h : gs.map Group.shape = hs.map Group.shape)
    (shebang shebang' : Option String) :
    (ofParts shebang gs).outline = (ofParts shebang' hs).outline := by
  -- the outline only looks at what shapes show, so reading shapes says the same
  have hshape (gs : List Group) :
      (ofGroups [] (gs.map Group.shape)).directives.map (·.value) =
          (ofGroups [] gs).directives.map (·.value) ∧
        (ofGroups [] (gs.map Group.shape)).body.map (·.kind.load?) =
          (ofGroups [] gs).body.map (·.kind.load?) :=
    map_ofGroups_map (·.value) (·.kind.load?) Group.isEmpty_code_shape Group.literal?_shape
      Group.value_toDirective_shape Group.load?_toStatement_shape [] gs
  -- both say what their shapes say
  obtain ⟨hvalues, hloads⟩ := hshape gs
  rw [h] at hvalues hloads
  obtain ⟨hvalues', hloads'⟩ := hshape hs
  rw [outline, outline, Outline.mk.injEq]
  exact ⟨hvalues.symm.trans hvalues', hloads.symm.trans hloads'⟩

end Program

end Preload
