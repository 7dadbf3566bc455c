import Mathlib.Data.List.DropRight
import Preload.Proofs.Group.Lines
import Preload.Program.Parser
import Preload.Program.Printer
import Preload.Proofs.Reader

/-!
# Reading printed programs

A program that was read is made of a shebang line and of groups (`Program.ofParts`). What it says
depends on the groups only up to their places and to the blanks in front of each, and its text is
that of their lines.

Main statements:
* `Group.legible_of_readGroups`: the lines of groups that were read are read into the same groups;
* `Program.exists_of_parse`: a source that is read is its shebang line and the text of its groups;
* `Program.parse_append`: a shebang line and the text behind it, read by themselves;
* `Program.parse_spelling`: a shebang line and the text of tokens are read into the groups of these;
* `Program.ofParts_of_parse`: a program that was read is made of such groups;
* `Program.parse_render_ofParts`: printing and reading give back what is made of such groups.
-/

namespace Preload

/-! ## Groups apart from their places -/

namespace Token

theorem map_kind_place (pos : Nat) (ts : List Token) :
    (place pos ts).map (·.kind) = ts.map (·.kind) :=
  map_place (fun _ => rfl) pos ts

/-- What a token says: its kind and its text. -/
def word (t : Token) : Kind × List Char :=
  (t.kind, t.text)

end Token

namespace Group

/-- The group without the places of its tokens. -/
def unplaced (g : Group) : Group :=
  ⟨g.first.unplaced, g.rest.map Token.unplaced⟩

/-- The group without the places of its tokens and the blanks in front of it. -/
def bare (g : Group) : Group :=
  g.flush.unplaced

theorem split_map_unplaced (ts : List Token) :
    split (ts.map Token.unplaced) = (split ts).map unplaced := by
  -- places are not looked at when tokens are split
  have hkind (t : Token) : t.unplaced.kind = t.kind := rfl
  rw [split, cut_map hkind]
  rfl

/-- The groups of tokens at other places are the same but for the places. -/
theorem map_unplaced_split_place (pos : Nat) (ts : List Token) :
    (split (Token.place pos ts)).map unplaced = (split ts).map unplaced := by
  -- both are split as without places
  rw [← split_map_unplaced, Token.map_unplaced_place, split_map_unplaced]

/-- What is left of the words of a group without comments and a last semicolon. -/
def coreWords (words : List (Token.Kind × List Char)) : List (Token.Kind × List Char) :=
  let code := words.filter fun word => !word.1.isComment
  if code.getLast?.map (·.1) = some .semicolon then code.dropLast else code

theorem map_word_code (g : Group) :
    g.code.map Token.word = (g.tokens.map Token.word).filter fun word => !word.1.isComment := by
  rw [List.filter_map]
  rfl

theorem words_eq_coreWords (g : Group) : g.words = coreWords (g.tokens.map Token.word) := by
  -- whether the last token of code is a semicolon shows in its word
  have hkinds : g.code.getLast?.map (·.kind) = (g.code.map Token.word).getLast?.map (·.1) := by
    rw [List.getLast?_map, Option.map_map]
    rfl
  rw [coreWords, ← map_word_code, ← hkinds, words, core]
  split
  · exact List.map_dropLast
  · rfl

theorem map_word_bare (g : Group) : g.bare.tokens.map Token.word = g.tokens.map Token.word := by
  -- neither places nor the blank in front are part of a word
  simp [bare, unplaced, flush, tokens, Token.word, Token.unplaced, Token.flush, Function.comp_def]

@[simp] theorem words_bare (g : Group) : g.bare.words = g.words := by
  -- the words of a group depend on what its tokens say, and the bare group says the same
  rw [words_eq_coreWords, map_word_bare, words_eq_coreWords]

@[simp] theorem text_bare (g : Group) : g.bare.text = g.text := by
  simp [bare, unplaced, flush, text, Token.unplaced, Token.flush, List.flatMap_map]

@[simp] theorem source_bare (g : Group) : g.bare.source = g.source := by
  rw [source, text_bare, source]

@[simp] theorem isEmpty_code_bare (g : Group) : g.bare.code.isEmpty = g.code.isEmpty := by
  -- whether there is code shows in the words
  rw [← List.isEmpty_map (f := Token.word), map_word_code, map_word_bare, ← map_word_code,
    List.isEmpty_map]

@[simp] theorem literal?_bare (g : Group) : g.bare.literal? = g.literal? := by
  rw [literal?, words_bare, literal?]

@[simp] theorem load?_bare (g : Group) : g.bare.load? = g.load? := by
  rw [load?, words_bare, load?]

end Group

/-! ## Programs apart from their places -/

/-- The statement without its place. -/
def Statement.unplaced (s : Statement) : Statement :=
  { s with span := .dummy }

/-- The directive without its place. -/
def Directive.unplaced (d : Directive) : Directive :=
  { d with span := .dummy }

/-- The program without the places of its nodes. -/
def Program.unplaced (p : Program) : Program :=
  { p with directives := p.directives.map Directive.unplaced
           body := p.body.map Statement.unplaced }

theorem Group.unplaced_toStatement (g : Group) :
    g.bare.toStatement.unplaced = g.toStatement.unplaced := by
  unfold toStatement
  -- what a group loads and its text are those of the bare group
  rw [load?_bare, source_bare]
  cases g.load? <;> rfl

theorem Group.unplaced_toDirective (comments : List Group) (literal : List Char) (g : Group) :
    (g.bare.toDirective (comments.map bare) literal).unplaced =
      (g.toDirective comments literal).unplaced := by
  simp [toDirective, Directive.unplaced, Function.comp_def]

/-- A statement keeps the text of its group. -/
@[simp] theorem Group.text_toStatement (g : Group) : g.toStatement.text = g.source := by
  unfold toStatement
  cases g.load? <;> rfl

namespace Program

/-- Groups that are told apart neither by what makes a prologue nor by what is looked at in
directives and statements make up programs that look alike. -/
theorem map_ofGroups_map {α β : Type} (ofDirective : Directive → α) (ofStatement : Statement → β)
    {ofDirective' : Directive → α} {ofStatement' : Statement → β} {f : Group → Group}
    (hcode : ∀ g, (f g).code.isEmpty = g.code.isEmpty) (hliteral : ∀ g, (f g).literal? = g.literal?)
    (hdirective : ∀ comments literal g,
      ofDirective ((f g).toDirective (comments.map f) literal) =
        ofDirective' (g.toDirective comments literal))
    (hstatement : ∀ g, ofStatement (f g).toStatement = ofStatement' g.toStatement)
    (pending gs : List Group) :
    (ofGroups (pending.map f) (gs.map f)).directives.map ofDirective =
        (ofGroups pending gs).directives.map ofDirective' ∧
      (ofGroups (pending.map f) (gs.map f)).body.map ofStatement =
        (ofGroups pending gs).body.map ofStatement' := by
  -- behind the prologue every group makes a statement
  have hbody (hs : List Group) :
      ((hs.map f).map Group.toStatement).map ofStatement =
        (hs.map Group.toStatement).map ofStatement' := by
    simp [hstatement, Function.comp_def]
  induction gs generalizing pending with
  | nil => exact ⟨rfl, hbody pending⟩
  | cons g gs ih =>
    rw [List.map_cons, ofGroups, ofGroups, hcode, hliteral]
    by_cases hempty : g.code.isEmpty
    · -- a comment waits with those in front of it
      rw [if_pos hempty, if_pos hempty]
      have hgs := ih (pending ++ [g])
      rwa [List.map_append] at hgs
    · rw [if_neg hempty, if_neg hempty]
      cases g.literal? with
      | some literal =>
        -- a directive takes the comments in front of it, so none is left for the rest
        obtain ⟨hdirectives, hstatements⟩ := ih []
        refine ⟨?_, hstatements⟩
        rw [List.map_nil] at hdirectives
        rw [List.map_cons, List.map_cons, hdirective, hdirectives]
      | none =>
        -- the prologue is over: what waited and what is left become statements
        have hgs := hbody (pending ++ g :: gs)
        rw [List.map_append, List.map_cons] at hgs
        exact ⟨rfl, hgs⟩

/-- The text of a program says nothing about places. -/
@[simp] theorem render_unplaced (newline : String) (p : Program) :
    p.unplaced.render newline = p.render newline := by
  -- the lines of a directive and the text of a statement have no places in them
  have hdirectives : (p.directives.map Directive.unplaced).flatMap Directive.lines =
      p.directives.flatMap Directive.lines := List.flatMap_map ..
  have hbody : (p.body.map Statement.unplaced).map Statement.text = p.body.map Statement.text := by
    simp only [List.map_map]
    rfl
  rw [render, lines, unplaced, hdirectives, hbody]
  rfl

/-! ## The text of a program -/

/-- The lines of a program behind its shebang line. -/
def codeLines (p : Program) : List String :=
  p.directives.flatMap Directive.lines ++ p.body.map Statement.text

/-- Behind the shebang line there is one line for each group. -/
theorem codeLines_ofGroups (pending gs : List Group) :
    (ofGroups pending gs).codeLines = (pending ++ gs).map Group.source := by
  -- a body alone has one line for each group
  have hbody (hs : List Group) :
      (ofBody (hs.map Group.toStatement)).codeLines = hs.map Group.source := by
    simp [codeLines, ofBody, Function.comp_def]
  fun_induction ofGroups pending gs with
  | case1 pending => rw [hbody, List.append_nil]
  | case2 pending g gs _ ih =>
    rw [ih, List.append_assoc]
    rfl
  | case3 pending g gs _ literal _ p ih =>
    -- a directive has a line for each comment in front of it, and one for itself
    have hlines : (g.toDirective pending literal).lines = pending.map Group.source ++ [g.source] := rfl
    rw [List.map_append, List.map_cons, ← List.nil_append gs, ← ih, codeLines, List.flatMap_cons,
      hlines, codeLines]
    simp only [List.append_assoc, List.cons_append, List.nil_append]
    rfl
  | case4 pending g gs => exact hbody _

/-- The program of a shebang line, if there is one, and of the groups behind it. -/
def ofParts (shebang : Option String) (gs : List Group) : Program :=
  { ofGroups [] gs with shebang := shebang }

/-- Groups alone make up a program without a shebang line. -/
theorem ofGroups_eq_ofParts (gs : List Group) : ofGroups [] gs = ofParts none gs := by
  -- the shebang line is added later
  have hnone (pending : List Group) : (ofGroups pending gs).shebang = none := by
    fun_induction ofGroups pending gs with
    | case1 => rfl
    | case2 _ _ _ _ ih => exact ih
    | case3 _ _ _ _ _ _ _ ih => exact ih
    | case4 => rfl
  rw [ofParts, ← hnone []]

/-- The lines of a program are its shebang line and one line for each group. -/
theorem lines_ofParts (shebang : Option String) (gs : List Group) :
    (ofParts shebang gs).lines = (ofParts shebang gs).shebangLines ++ gs.map Group.source := by
  rw [lines, List.append_assoc]
  -- behind the shebang line stand the lines of the groups
  exact congrArg _ (codeLines_ofGroups [] gs)

/-- The text of a shebang line. -/
def shebangText : Option String → List Char
  | some interpreter => '#' :: '!' :: interpreter.toList ++ ['\n']
  | none => []

/-- The text of a shebang line that ends in `returns`. -/
def shebangTextWith (returns : List Char) : Option String → List Char
  | some interpreter => '#' :: '!' :: (interpreter.toList ++ returns) ++ ['\n']
  | none => []

theorem shebangTextWith_nil (shebang : Option String) :
    shebangTextWith [] shebang = shebangText shebang := by
  cases shebang with
  | none => rfl
  | some interpreter => simp [shebangTextWith, shebangText]

/-- The text of a program is that of its lines. -/
theorem toList_render (newline : String) (p : Program) :
    (p.render newline).toList = p.lines.flatMap fun line => line.toList ++ newline.toList := by
  rw [render, String.toList_join, List.flatMap_map]
  simp only [String.toList_append]

/-- What is printed for groups is their texts with a line break behind each. -/
theorem flatMap_sources (newline : String) (gs : List Group) :
    ((gs.map Group.source).flatMap fun line => line.toList ++ newline.toList) =
      gs.flatMap fun g => g.text ++ newline.toList := by
  rw [List.flatMap_map]
  simp [Group.source]

/-- The text of a program is its shebang line and the lines of its groups, each with what the line
break holds in front of the line feed. -/
theorem toList_render_returns {newline : String} {returns : List Char}
    (hnewline : newline.toList = returns ++ ['\n']) (shebang : Option String) (gs : List Group) :
    ((ofParts shebang gs).render newline).toList =
      shebangTextWith returns shebang ++ gs.flatMap fun g => g.text ++ newline.toList := by
  -- the shebang line is printed in front of the groups, with the returns behind its interpreter
  have hmarker : "#!".toList = ['#', '!'] := rfl
  rw [toList_render, lines_ofParts, List.flatMap_append, flatMap_sources]
  congr 1
  cases shebang with
  | none => rfl
  | some interpreter =>
    simp [shebangLines, ofParts, shebangTextWith, String.toList_append, hnewline, hmarker]

/-- The text of a program is its shebang line and the lines of its groups. -/
theorem toList_render_ofParts (shebang : Option String) (gs : List Group) :
    ((ofParts shebang gs).render "\n").toList =
      shebangText shebang ++ Token.spelling (Group.lines gs) := by
  have hfeed : "\n".toList = [] ++ ['\n'] := rfl
  rw [toList_render_returns hfeed, shebangTextWith_nil, Group.spelling_lines]
  rfl

end Program

/-! ## Reading groups -/

/-- The spelling of readable tokens with nested brackets is read into their groups. -/
theorem readGroups_spelling {ts : List Token} (hreadable : Token.Readable true ts)
    (hnested : nested [] (ts.map (·.kind))) (pos : Nat) :
    readGroups pos (Token.spelling ts) = .ok (Group.split (Token.place pos ts)) := by
  -- brackets are checked by their kinds, and places are not looked at
  have hnesting : checkNesting [] (Token.place pos ts) = .ok () := by
    rw [checkNesting_eq_ok_iff, Token.map_kind_place]
    exact hnested
  rw [readGroups, lex, lexFrom_spelling hreadable]
  show (checkNesting [] (Token.place pos ts)).map _ = _
  rw [hnesting]
  rfl

/-- Groups are read from a text without errors whose brackets are nested. -/
theorem of_readGroups {pos : Nat} {cs : List Char} {gs : List Group}
    (h : readGroups pos cs = .ok gs) :
    (lex pos cs).errorAt = none ∧ nested [] ((lex pos cs).tokens.map (·.kind)) ∧
      gs = Group.split (lex pos cs).tokens := by
  simp only [readGroups] at h
  -- what is not closed gives an error, and so do brackets that are not nested
  split at h
  · cases h
  · next herror =>
    obtain ⟨_, hnesting, rfl⟩ := exists_of_map_eq_ok h
    exact ⟨herror, (checkNesting_eq_ok_iff [] _).1 hnesting, rfl⟩

namespace Group

/-- Groups whose lines are read into the same groups. -/
structure Legible (gs : List Group) : Prop where
  readable : Token.Readable true (lines gs)
  nested : nested [] ((lines gs).map (·.kind))
  whole : ∀ g ∈ gs, g.IsWhole
  separated : Separated gs

/-- Groups that were read are legible. -/
theorem legible_of_readGroups {pos : Nat} {cs : List Char} {gs : List Group}
    (h : readGroups pos cs = .ok gs) : Legible gs := by
  obtain ⟨-, hnested, rfl⟩ := of_readGroups h
  -- the tokens of the text are readable, and their groups end where the pass says
  have hreadable : Token.Readable true (lex pos cs).tokens := (readable_lexFrom pos true cs).1
  have hseparated : Separated (split (lex pos cs).tokens) :=
    (separated_cut Cursor.between_fits (run_depth_of_nested hnested .between)).2.2
  exact ⟨readable_lines hreadable, by rwa [nested_lines], fun g => isWhole_of_mem_split, hseparated⟩

theorem Legible.split_lines {gs : List Group} (h : Legible gs) : split (lines gs) = gs.map flush :=
  Group.split_lines h.whole h.separated

/-- Lines that give back their groups do so at any place. -/
theorem map_bare_split_place (pos : Nat) {ts : List Token} {gs : List Group}
    (h : split ts = gs.map flush) : (split (Token.place pos ts)).map bare = gs.map bare := by
  have hunplaced := map_unplaced_split_place pos ts
  -- groups are flushed and lose their places, in whichever order
  rw [h] at hunplaced
  have hflushed := congrArg (List.map flush) hunplaced
  simp only [List.map_map] at hflushed
  exact hflushed

end Group

/-! ## Reading programs -/

theorem trimReturns_trimReturns (line : List Char) :
    trimReturns (trimReturns line) = trimReturns line :=
  List.rdropWhile_idempotent (· == '\r') line

/-- The carriage returns that are left out stand behind what is not. -/
theorem exists_returns (line : List Char) :
    ∃ returns, line = trimReturns line ++ returns ∧ ∀ c ∈ returns, c = '\r' := by
  -- the returns are the last characters up to one that is none
  refine ⟨(line.reverse.takeWhile (· == '\r')).reverse, ?_, fun c hc => ?_⟩
  · rw [trimReturns, ← List.reverse_append, List.takeWhile_append_dropWhile, List.reverse_reverse]
  · have hreturn := List.all_eq_true.1 List.all_takeWhile c (List.mem_reverse.1 hc)
    simpa using hreturn

/-- Whether a text may follow `#!` on the first line: it holds no line break and ends in no carriage
return. -/
def IsInterpreter (line : List Char) : Prop :=
  '\n' ∉ line ∧ trimReturns line = line

theorem isInterpreter_trimReturns (cs : List Char) :
    IsInterpreter (trimReturns (cs.takeWhile (· != '\n'))) := by
  -- what is left of the line was taken in front of the first line break
  refine ⟨fun hmem => ?_, trimReturns_trimReturns _⟩
  rw [trimReturns, List.mem_reverse] at hmem
  have htaken := List.mem_reverse.1 ((List.dropWhile_sublist _).subset hmem)
  have hnot := List.all_eq_true.1 List.all_takeWhile _ htaken
  simp at hnot

/-- A shebang line is found in front of a line break, or of nothing. -/
theorem shebang?_append {taken rest : List Char} (htaken : '\n' ∉ taken)
    (hrest : ∀ c ∈ rest.head?, c = '\n') :
    shebang? ('#' :: '!' :: (taken ++ rest)) = some ⟨taken, rest⟩ := by
  -- no line break is in the line, so all of it is taken
  have hall : ∀ c ∈ taken, (c != '\n') = true := by
    rintro c hc
    simpa using ne_of_mem_of_not_mem hc htaken
  rw [shebang?, Split.run_append_of_forall hall (by simpa using hrest)]

/-- Carriage returns at the end of a line make no difference. -/
theorem trimReturns_append {line returns : List Char} (h : ∀ c ∈ returns, c = '\r') :
    trimReturns (line ++ returns) = trimReturns line := by
  -- read from the back, the returns are dropped first
  have hall : ∀ c ∈ returns.reverse, (c == '\r') = true := by
    intro c hc
    rw [h c (List.mem_reverse.1 hc)]
    rfl
  rw [trimReturns, List.reverse_append, List.dropWhile_append_of_pos hall, trimReturns]

/-- There is a shebang line just in texts that open with `#!`. -/
theorem shebang?_eq_none_iff {cs : List Char} : shebang? cs = none ↔ ¬['#', '!'] <+: cs := by
  refine ⟨?_, fun h => ?_⟩
  · -- a text that opens with the mark has a shebang line
    rintro h ⟨rest, rfl⟩
    cases h
  · unfold shebang?
    split
    · exact absurd (List.prefix_append ['#', '!'] _) h
    · rfl

/-- What opens neither with `#` nor with `!` has no part in what a shebang line opens with. -/
theorem marker_isPrefix_append_iff {text rest : List Char}
    (h : ∀ c ∈ rest.head?, c ≠ '#' ∧ c ≠ '!') :
    ['#', '!'] <+: text ++ rest ↔ ['#', '!'] <+: text := by
  -- a text too short to show both marks would have to go on with one of them
  refine ⟨fun hmarker => ?_, fun hmarker => hmarker.trans (List.prefix_append text rest)⟩
  match text with
  | [] =>
    obtain ⟨tail, rfl⟩ : ['#', '!'] <+: rest := hmarker
    exact absurd rfl (h '#' rfl).1
  | [c] =>
    obtain ⟨rfl, tail, rfl⟩ := List.cons_prefix_cons.1 hmarker
    exact absurd rfl (h '!' rfl).2
  | c :: d :: text => simpa using hmarker

namespace Program

/-- Whether a text is the line that an interpreter comes from, and another one follows it: nothing
without an interpreter, and otherwise the whole first line, which says it between `#!` and carriage
returns. -/
def IsShebangLine (line rest : List Char) : Option String → Prop
  | none => line = []
  | some interpreter =>
    IsInterpreter interpreter.toList ∧ (∀ c ∈ rest.head?, c = '\n') ∧
      ∃ returns, line = '#' :: '!' :: (interpreter.toList ++ returns) ∧ ∀ c ∈ returns, c = '\r'

theorem isShebangLine_of_shebang? {cs : List Char} {line : Split} (h : shebang? cs = some line) :
    cs = ('#' :: '!' :: line.taken) ++ line.rest ∧
      IsShebangLine ('#' :: '!' :: line.taken) line.rest
        (some (String.ofList (trimReturns line.taken))) := by
  unfold shebang? at h
  split at h
  · next cs =>
    obtain rfl := Option.some.inj h
    have hjoined : (Split.run (· != '\n') cs).joined = cs := Split.joined_run _ cs
    -- what was cut off the line are returns
    obtain ⟨returns, htaken, hreturns⟩ := exists_returns (Split.run (· != '\n') cs).taken
    rw [IsShebangLine, String.toList_ofList]
    refine ⟨congrArg ('#' :: '!' :: ·) hjoined.symm, isInterpreter_trimReturns cs, fun c hc => ?_,
      returns, congrArg ('#' :: '!' :: ·) htaken, hreturns⟩
    simpa using Split.run_rest_head c hc
  · cases h

/-- What a shebang line says may follow `#!` on a first line. -/
theorem IsShebangLine.isInterpreter {line rest : List Char} {shebang : Option String}
    (h : IsShebangLine line rest shebang) :
    ∀ interpreter ∈ shebang, IsInterpreter interpreter.toList := by
  rintro interpreter ⟨⟩
  exact h.1

/-- A source is its shebang line, if it opens with one, and the text that its groups are read
from. -/
theorem exists_parse_eq (source : String) :
    ∃ line rest shebang, source.toList = line ++ rest ∧ IsShebangLine line rest shebang ∧
      (shebang = none → ¬['#', '!'] <+: rest) ∧
      parse source = (readGroups (byteLength line) rest).map (ofParts shebang) := by
  unfold parse
  cases hline : shebang? source.toList with
  | some line =>
    obtain ⟨hsource, hshebang⟩ := isShebangLine_of_shebang? hline
    -- the two characters of the mark are one byte each
    have hlength : byteLength ('#' :: '!' :: line.taken) = 2 + byteLength line.taken := by
      simp [← Nat.add_assoc, show '#'.utf8Size = 1 from rfl, show '!'.utf8Size = 1 from rfl]
    refine ⟨_, line.rest, _, hsource, hshebang, fun hnone => absurd hnone (Option.some_ne_none _), ?_⟩
    rw [hlength]
    rfl
  | none =>
    have hparts : ofGroups [] = ofParts none := funext ofGroups_eq_ofParts
    -- without a mark nothing is in front of the groups
    refine ⟨[], source.toList, none, rfl, rfl, fun _ => shebang?_eq_none_iff.1 hline, ?_⟩
    rw [← hparts]
    rfl

/-- A source that is read is its shebang line and the text of its groups. -/
theorem exists_of_parse {source : String} {p : Program} (h : parse source = .ok p) :
    ∃ line rest gs, source.toList = line ++ rest ∧ IsShebangLine line rest p.shebang ∧
      readGroups (byteLength line) rest = .ok gs ∧ p = ofParts p.shebang gs := by
  obtain ⟨line, rest, shebang, hsource, hshebang, -, hparse⟩ := exists_parse_eq source
  rw [hparse] at h
  obtain ⟨gs, hgs, rfl⟩ := exists_of_map_eq_ok h
  exact ⟨line, rest, gs, hsource, hshebang, hgs, rfl⟩

/-- A program that was read is made of a shebang line and legible groups. -/
theorem ofParts_of_parse {source : String} {p : Program} (h : parse source = .ok p) :
    ∃ gs, p = ofParts p.shebang gs ∧ Group.Legible gs ∧
      ∀ line ∈ p.shebang, IsInterpreter line.toList := by
  -- groups that were read are legible
  obtain ⟨line, rest, gs, -, hshebang, hgs, hp⟩ := exists_of_parse h
  exact ⟨gs, hp, Group.legible_of_readGroups hgs, hshebang.isInterpreter⟩

section

variable {line rest : List Char} {shebang : Option String} (hline : IsShebangLine line rest shebang)
  (hmarker : shebang = none → ¬['#', '!'] <+: rest)
include hline hmarker

/-- What a shebang line and the text behind it are found as. -/
theorem shebang?_of_isShebangLine :
    shebang? (line ++ rest) = shebang.map fun _ => ⟨line.drop 2, rest⟩ := by
  cases shebang with
  | none =>
    obtain rfl : line = [] := hline
    exact shebang?_eq_none_iff.2 (hmarker rfl)
  | some interpreter =>
    -- the returns hold no line break, so the line ends where the rest begins
    obtain ⟨⟨hfeed, -⟩, hrest, returns, rfl, hreturns⟩ := hline
    have hreturn : '\n' ∉ returns := fun hmem => absurd (hreturns _ hmem) (by decide)
    exact shebang?_append (List.not_mem_append hfeed hreturn) hrest

/-- A shebang line and the text behind it are read as the groups of that text. -/
theorem parse_append : parse (String.ofList (line ++ rest)) =
    (readGroups (byteLength line) rest).map (ofParts shebang) := by
  rw [parse, String.toList_ofList, shebang?_of_isShebangLine hline hmarker]
  cases shebang with
  | none =>
    obtain rfl : line = [] := hline
    rw [← funext ofGroups_eq_ofParts]
    rfl
  | some interpreter =>
    obtain ⟨⟨-, htrim⟩, -, returns, rfl, hreturns⟩ := hline
    -- the returns behind the interpreter are left out again
    have hinterpreter : trimReturns (interpreter.toList ++ returns) = interpreter.toList := by
      rw [trimReturns_append hreturns, htrim]
    have hlength : byteLength ('#' :: '!' :: (interpreter.toList ++ returns)) =
        2 + byteLength (interpreter.toList ++ returns) := by
      rw [byteLength_cons, byteLength_cons, ← Nat.add_assoc]
      rfl
    rw [hlength]
    simp only [Option.map_some, List.drop_succ_cons, List.drop_zero, hinterpreter,
      String.ofList_toList]
    rfl

end

/-- What groups make up depends on their places only in its own places. -/
theorem unplaced_ofParts_congr {gs hs : List Group} (h : hs.map Group.bare = gs.map Group.bare)
    (shebang : Option String) :
    (ofParts shebang hs).unplaced = (ofParts shebang gs).unplaced := by
  have hbare (gs : List Group) := map_ofGroups_map Directive.unplaced Statement.unplaced
    Group.isEmpty_code_bare Group.literal?_bare Group.unplaced_toDirective
    Group.unplaced_toStatement [] gs
  -- both are what the bare groups make up
  obtain ⟨hdirectives, hbody⟩ := hbare hs
  rw [h] at hdirectives hbody
  obtain ⟨hdirectives', hbody'⟩ := hbare gs
  simp only [unplaced, ofParts, mk.injEq, true_and]
  exact ⟨hdirectives.symm.trans hdirectives', hbody.symm.trans hbody'⟩

/-- A shebang line, which may end in carriage returns, and the spelling of readable tokens are read
as the groups that the tokens are split into, unless a shebang line is found where there was
none. -/
theorem parse_spelling {shebang : Option String} {ts : List Token} {gs : List Group}
    (hline : ∀ interpreter ∈ shebang, IsInterpreter interpreter.toList)
    (hmarker : shebang = none → ¬['#', '!'] <+: Token.spelling ts)
    (hreadable : Token.Readable true ts) (hnested : nested [] (ts.map (·.kind)))
    (hsplit : Group.split ts = gs.map Group.flush) (returns : List Char)
    (hreturns : ∀ c ∈ returns, c = '\r') :
    ∃ hs, parse (String.ofList (shebangTextWith returns shebang ++ Token.spelling ts)) =
        .ok (ofParts shebang hs) ∧ hs.map Group.bare = gs.map Group.bare := by
  cases shebang with
  | none =>
    -- there is no line in front, and none is found
    have hshebang : IsShebangLine [] (Token.spelling ts) none := rfl
    refine ⟨_, ?_, Group.map_bare_split_place 0 hsplit⟩
    rw [shebangTextWith, parse_append hshebang hmarker, byteLength_nil,
      readGroups_spelling hreadable hnested]
    rfl
  | some interpreter =>
    -- the line break of the shebang line is left in front of the groups
    have hshebang : IsShebangLine ('#' :: '!' :: (interpreter.toList ++ returns))
        (Token.spelling (.lineFeed :: ts)) (some interpreter) :=
      ⟨hline interpreter rfl, fun c hc => (Option.some.inj hc).symm, returns, rfl, hreturns⟩
    have htext : shebangTextWith returns (some interpreter) ++ Token.spelling ts =
        ('#' :: '!' :: (interpreter.toList ++ returns)) ++ Token.spelling (.lineFeed :: ts) := by
      simp [shebangTextWith, Token.lineFeed]
    have hsplit : Group.split (.lineFeed :: ts) = gs.map Group.flush := hsplit
    refine ⟨Group.split (Token.place (byteLength ('#' :: '!' :: (interpreter.toList ++ returns)))
      (.lineFeed :: ts)), ?_, Group.map_bare_split_place _ hsplit⟩
    -- the line break in front of the groups is a token of its own, which no group has
    rw [htext, parse_append hshebang (fun hnone => absurd hnone (Option.some_ne_none _)),
      readGroups_spelling hreadable.lineFeed_cons hnested]
    rfl

/-- The text of a shebang line and legible groups is read into what they make up, unless a shebang
line is found where there was none. -/
theorem parse_render_ofParts {shebang : Option String} {gs : List Group} (hgs : Group.Legible gs)
    (hline : ∀ line ∈ shebang, IsInterpreter line.toList)
    (hmarker : shebang = none → ¬['#', '!'] <+: Token.spelling (Group.lines gs)) :
    ∃ q, parse ((ofParts shebang gs).render "\n") = .ok q ∧
      q.unplaced = (ofParts shebang gs).unplaced := by
  obtain ⟨hs, hread, hbare⟩ :=
    parse_spelling hline hmarker hgs.readable hgs.nested hgs.split_lines [] (by simp)
  -- the shebang line is printed without returns
  refine ⟨ofParts shebang hs, ?_, unplaced_ofParts_congr hbare shebang⟩
  rw [← hread, shebangTextWith_nil, ← toList_render_ofParts, String.ofList_toList]

end Program

end Preload
