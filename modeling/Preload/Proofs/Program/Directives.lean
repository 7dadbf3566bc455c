import Mathlib.Data.List.Forall2
import Preload.Proofs.Program.Outline
import Preload.Proofs.Program.Prologue

/-!
# What groups become

The groups of a script fall into a prologue and what stands behind it (`Prologue`): the comments and
the string of each directive, the comments behind the last directive, and all other groups. That
decides what each of them becomes, and nothing else does.

Main statements:
* `Group.literal?_iff_isLiteral` and `Group.load?_iff_isLoad`: what is looked for in the code of a
  group;
* `Prologue.ofGroups_eq`: what the groups of a prologue and those behind it make up;
* `Program.parse_eq_ok_iff`: the account for a whole source, with directives or without.
-/

namespace Preload

/-! ## The code of a group -/

namespace Group

/-- Whether code is some tokens, perhaps with a semicolon behind them. -/
def IsUpToSemicolon (core code : List Token) : Prop :=
  code = core ∨ ∃ t, t.kind = .semicolon ∧ code = core ++ [t]

/-- Whether a group holds nothing but comments. -/
def IsCommentary (g : Group) : Prop :=
  ∀ t ∈ g.tokens, t.isComment = true

/-- Whether a group is a string literal, comments and a last semicolon aside. -/
def IsLiteral (g : Group) (literal : List Char) : Prop :=
  ∃ t, t.kind = .string ∧ t.text = literal ∧ IsUpToSemicolon [t] g.code

/-- Whether a group loads the module that a literal names, comments and a last semicolon aside. -/
inductive IsLoad (g : Group) : ImportStyle → List Char → Prop
  | requireCall {word opener string closer : Token} (hword : word.kind = .keyword .requireCall)
      (hopener : opener.kind = .opening .round) (hstring : string.kind = .string)
      (hcloser : closer.kind = .closing .round)
      (hcode : IsUpToSemicolon [word, opener, string, closer] g.code) :
      IsLoad g .requireCall string.text
  | importDecl {word string : Token} (hword : word.kind = .keyword .importDecl)
      (hstring : string.kind = .string) (hcode : IsUpToSemicolon [word, string] g.code) :
      IsLoad g .importDecl string.text

theorem isEmpty_code_iff {g : Group} : g.code.isEmpty = true ↔ g.IsCommentary := by
  -- no token of the group is code
  rw [List.isEmpty_iff, code, List.filter_eq_nil_iff, IsCommentary]
  simp

/-- The core of a group is its code up to a last semicolon. -/
theorem core_eq_iff {g : Group} {core : List Token} (h : ∀ t ∈ core.getLast?, t.kind ≠ .semicolon) :
    g.core = core ↔ IsUpToSemicolon core g.code := by
  unfold Group.core IsUpToSemicolon
  split
  · next hlast =>
    -- the code ends in a semicolon, which the core leaves out
    obtain ⟨t, ht, hkind⟩ := Option.map_eq_some_iff.1 hlast
    obtain ⟨us, hus⟩ := List.getLast?_eq_some_iff.1 ht
    rw [hus, List.dropLast_concat]
    constructor
    · rintro rfl
      exact .inr ⟨t, hkind, rfl⟩
    · rintro (rfl | ⟨u, -, hcode⟩)
      · -- the core may not end in a semicolon, but all of the code would
        exact absurd hkind (h t (by simp))
      · exact (List.append_inj' hcode rfl).1
  · next hlast =>
    constructor
    · exact .inl
    · -- the code ends in no semicolon, so it is the core
      rintro (hcode | ⟨t, hkind, hcode⟩)
      · exact hcode
      · refine absurd ?_ hlast
        rw [hcode, List.getLast?_concat, Option.map_some, hkind]

theorem literal?_iff_isLiteral {g : Group} {literal : List Char} :
    g.literal? = some literal ↔ g.IsLiteral literal := by
  rw [literal?_eq_some_iff, words, List.map_eq_singleton_iff, IsLiteral]
  constructor
  · -- the one word of the core is the string
    rintro ⟨t, hcore, hword⟩
    obtain ⟨hkind, htext⟩ := Prod.mk.inj hword
    exact ⟨t, hkind, htext, (core_eq_iff (by simp [hkind])).1 hcore⟩
  · rintro ⟨t, hkind, rfl, hcode⟩
    exact ⟨t, (core_eq_iff (by simp [hkind])).2 hcode, by rw [hkind]⟩

theorem load?_iff_isLoad {g : Group} {style : ImportStyle} {literal : List Char} :
    g.load? = some (style, literal) ↔ g.IsLoad style literal := by
  constructor
  · intro h
    cases style with
    | requireCall =>
      obtain ⟨_, _, _, hwords⟩ := load?_eq_some_requireCall_iff.1 h
      -- the words are taken apart one by one, and each gives its token
      simp only [words, List.map_eq_cons_iff, List.map_eq_nil_iff, Prod.mk.injEq] at hwords
      obtain ⟨word, _, hcore, ⟨hword, -⟩, opener, _, rfl, ⟨hopener, -⟩, string, _, rfl,
        ⟨hstring, rfl⟩, closer, _, rfl, ⟨hcloser, -⟩, rfl⟩ := hwords
      exact .requireCall hword hopener hstring hcloser ((core_eq_iff (by simp [hcloser])).1 hcore)
    | importDecl =>
      obtain ⟨_, hwords⟩ := load?_eq_some_importDecl_iff.1 h
      simp only [words, List.map_eq_cons_iff, List.map_eq_nil_iff, Prod.mk.injEq] at hwords
      obtain ⟨word, _, hcore, ⟨hword, -⟩, string, _, rfl, ⟨hstring, rfl⟩, rfl⟩ := hwords
      exact .importDecl hword hstring ((core_eq_iff (by simp [hstring])).1 hcore)
  · intro h
    cases h with
    | @requireCall word opener string closer hword hopener hstring hcloser hcode =>
      -- the core ends in a bracket or a string, so a semicolon behind it is not part of it
      have hcore := (core_eq_iff (by simp [hcloser])).2 hcode
      refine load?_eq_some_requireCall_iff.2 ⟨word.text, opener.text, closer.text, ?_⟩
      rw [words, hcore]
      simp [hword, hopener, hstring, hcloser]
    | @importDecl word string hword hstring hcode =>
      have hcore := (core_eq_iff (by simp [hstring])).2 hcode
      refine load?_eq_some_importDecl_iff.2 ⟨word.text, ?_⟩
      rw [words, hcore]
      simp [hword, hstring]

end Group

/-! ## Directives and statements -/

/-- Whether a directive is made of a group and the comments in front of it. -/
structure Directive.IsOf (d : Directive) (comments : List Group) (g : Group) : Prop where
  isLiteral : g.IsLiteral d.value.toList
  span : d.span = g.span
  raw : d.raw = some g.source
  leadingComments : d.leadingComments = comments.map Group.source

/-- Whether a statement is made of a group. -/
structure Statement.IsOf (s : Statement) (g : Group) : Prop where
  load : ∀ style specifier, s.kind = .load style specifier ↔
    ∃ literal, g.IsLoad style literal ∧ specifier = unquote (String.ofList literal)
  other : ∀ text, s.kind = .other text ↔
    (∀ style literal, ¬g.IsLoad style literal) ∧ text = g.source
  raw : ∀ text, s.raw = some text ↔ (∃ style literal, g.IsLoad style literal) ∧ text = g.source
  span : s.span = g.span
  hoist : s.hoist = .standard

theorem Directive.isOf_iff {d : Directive} {comments : List Group} {g : Group} :
    d.IsOf comments g ↔ ∃ literal, g.literal? = some literal ∧ d = g.toDirective comments literal := by
  constructor
  · rintro ⟨hliteral, hspan, hraw, hcomments⟩
    -- the fields are those that the group gives
    refine ⟨_, Group.literal?_iff_isLiteral.2 hliteral, ?_⟩
    cases d
    simp only [Group.toDirective, String.ofList_toList] at *
    simp [hspan, hraw, hcomments]
  · rintro ⟨literal, hliteral, rfl⟩
    refine ⟨?_, rfl, rfl, rfl⟩
    rw [Group.toDirective, String.toList_ofList]
    exact Group.literal?_iff_isLiteral.1 hliteral

theorem Statement.isOf_toStatement (g : Group) : g.toStatement.IsOf g := by
  unfold Group.toStatement
  cases hload : g.load? with
  | none =>
    -- no form of loading applies, so the group is kept as text
    have hnot : ∀ style literal, ¬g.IsLoad style literal := by
      intro style literal hisLoad
      rw [Group.load?_iff_isLoad.2 hisLoad] at hload
      cases hload
    exact ⟨by simp [ofKind, hnot], by simp [ofKind, hnot, eq_comm], by simp [ofKind, hnot], rfl, rfl⟩
  | some load =>
    obtain ⟨style, literal⟩ := load
    -- a group loads one module at most
    have hisLoad : ∀ style' literal', g.IsLoad style' literal' ↔ style = style' ∧ literal = literal' := by
      intro style' literal'
      rw [← Group.load?_iff_isLoad, hload, Option.some.injEq, Prod.mk.injEq]
    refine ⟨fun style' specifier => ?_, by simp [hisLoad], by simp [hisLoad, eq_comm], rfl, rfl⟩
    simp [hisLoad, eq_comm]

theorem Statement.isOf_iff {s : Statement} {g : Group} : s.IsOf g ↔ s = g.toStatement := by
  refine ⟨fun h => ?_, ?_⟩
  · -- what is made of a group is told by the same facts
    have hg := isOf_toStatement g
    -- the kind is told by which module is loaded, or by the text
    have hkind : s.kind = g.toStatement.kind := by
      cases hkind : s.kind with
      | load style specifier => exact ((hg.load style specifier).2 ((h.load style specifier).1 hkind)).symm
      | other text => exact ((hg.other text).2 ((h.other text).1 hkind)).symm
    have hraw : s.raw = g.toStatement.raw := by
      ext text
      exact (h.raw text).trans (hg.raw text).symm
    calc s = ⟨s.kind, s.span, s.hoist, s.raw⟩ := rfl
      _ = ⟨g.toStatement.kind, g.toStatement.span, g.toStatement.hoist, g.toStatement.raw⟩ := by
        rw [hkind, hraw, h.span, hg.span, h.hoist, hg.hoist]
      _ = g.toStatement := rfl
  · rintro rfl
    exact isOf_toStatement g

theorem Statement.forall₂_isOf_iff {ss : List Statement} {gs : List Group} :
    List.Forall₂ IsOf ss gs ↔ ss = gs.map Group.toStatement := by
  -- being made of a group is being the statement that it makes
  have hisOf : IsOf = fun s g => s = g.toStatement := by
    funext s g
    exact propext isOf_iff
  rw [hisOf, ← List.forall₂_map_right_iff, List.forall₂_eq_eq_eq]

/-- The statement that a group of comments is. -/
def Group.toRemark (g : Group) : Statement :=
  .ofKind (.other g.source) g.span

theorem Group.IsCommentary.toStatement_eq {g : Group} (h : g.IsCommentary) :
    g.toStatement = g.toRemark := by
  -- comments have no words to load anything with
  have hcode : g.code = [] := List.isEmpty_iff.1 (isEmpty_code_iff.2 h)
  have hload : g.load? = none := by
    rw [load?, words, core, hcode]
    rfl
  rw [toStatement, hload, toRemark]

/-- There is just one directive that a group and comments can be. -/
theorem Directive.IsOf.unique {d d' : Directive} {comments : List Group} {g : Group}
    (h : d.IsOf comments g) (h' : d'.IsOf comments g) : d = d' := by
  -- both are the directive that the group makes
  obtain ⟨literal, hliteral, rfl⟩ := isOf_iff.1 h
  obtain ⟨literal', hliteral', rfl⟩ := isOf_iff.1 h'
  rw [hliteral] at hliteral'
  cases hliteral'
  rfl

/-! ## The prologue -/

/-- Groups taken apart behind the longest front of strings and comments, and this front behind each
string. -/
structure Prologue (gs : List Group) where
  /-- Each string with the comments in front of it. -/
  parts : List (List Group × Group)
  /-- The comments behind the last string. -/
  comments : List Group
  /-- The groups behind the front. -/
  rest : List Group
  eq_append : gs = parts.flatMap (fun part => part.1 ++ [part.2]) ++ (comments ++ rest)
  isCommentary_of_part : ∀ part ∈ parts, ∀ g ∈ part.1, g.IsCommentary
  isLiteral_of_part : ∀ part ∈ parts, ∃ literal, part.2.IsLiteral literal
  isCommentary_of_comments : ∀ g ∈ comments, g.IsCommentary
  head_rest : ∀ g ∈ rest.head?, ¬g.IsCommentary ∧ ∀ literal, ¬g.IsLiteral literal

theorem Group.IsLiteral.not_isCommentary {g : Group} {literal : List Char} (h : g.IsLiteral literal) :
    ¬g.IsCommentary := by
  rw [← isEmpty_code_iff]
  -- a string is code
  obtain ⟨t, -, -, hcode | ⟨u, -, hcode⟩⟩ := h
  · simp [hcode]
  · simp [hcode]

namespace Prologue

/-- All groups can be taken apart like this. -/
theorem exists_prologue (gs : List Group) : Nonempty (Prologue gs) := by
  induction gs with
  | nil => exact ⟨⟨[], [], [], rfl, by simp, by simp, by simp, by simp⟩⟩
  | cons g gs ih =>
    obtain ⟨parts, comments, rest, rfl, hcomments, hliteral, hlast, hhead⟩ := ih
    by_cases hg : g.IsCommentary
    · -- a comment goes to the next string, if there is one
      cases parts with
      | nil =>
        exact ⟨⟨[], g :: comments, rest, rfl, hcomments, hliteral, List.forall_mem_cons.2 ⟨hg, hlast⟩,
          hhead⟩⟩
      | cons part parts =>
        rw [List.forall_mem_cons] at hcomments hliteral
        exact ⟨⟨(g :: part.1, part.2) :: parts, comments, rest, rfl,
          List.forall_mem_cons.2 ⟨List.forall_mem_cons.2 ⟨hg, hcomments.1⟩, hcomments.2⟩,
          List.forall_mem_cons.2 hliteral, hlast, hhead⟩⟩
    · by_cases hg' : ∃ literal, g.IsLiteral literal
      · exact ⟨⟨([], g) :: parts, comments, rest, rfl, List.forall_mem_cons.2 ⟨by simp, hcomments⟩,
          List.forall_mem_cons.2 ⟨hg', hliteral⟩, hlast, hhead⟩⟩
      · -- anything else ends the front
        refine ⟨⟨[], [], _, rfl, by simp, by simp, by simp, ?_⟩⟩
        rintro _ ⟨⟩
        exact ⟨hg, not_exists.1 hg'⟩

/-- What the groups of a prologue and those behind it make up. -/
theorem ofGroups_eq {gs : List Group} (prologue : Prologue gs) :
    List.Forall₂ (fun d part => d.IsOf part.1 part.2) (Program.ofGroups [] gs).directives
        prologue.parts ∧
      (Program.ofGroups [] gs).body =
        prologue.comments.map Group.toRemark ++ prologue.rest.map Group.toStatement := by
  obtain ⟨parts, comments, rest, rfl, hcomments, hliteral, hlast, hhead⟩ := prologue
  have hempty {gs : List Group} (hgs : ∀ g ∈ gs, g.IsCommentary) : ∀ g ∈ gs, g.code.isEmpty = true :=
    fun g hg => Group.isEmpty_code_iff.2 (hgs g hg)
  dsimp only
  induction parts with
  | nil =>
    -- behind the last string the comments wait for nothing, so they open the body
    have hrest : Program.ofGroups comments rest =
        .ofBody ((comments ++ rest).map Group.toStatement) := by
      cases rest with
      | nil => rw [Program.ofGroups, List.append_nil]
      | cons g rest =>
        obtain ⟨hcode, hnot⟩ := hhead g rfl
        -- the first group behind the front is no string
        have hnone : g.literal? = none :=
          Option.eq_none_iff_forall_ne_some.2 fun literal h =>
            hnot literal (Group.literal?_iff_isLiteral.1 h)
        rw [Program.ofGroups, if_neg (mt Group.isEmpty_code_iff.1 hcode), hnone]
    have hremarks : comments.map Group.toStatement = comments.map Group.toRemark :=
      List.map_congr_left fun g hg => (hlast g hg).toStatement_eq
    rw [List.flatMap_nil, List.nil_append, Program.ofGroups_comments (hempty hlast), List.nil_append,
      hrest, List.map_append, hremarks]
    exact ⟨.nil, rfl⟩
  | cons part parts ih =>
    rw [List.forall_mem_cons] at hcomments hliteral
    obtain ⟨literal, hpart⟩ := hliteral.1
    have hsome := Group.literal?_iff_isLiteral.2 hpart
    obtain ⟨hdirectives, hbody⟩ := ih hcomments.2 hliteral.2
    -- the string takes all comments that wait, so the next part starts without any
    rw [List.flatMap_cons, List.append_assoc, List.append_assoc,
      Program.ofGroups_comments (hempty hcomments.1), List.nil_append, List.singleton_append,
      Program.ofGroups, if_neg (mt Group.isEmpty_code_iff.1 hpart.not_isCommentary), hsome]
    exact ⟨.cons (Directive.isOf_iff.2 ⟨literal, hsome, rfl⟩) hdirectives, hbody⟩

end Prologue

/-! ## Whole sources -/

theorem Statement.parseAll_eq_ok_iff {source : String} {ss : List Statement} :
    parseAll source = .ok ss ↔
      ∃ gs, readGroups 0 source.toList = .ok gs ∧ List.Forall₂ IsOf ss gs := by
  constructor
  · intro h
    obtain ⟨gs, hgs, rfl⟩ := exists_of_map_eq_ok h
    -- statements are made of groups one by one
    exact ⟨gs, hgs, forall₂_isOf_iff.2 rfl⟩
  · rintro ⟨gs, hgs, hss⟩
    rw [parseAll, hgs, forall₂_isOf_iff.1 hss]
    rfl

theorem Statement.parse_eq_ok_iff_singleton {source : String} {s : Statement} :
    parse source = .ok s ↔ parseAll source = .ok [s] := by
  unfold parse
  split
  · next h => simp [h]
  · next h => simp [h]
  · -- of more statements than one, or of none, there is no single one
    next ss hss h =>
    rw [h, Except.ok.injEq]
    exact ⟨nofun, fun heq => absurd heq (hss s)⟩

namespace Program

/-- A program is made of groups as the prologue says. -/
theorem eq_ofParts_iff {p : Program} {gs : List Group} :
    p = ofParts p.shebang gs ↔ ∃ prologue : Prologue gs,
      List.Forall₂ (fun d part => d.IsOf part.1 part.2) p.directives prologue.parts ∧
        ∃ statements, p.body = prologue.comments.map Group.toRemark ++ statements ∧
          List.Forall₂ Statement.IsOf statements prologue.rest := by
  constructor
  · intro hp
    obtain ⟨prologue⟩ := Prologue.exists_prologue gs
    obtain ⟨hdirectives, hbody⟩ := prologue.ofGroups_eq
    rw [hp]
    exact ⟨prologue, hdirectives, _, hbody, Statement.forall₂_isOf_iff.2 rfl⟩
  · rintro ⟨prologue, hdirectives, statements, hbody, hstatements⟩
    obtain ⟨hdirectives', hbody'⟩ := prologue.ofGroups_eq
    -- each directive is known by its part, so there is no choice among them
    have hunique : p.directives = (ofGroups [] gs).directives :=
      List.left_unique_forall₂' (fun _ _ _ h h' => h.unique h') hdirectives hdirectives'
    have hsame : p.body = (ofGroups [] gs).body := by
      rw [hbody, hbody', Statement.forall₂_isOf_iff.1 hstatements]
    calc p = ⟨p.shebang, p.directives, p.body⟩ := rfl
      _ = ofParts p.shebang gs := by rw [hunique, hsame, ofParts]

/-- What a source is read as. The directives are the strings of the prologue with the comments in
front of each; the body starts with the comments behind the last directive, and all groups behind
the prologue follow. Statements read on their own know no prologue: a string is a statement like any
other. -/
theorem parse_eq_ok_iff (source : String) :
    (∀ p, parse source = .ok p ↔
      ∃ line rest gs, source.toList = line ++ rest ∧ IsShebangLine line rest p.shebang ∧
        (p.shebang = none → ¬['#', '!'] <+: rest) ∧ readGroups (byteLength line) rest = .ok gs ∧
        ∃ prologue : Prologue gs,
          List.Forall₂ (fun d part => d.IsOf part.1 part.2) p.directives prologue.parts ∧
            ∃ statements, p.body = prologue.comments.map Group.toRemark ++ statements ∧
              List.Forall₂ Statement.IsOf statements prologue.rest) ∧
      (∀ ss, Statement.parseAll source = .ok ss ↔
        ∃ gs, readGroups 0 source.toList = .ok gs ∧ List.Forall₂ Statement.IsOf ss gs) ∧
      ∀ s, Statement.parse source = .ok s ↔
        ∃ g, readGroups 0 source.toList = .ok [g] ∧ s.IsOf g := by
  refine ⟨fun p => ⟨fun hp => ?_, ?_⟩, fun ss => Statement.parseAll_eq_ok_iff, fun s => ?_⟩
  · obtain ⟨line, rest, shebang, hsource, hline, hmarker, hparse⟩ := exists_parse_eq source
    rw [hparse] at hp
    obtain ⟨gs, hgs, rfl⟩ := exists_of_map_eq_ok hp
    -- the parts of the source are those of the shebang line and the groups
    exact ⟨line, rest, gs, hsource, hline, hmarker, hgs, eq_ofParts_iff.1 rfl⟩
  · rintro ⟨line, rest, gs, hsource, hline, hmarker, hgs, hp⟩
    -- read with this line in front, the rest gives these groups
    have hparse := parse_append hline hmarker
    rw [← hsource, String.ofList_toList, hgs] at hparse
    rw [hparse, eq_ofParts_iff.2 hp]
    rfl
  · rw [Statement.parse_eq_ok_iff_singleton, Statement.parseAll_eq_ok_iff]
    constructor
    · -- one statement is one group
      rintro ⟨_, hgs, _ | ⟨hs, _ | _⟩⟩
      exact ⟨_, hgs, hs⟩
    · rintro ⟨g, hg, hs⟩
      exact ⟨[g], hg, .cons hs .nil⟩

-- the comment behind the last directive and the string behind the first statement go to the body
example :
    parse "// a\n'use strict'; /* b */\n/* c */\n\"x\" // d\n// e\nrequire('./y')\n'z'" = .ok
      { shebang := none
        directives := [⟨"'use strict'", ⟨5, 26⟩, some "'use strict'; /* b */", ["// a"]⟩,
          ⟨"\"x\"", ⟨35, 43⟩, some "\"x\" // d", ["/* c */"]⟩]
        body := [.ofKind (.other "// e") ⟨44, 48⟩,
          ⟨.load .requireCall "./y", ⟨49, 63⟩, .standard, some "require('./y')"⟩,
          .ofKind (.other "'z'") ⟨64, 67⟩] } := by
  decide +kernel

end Program

end Preload
