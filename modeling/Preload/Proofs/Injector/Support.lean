import Preload.Injector
import Preload.Proofs.Program.Prologue
import Preload.Proofs.Text.Quoted

/-!
# The statement that loads the support module

The code for it is read as one group of known tokens (`Group.load`), unless the specifier holds a
line feed, which no literal may.

Main statements:
* `exists_parse_render`: the code for a specifier without a line feed is the statement that loads
  it;
* `Injector.supportStatement_of_no_newline` and `Injector.supportStatement_of_newline`: what the
  code is read as;
* `Injector.supportStatement_outcome`: the statement for any specifier, and its text read again;
* `Group.standsAlone_closed_load`: with a semicolon behind it, it is read on a line of its own.
-/

namespace Preload

namespace Token

/-- A semicolon from no source. -/
def semicolon : Token :=
  ⟨[], .semicolon, [';'], 0⟩

/-- The keyword of a style. -/
def keyword (style : ImportStyle) : Token :=
  ⟨[], .keyword style, style.keyword.toList, 0⟩

/-- The literal for a specifier behind some blanks. -/
def literal (gap : List Char) (specifier : String) : Token :=
  ⟨gap, .string, (quote specifier).toList, 0⟩

end Token

/-- What the code that loads a module is read as, up to places. -/
def Group.load (style : ImportStyle) (specifier : String) : Group :=
  match style with
  | .requireCall =>
    ⟨.keyword .requireCall,
      [⟨[], .opening .round, ['('], 0⟩, .literal [] specifier, ⟨[], .closing .round, [')'], 0⟩]⟩
  | .importDecl => ⟨.keyword .importDecl, [.literal [' '] specifier]⟩

/-- The group with a semicolon behind it. -/
def Group.closed (g : Group) : Group :=
  ⟨g.first, g.rest ++ [.semicolon]⟩

namespace ImportStyle

/-- The position of the quote that opens the literal for a specifier. -/
def quoteAt : ImportStyle → Nat
  | requireCall => 8
  | importDecl => 7

theorem quoteAt_eq (style : ImportStyle) : style.quoteAt = byteLength style.keyword.toList + 1 := by
  cases style <;> rfl

/-- The first quote of the code stands where `quoteAt` says. -/
theorem exists_quote (style : ImportStyle) (specifier : String) :
    ∃ front rest, (style.render specifier).toList = front ++ '\'' :: rest ∧ '\'' ∉ front ∧
      byteLength front = style.quoteAt := by
  cases style with
  | requireCall =>
    -- in front of the literal there is no other quote
    refine ⟨"require(".toList, Quoted.escape specifier.toList ++ ['\'', ')'], ?_, by decide, rfl⟩
    simp [render, toList_quote]
  | importDecl =>
    refine ⟨"import ".toList, Quoted.escape specifier.toList ++ ['\''], ?_, by decide, rfl⟩
    simp [render, toList_quote]

end ImportStyle

namespace Group

theorem text_load (style : ImportStyle) (specifier : String) :
    (load style specifier).text = (style.render specifier).toList := by
  cases style <;>
    simp [load, text, ImportStyle.render, Token.keyword, Token.literal, ImportStyle.keyword]

/-- The code for a specifier without a line feed is one line. -/
theorem newline_not_mem_render {specifier : String} (h : '\n' ∉ specifier.toList)
    (style : ImportStyle) : '\n' ∉ (style.render specifier).toList := by
  -- escaping brings in no line break and takes none away
  have hescape : '\n' ∉ Quoted.escape specifier.toList := mt Quoted.newline_mem_escape.1 h
  cases style <;> simp [ImportStyle.render, toList_quote, hescape]

theorem text_closed (g : Group) : g.closed.text = g.text ++ [';'] := by
  simp [closed, text, Token.semicolon]

theorem load?_load (style : ImportStyle) (specifier : String) :
    (load style specifier).load? = some (style, (quote specifier).toList) := by
  -- three words of the call, or one of the declaration, stand for the module
  cases style <;>
    simp [load, load?, words, core, code, tokens, Token.isComment, Token.Kind.isComment,
      Token.keyword, Token.literal]

theorem words_closed_load (style : ImportStyle) (specifier : String) :
    (load style specifier).closed.words = (load style specifier).words := by
  -- the core leaves the semicolon out
  cases style <;>
    simp [load, closed, words, core, code, tokens, Token.isComment, Token.Kind.isComment,
      Token.keyword, Token.literal, Token.semicolon]

theorem load?_closed_load (style : ImportStyle) (specifier : String) :
    (load style specifier).closed.load? = some (style, (quote specifier).toList) := by
  rw [load?, words_closed_load]
  exact load?_load style specifier

theorem source_closed_load (style : ImportStyle) (specifier : String) :
    (load style specifier).closed.source = style.render specifier ++ ";" := by
  rw [source, text_closed, text_load, String.ofList_append, String.ofList_toList]

theorem code_closed_load (style : ImportStyle) (specifier : String) :
    ¬(load style specifier).closed.code.isEmpty := by
  cases style <;> simp [load, closed, code, tokens, Token.isComment, Token.Kind.isComment,
    Token.keyword]

/-- A group that loads a module is no string. -/
theorem literal?_of_load? {g : Group} {style : ImportStyle} {literal : List Char}
    (h : g.load? = some (style, literal)) : g.literal? = none := by
  unfold load? at h
  unfold literal?
  -- the words of neither form are a single string
  split at h
  · next hwords => rw [hwords]
  · next hwords => rw [hwords]
  · cases h

/-- The statement that a group for a module is. -/
theorem toStatement_of_load? {g : Group} {style : ImportStyle} {specifier : String}
    (h : g.load? = some (style, (quote specifier).toList)) :
    g.toStatement = ⟨.load style specifier, g.span, .standard, some g.source⟩ := by
  rw [toStatement, h]
  simp only [String.ofList_toList, unquote_quote]

end Group

/-! ## Reading the code -/

namespace Token

theorem readable_keyword (style : ImportStyle) {ts : List Token} (hts : Readable false ts)
    (hends : ∀ c ∈ (spelling ts).head?, isWordPart c = false) (before : Bool) :
    Readable before (keyword style :: ts) := by
  -- the word goes on as far as it can, and this is where it ends
  have hfirst : Lexeme.first? before style.keyword.toList =
      some ⟨.keyword style, style.keyword.toList, []⟩ := by
    cases style <;> cases before <;> rfl
  have hhead : ∀ c ∈ style.keyword.toList.head?, isBlank c = false := by
    intro c hc
    cases style <;> cases hc <;> rfl
  refine .cons (by simp [keyword]) hhead ?_ hts
  -- what follows prolongs no word, so the keyword is read as before
  refine Lexeme.first?_append hfirst fun c hc => ?_
  show (!isWordPart c) = true
  rw [hends c hc]
  rfl

theorem readable_literal {gap : List Char} (hgap : ∀ c ∈ gap, isBlank c = true)
    {specifier : String} (h : '\n' ∉ specifier.toList) {ts : List Token} (hts : Readable false ts)
    (before : Bool) : Readable before (literal gap specifier :: ts) := by
  refine .cons hgap (by simp [literal, toList_quote, isBlank]) ?_ hts
  -- without a line feed the literal is closed by its own quote
  have htail := Quoted.literalTail?_escape h (spelling ts)
  rw [literal, toList_quote]
  simp [Lexeme.first?, htail, Lexeme.ofSplit]

end Token

namespace Group

/-- The tokens for a module are readable in front of any that may follow an operand. -/
theorem readable_load {specifier : String} (h : '\n' ∉ specifier.toList) (style : ImportStyle)
    {ts : List Token} (hts : Token.Readable false ts) (before : Bool) :
    Token.Readable before ((load style specifier).tokens ++ ts) := by
  cases style with
  | requireCall =>
    -- the tokens are put in front one by one, from the last one on
    have hclose : Token.Readable false (⟨[], .closing .round, [')'], 0⟩ :: ts) :=
      .cons (by simp) (by simp [isBlank]) rfl hts
    have hliteral : Token.Readable true (.literal [] specifier :: _) :=
      Token.readable_literal (by simp) h hclose true
    have hopen : Token.Readable false (⟨[], .opening .round, ['('], 0⟩ :: _) :=
      .cons (by simp) (by simp [isBlank]) rfl hliteral
    exact Token.readable_keyword .requireCall hopen (by rintro c ⟨⟩; rfl) before
  | importDecl =>
    have hgap : ∀ c ∈ [' '], isBlank c = true := by simp [isBlank]
    have hliteral := Token.readable_literal hgap h hts false
    exact Token.readable_keyword .importDecl hliteral (by rintro c ⟨⟩; rfl) before

/-- With a semicolon behind it, the code for a module may stand on a line between any others. -/
theorem standsAlone_closed_load {specifier : String} (h : '\n' ∉ specifier.toList)
    (style : ImportStyle) : (load style specifier).closed.StandsAlone := by
  have hlast : Token.Readable false [.semicolon, .lineFeed] :=
    .cons (by simp [Token.semicolon]) (by simp [Token.semicolon, isBlank]) rfl (.lineFeed_cons .nil)
  -- readable, at the end of an operand, nested, whole, and closed by the semicolon
  refine ⟨fun before => ?_, fun before => ?_, fun kinds => ?_, ?_, ?_⟩
  · -- the line is the code with a semicolon and a line break
    have hlines : lines [(load style specifier).closed] =
        (load style specifier).tokens ++ [.semicolon, .lineFeed] := by
      cases style <;> rfl
    rw [hlines]
    exact readable_load h style hlast before
  · -- the last token of code is the semicolon, behind which a regex literal may stand
    have hlast : Token.lastCode? (lines [(load style specifier).closed]) = some .semicolon := by
      cases style <;> rfl
    rw [Token.regexAfter_eq, hlast]
    rfl
  · cases style <;> rfl
  · cases style <;> exact ⟨rfl, rfl⟩
  · cases style <;> rfl

/-- Tokens whose one group loads a module are read as the statement it is. -/
theorem exists_parse_spelling {ts : List Token} {g : Group} (hreadable : Token.Readable true ts)
    (hnested : nested [] (ts.map (·.kind))) (hsplit : split ts = [g.flush]) {style : ImportStyle}
    {specifier : String} (hload : g.load? = some (style, (quote specifier).toList)) :
    ∃ span, Statement.parse (String.ofList (Token.spelling ts)) =
      .ok ⟨.load style specifier, span, .standard, some g.source⟩ := by
  have hmap : (split (Token.place 0 ts)).map bare = [g].map bare := map_bare_split_place 0 hsplit
  -- the one group that is read says what `g` says
  obtain ⟨h, hh, hbare⟩ := List.map_eq_singleton_iff.1 hmap
  have hloads : h.load? = some (style, (quote specifier).toList) := by
    rw [← load?_bare, hbare, load?_bare, hload]
  have hsource : h.source = g.source := by
    rw [← source_bare, hbare, source_bare]
  refine ⟨h.span, ?_⟩
  rw [Statement.parse, Statement.parseAll, String.toList_ofList,
    readGroups_spelling hreadable hnested 0, hh, ← hsource, ← toStatement_of_load? hloads]
  rfl

theorem flush_load (style : ImportStyle) (specifier : String) :
    (load style specifier).flush = load style specifier := by
  cases style <;> rfl

end Group

section

variable {specifier : String} (h : '\n' ∉ specifier.toList) (style : ImportStyle)
include h

/-- The code for a specifier without a line feed is read as the statement that loads it. -/
theorem exists_parse_render : ∃ span raw, Statement.parse (style.render specifier) =
    .ok ⟨.load style specifier, span, .standard, raw⟩ := by
  -- nothing follows the code, so any tokens may
  have hreadable := Group.readable_load h style .nil true
  rw [List.append_nil] at hreadable
  have hwhole : (Group.load style specifier).IsWhole := by
    cases style <;> exact ⟨rfl, rfl⟩
  obtain ⟨span, hparse⟩ := Group.exists_parse_spelling hreadable (by cases style <;> rfl)
    (by rw [hwhole.split_tokens, Group.flush_load]) (Group.load?_load style specifier)
  rw [← Group.flush_load, Group.spelling_tokens_flush, Group.text_load, String.ofList_toList]
    at hparse
  exact ⟨span, _, hparse⟩

/-- So is the code with a semicolon behind it. -/
theorem exists_parse_closed : ∃ span raw, Statement.parse (style.render specifier ++ ";") =
    .ok ⟨.load style specifier, span, .standard, raw⟩ := by
  have halone := Group.standsAlone_closed_load h style
  have hflush : (Group.load style specifier).closed.flush = (Group.load style specifier).closed := by
    cases style <;> rfl
  -- a line of its own stays readable without its line break
  have hreadable := halone.readable true
  rw [Group.lines_cons, hflush] at hreadable
  obtain ⟨span, hparse⟩ := Group.exists_parse_spelling hreadable.left_of_append
    (by cases style <;> rfl) (by rw [halone.whole.split_tokens, hflush])
    (Group.load?_closed_load style specifier)
  rw [← hflush, Group.spelling_tokens_flush, ← Group.source, Group.source_closed_load] at hparse
  exact ⟨span, _, hparse⟩

/-- And so is the line that is printed for it. -/
theorem exists_parse_line : ∃ span raw, Statement.parse (style.render specifier ++ ";" ++ "\n") =
    .ok ⟨.load style specifier, span, .standard, raw⟩ := by
  have halone := Group.standsAlone_closed_load h style
  have hnested := halone.nested []
  rw [List.append_nil] at hnested
  -- the semicolon ends the group outside of brackets
  have hseparated : Group.Separated [(Group.load style specifier).closed] := by
    refine ⟨?_, fun hne => absurd rfl hne, trivial⟩
    rw [halone.ends]
  obtain ⟨span, hparse⟩ := Group.exists_parse_spelling (halone.readable true) hnested
    (Group.split_lines (List.forall_mem_singleton.2 halone.whole) hseparated)
    (Group.load?_closed_load style specifier)
  have hspelling : String.ofList (Token.spelling (Group.lines [(Group.load style specifier).closed])) =
      style.render specifier ++ ";" ++ "\n" := by
    rw [Group.spelling_lines_cons, String.ofList_append, ← Group.source, Group.source_closed_load]
    rfl
  rw [hspelling] at hparse
  exact ⟨span, _, hparse⟩

end

/-- The statement for a specifier is a line of its own. -/
theorem Program.render_ofBody_load (style : ImportStyle) (specifier : String) (hoist : Hoist) :
    (Program.ofBody [⟨.load style specifier, .dummy, hoist, none⟩]).render "\n" =
      style.render specifier ++ ";" ++ "\n" := by
  simp [Program.render, Program.lines, Program.ofBody, Program.shebangLines, Statement.text]

namespace Injector

theorem supportStatement_of_no_newline (i : Injector) {specifier : String}
    (h : '\n' ∉ specifier.toList) :
    i.supportStatement specifier =
      .ok ⟨.load i.layout.importStyle specifier, .dummy, .hoisted, none⟩ := by
  obtain ⟨span, raw, hparse⟩ := exists_parse_render h i.layout.importStyle
  -- the statement is taken since it loads the module it was made for
  unfold supportStatement
  simp only [hparse, Statement.specifier?, if_true]

/-- No literal opens where a specifier with a line feed is quoted. -/
theorem first?_quote_of_newline {specifier : String} (h : '\n' ∈ specifier.toList)
    (regexAllowed : Bool) (after : List Char) :
    Lexeme.first? regexAllowed ('\'' :: (Quoted.escape specifier.toList ++ after)) = none := by
  -- the line feed is met before any quote that closes the literal
  simp [Lexeme.first?, Quoted.literalTail?_escape_of_newline h]

/-- Reading the statement for such a specifier ends at the quote. -/
theorem errorAt_lexFrom_render_of_newline {specifier : String} (h : '\n' ∈ specifier.toList)
    (style : ImportStyle) :
    (lexFrom 0 true (style.render specifier).toList).errorAt =
      some (byteLength style.keyword.toList + 1) := by
  have hquote : isBlank '\'' = false := rfl
  -- in front of the literal stand the same tokens as in any other such statement
  have hload : Token.Readable true (Group.load style "").tokens := by
    have hreadable := Group.readable_load (show '\n' ∉ "".toList by decide) style .nil true
    rwa [List.append_nil] at hreadable
  cases style with
  | requireCall =>
    have hfront : Token.Readable true ((Group.load .requireCall "").tokens.take 2) :=
      hload.left_of_append
    -- up to the quote two tokens are read, and no literal opens there
    have herror := errorAt_lexFrom_of_unclosed hfront [] (by rintro t ⟨⟩ c ⟨⟩; rfl)
      (by simp) hquote (first?_quote_of_newline h _ ['\'', ')']) 0
    have htext : (ImportStyle.requireCall.render specifier).toList =
        "require".toList ++ '(' :: '\'' :: (Quoted.escape specifier.toList ++ ['\'', ')']) := by
      simp [ImportStyle.render, toList_quote]
    rw [htext]
    exact herror
  | importDecl =>
    have hfront : Token.Readable true ((Group.load .importDecl "").tokens.take 1) :=
      hload.left_of_append
    -- up to the quote there is the keyword, and a blank in front of the quote
    have herror := errorAt_lexFrom_of_unclosed hfront [' '] (by rintro t ⟨⟩ c ⟨⟩; rfl)
      (by simp [isBlank]) hquote (first?_quote_of_newline h _ ['\'']) 0
    have htext : (ImportStyle.importDecl.render specifier).toList =
        "import".toList ++ ' ' :: '\'' :: (Quoted.escape specifier.toList ++ ['\'']) := by
      simp [ImportStyle.render, toList_quote]
    rw [htext]
    exact herror

theorem parse_render_of_newline {specifier : String} (h : '\n' ∈ specifier.toList)
    (style : ImportStyle) : Statement.parse (style.render specifier) =
      .error (.unclosed (byteLength style.keyword.toList + 1)) := by
  unfold Statement.parse Statement.parseAll readGroups lex
  simp only [errorAt_lexFrom_render_of_newline h style]
  rfl

/-- The literal for a specifier with a line feed is never closed. -/
theorem supportStatement_of_newline (i : Injector) {specifier : String}
    (h : '\n' ∈ specifier.toList) :
    i.supportStatement specifier =
      .error (.template (i.layout.importStyle.render specifier)
        (.parse (.unclosed (byteLength i.layout.importStyle.keyword.toList + 1)))) := by
  unfold supportStatement
  simp only [parse_render_of_newline h]

/-- For a specifier without a line feed the statement is the one that loads it, and its text is read
as the same again. Any other specifier leaves its literal without an end. What the code is read as
never loads another module. -/
theorem supportStatement_outcome (i : Injector) (specifier : String) :
    let style := i.layout.importStyle
    let code := style.render specifier
    unquote (quote specifier) = specifier ∧
      ((∃ s, i.supportStatement specifier = .ok s) ↔ '\n' ∉ specifier.toList) ∧
      (∀ s, i.supportStatement specifier = .ok s →
        s = ⟨.load style specifier, .dummy, .hoisted, none⟩ ∧
          (∃ t, Statement.parse s.text = .ok t ∧ t.kind = s.kind) ∧
          ∃ t, Statement.parse ((Program.ofBody [s]).render "\n") = .ok t ∧ t.kind = s.kind) ∧
      (∀ e, i.supportStatement specifier = .error e →
        e = .template code (.parse (.unclosed style.quoteAt)) ∧
          ∃ front rest, code.toList = front ++ '\'' :: rest ∧ '\'' ∉ front ∧
            byteLength front = style.quoteAt) ∧
      ∀ s, Statement.parse code = .ok s → s.specifier? = some specifier := by
  intro style code
  refine ⟨unquote_quote specifier, ?_⟩
  by_cases hfeed : '\n' ∈ specifier.toList
  · -- the code has no end, so nothing is read from it
    have hstatement := i.supportStatement_of_newline hfeed
    have hparse := parse_render_of_newline hfeed style
    rw [hstatement, ← ImportStyle.quoteAt_eq]
    refine ⟨⟨nofun, fun hnot => absurd hfeed hnot⟩, nofun, ?_, ?_⟩
    · rintro _ ⟨⟩
      exact ⟨rfl, style.exists_quote specifier⟩
    · intro s hs
      rw [hparse] at hs
      cases hs
  · -- the code and both texts of the statement are read as one load of the specifier
    have hstatement := i.supportStatement_of_no_newline hfeed
    obtain ⟨span, raw, hparse⟩ := exists_parse_render hfeed style
    obtain ⟨span', raw', hclosed⟩ := exists_parse_closed hfeed style
    obtain ⟨span'', raw'', hline⟩ := exists_parse_line hfeed style
    rw [hstatement]
    refine ⟨⟨fun _ => hfeed, fun _ => ⟨_, rfl⟩⟩, ?_, nofun, ?_⟩
    · rintro _ ⟨⟩
      rw [Program.render_ofBody_load]
      exact ⟨rfl, ⟨_, hclosed, rfl⟩, _, hline, rfl⟩
    · intro s hs
      rw [hparse] at hs
      cases hs
      rfl

end Injector

end Preload
