import Preload.Text.Split
import Preload.Token
/-!
# Lexemes

The rules that say what text a token may have, and `Lexeme.first?`, which takes the longest one off
the front of a text. Each rule splits its text in two: what it takes, and what is left.

Main statements:
* `Lexeme.text_append_rest`: what is taken and what is left make up the text;
* `Lexeme.text_ne_nil`: something is taken.
-/

namespace Preload

/-! ## Classes of characters -/

/-- Blanks separate tokens and belong to none. A line feed is no blank: it is a token. -/
def isBlank (c : Char) : Bool :=
  c == ' ' || c == '\t' || c == '\r' || c == '\x0c'

/-- Characters that may open a word. -/
def isWordStart (c : Char) : Bool :=
  c.isAlpha || c == '_' || c == '$'

/-- Characters that may stand in a word, and in the flags of a regex literal. -/
def isWordPart (c : Char) : Bool :=
  c.isAlphanum || c == '_' || c == '$'

/-- Characters that may follow the first digit of a number. -/
def isNumberPart (c : Char) : Bool :=
  c.isAlphanum || c == '_' || c == '.'

/-- Quotes and the other characters that are tokens by themselves or open a literal. -/
def isDelimiter (c : Char) : Bool :=
  c == '\n' || c == ';' || c == '/' || c == '\'' || c == '"' || c == '\x60' ||
    (Bracket.ofOpener? c).isSome || (Bracket.ofCloser? c).isSome

/-- Characters of operators: all that no other rule takes. -/
def isPunct (c : Char) : Bool :=
  !(isBlank c || isDelimiter c || isWordPart c)

/-- Words after which a slash opens a regex literal, though other words end an operand. -/
def operatorWords : List String :=
  ["await", "case", "delete", "do", "else", "in", "instanceof", "new", "of", "return", "throw",
    "typeof", "void", "yield"]

/-! ## Literals and comments -/

/-- The rest of a literal up to and including its closing `quote`. A backslash takes the next
character with it. With `oneLine` no line feed may stand in the literal. -/
def literalTail? (quote : Char) (oneLine : Bool) : List Char → Option Split
  | [] => none
  | ['\\'] => none
  | '\\' :: c :: cs =>
    if oneLine && c == '\n' then none else (literalTail? quote oneLine cs).map (·.push ['\\', c])
  | c :: cs =>
    if c = quote then some ⟨[c], cs⟩
    else if oneLine && c == '\n' then none
    else (literalTail? quote oneLine cs).map (·.push [c])

/-- The rest of a block comment up to and including the first `*/`. -/
def commentTail? : List Char → Option Split
  | '*' :: '/' :: cs => some ⟨['*', '/'], cs⟩
  | [] => none
  | c :: cs => (commentTail? cs).map (·.push [c])

/-- The rest of a regex literal up to and including its closing slash. Inside a class, which `[`
opens and `]` closes, a slash does not close the literal. No line feed may stand in it. -/
def regexTail? (inClass : Bool) : List Char → Option Split
  | [] => none
  | ['\\'] => none
  | '\\' :: c :: cs =>
    if c = '\n' then none else (regexTail? inClass cs).map (·.push ['\\', c])
  | c :: cs =>
    if c = '\n' then none
    else if c = '/' ∧ inClass = false then some ⟨[c], cs⟩
    else
      (regexTail? (if c = '[' then true else if c = ']' then false else inClass) cs).map (·.push [c])

/-- The rest of a regex literal after its opening slash, with its flags. -/
def regexLiteralTail? (cs : List Char) : Option Split :=
  (regexTail? false cs).map fun s => (Split.run isWordPart s.rest).push s.taken

/-- Nothing of a literal is lost. -/
theorem literalTail?_joined {quote : Char} {oneLine : Bool} {cs : List Char} {s : Split}
    (h : literalTail? quote oneLine cs = some s) : s.joined = cs := by
  fun_induction literalTail? quote oneLine cs generalizing s <;>
    grind [Option.map_eq_some_iff, Split.joined_push, Split.joined_mk]

/-- Nothing of a comment is lost. -/
theorem commentTail?_joined {cs : List Char} {s : Split} (h : commentTail? cs = some s) :
    s.joined = cs := by
  fun_induction commentTail? cs generalizing s <;>
    grind [Option.map_eq_some_iff, Split.joined_push, Split.joined_mk]

/-- Nothing of a regex body is lost. -/
theorem regexTail?_joined {inClass : Bool} {cs : List Char} {s : Split}
    (h : regexTail? inClass cs = some s) : s.joined = cs := by
  fun_induction regexTail? inClass cs generalizing s <;>
    grind [Option.map_eq_some_iff, Split.joined_push, Split.joined_mk]

/-- Nothing of a regex literal is lost. -/
theorem regexLiteralTail?_joined {cs : List Char} {s : Split}
    (h : regexLiteralTail? cs = some s) : s.joined = cs := by
  obtain ⟨b, hb, rfl⟩ := Option.map_eq_some_iff.1 h
  rw [Split.joined_push, Split.joined_run]
  exact regexTail?_joined hb

/-! ## The longest lexeme -/

/-- A lexeme at the front of a text. -/
structure Lexeme where
  kind : Token.Kind
  text : List Char
  /-- What follows the lexeme. -/
  rest : List Char
  deriving DecidableEq, Repr, Inhabited

namespace Lexeme

/-- The lexeme that opens with `c` and goes on with the first part of a split. -/
def ofSplit (kind : Token.Kind) (c : Char) (s : Split) : Lexeme :=
  ⟨kind, c :: s.taken, s.rest⟩

/-- The kind of a whole word. -/
def wordKind (word : List Char) : Token.Kind :=
  match ImportStyle.ofKeyword? (String.ofList word) with
  | some style => .keyword style
  | none => .ident

/-- What a slash opens: a comment, a regex literal where one may stand, or a division. -/
def slash? (regexAllowed : Bool) : List Char → Option Lexeme
  | '/' :: cs => some (ofSplit .lineComment '/' ((Split.run (· != '\n') cs).push ['/']))
  | '*' :: cs => (commentTail? cs).map fun s => ofSplit .blockComment '/' (s.push ['*'])
  | cs =>
    if regexAllowed then (regexLiteralTail? cs).map (ofSplit .regex '/')
    else some (ofSplit .slash '/' ⟨[], cs⟩)

/-- The longest lexeme at the front of a text that opens with no blank, or `none` at the end and at
a literal or comment that is never closed. -/
def first? (regexAllowed : Bool) : List Char → Option Lexeme
  | [] => none
  | c :: cs =>
    if c = '\n' then some (ofSplit .newline c ⟨[], cs⟩)
    else if c = ';' then some (ofSplit .semicolon c ⟨[], cs⟩)
    else if c = '/' then slash? regexAllowed cs
    else if c = '\'' ∨ c = '"' then (literalTail? c true cs).map (ofSplit .string c)
    else if c = '\x60' then (literalTail? c false cs).map (ofSplit .template c)
    else if isWordStart c then
      let s := Split.run isWordPart cs
      some (ofSplit (wordKind (c :: s.taken)) c s)
    else if c.isDigit then some (ofSplit .number c (Split.run isNumberPart cs))
    else
      match Bracket.ofOpener? c, Bracket.ofCloser? c with
      | some bracket, _ => some (ofSplit (.opening bracket) c ⟨[], cs⟩)
      | none, some bracket => some (ofSplit (.closing bracket) c ⟨[], cs⟩)
      | none, none => some (ofSplit .punct c (Split.run isPunct cs))

/-- Whether a lexeme opens with `c` and, with what follows it, makes up `c :: cs`. -/
def Heads (c : Char) (cs : List Char) (l : Lexeme) : Prop :=
  ∃ taken, l.text = c :: taken ∧ taken ++ l.rest = cs

theorem heads_ofSplit {kind : Token.Kind} {c : Char} {cs : List Char} {s : Split}
    (h : s.joined = cs) : (ofSplit kind c s).Heads c cs :=
  ⟨s.taken, rfl, h⟩

theorem heads_of_slash? {regexAllowed : Bool} {cs : List Char} {l : Lexeme}
    (h : slash? regexAllowed cs = some l) : l.Heads '/' cs := by
  unfold slash? at h
  split at h
  · cases h
    exact heads_ofSplit (by simp)
  · obtain ⟨s, hs, rfl⟩ := Option.map_eq_some_iff.1 h
    exact heads_ofSplit (by simp [commentTail?_joined hs])
  · split at h
    · obtain ⟨s, hs, rfl⟩ := Option.map_eq_some_iff.1 h
      exact heads_ofSplit (regexLiteralTail?_joined hs)
    · cases h
      exact heads_ofSplit rfl

theorem heads_of_first? {regexAllowed : Bool} {c : Char} {cs : List Char} {l : Lexeme}
    (h : first? regexAllowed (c :: cs) = some l) : l.Heads c cs := by
  rw [first?] at h
  split at h
  · cases h; exact heads_ofSplit rfl
  split at h
  · cases h; exact heads_ofSplit rfl
  split at h
  · next hc => subst hc; exact heads_of_slash? h
  split at h
  · obtain ⟨s, hs, rfl⟩ := Option.map_eq_some_iff.1 h
    exact heads_ofSplit (literalTail?_joined hs)
  split at h
  · obtain ⟨s, hs, rfl⟩ := Option.map_eq_some_iff.1 h
    exact heads_ofSplit (literalTail?_joined hs)
  split at h
  · cases h; exact heads_ofSplit (Split.joined_run _ _)
  split at h
  · cases h; exact heads_ofSplit (Split.joined_run _ _)
  split at h
  · cases h; exact heads_ofSplit rfl
  · cases h; exact heads_ofSplit rfl
  · cases h; exact heads_ofSplit (Split.joined_run _ _)

/-- A lexeme and what follows it make up the text. -/
theorem text_append_rest {regexAllowed : Bool} {cs : List Char} {l : Lexeme}
    (h : first? regexAllowed cs = some l) : l.text ++ l.rest = cs := by
  cases cs with
  | nil => simp [first?] at h
  | cons c cs =>
    obtain ⟨taken, htext, hcs⟩ := heads_of_first? h
    rw [htext, List.cons_append, hcs]

/-- A lexeme is never empty. -/
theorem text_ne_nil {regexAllowed : Bool} {cs : List Char} {l : Lexeme}
    (h : first? regexAllowed cs = some l) : l.text ≠ [] := by
  cases cs with
  | nil => simp [first?] at h
  | cons c cs =>
    obtain ⟨taken, htext, -⟩ := heads_of_first? h
    simp [htext]

/-- Less text is left after a lexeme. -/
theorem length_rest_lt {regexAllowed : Bool} {cs : List Char} {l : Lexeme}
    (h : first? regexAllowed cs = some l) : l.rest.length < cs.length := by
  have hlen := congrArg List.length (text_append_rest h)
  have hpos := List.length_pos_iff.2 (text_ne_nil h)
  simp only [List.length_append] at hlen
  omega

end Lexeme

end Preload
