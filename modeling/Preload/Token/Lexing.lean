import Preload.Token.Lexeme
/-!
# Lexing a source

`lex` cuts a text into tokens. It stops at the first literal or comment that is never closed and
reports where that one opens. Whether a slash opens a regex literal depends on the last token that
is neither comment nor line break: it does where an operand may begin.
-/

namespace Preload

/-- What lexing a text gives. -/
structure Lexing where
  /-- The tokens up to the end of the text or the first error. -/
  tokens : List Token
  /-- The position of the literal or comment that is never closed, if there is one. -/
  errorAt : Option Nat
  deriving DecidableEq, Repr, Inhabited

/-- Whether a slash after a token of this kind and text opens a regex literal. -/
def Token.Kind.allowsRegex (kind : Token.Kind) (text : List Char) : Bool :=
  match kind with
  | .ident => operatorWords.contains (String.ofList text)
  | .keyword _ | .number | .string | .template | .regex | .closing .round | .closing .square => false
  | _ => true

/-- Whether a regex literal may stand after a token; comments and line breaks change nothing. -/
def Token.Kind.regexAfter (before : Bool) (kind : Token.Kind) (text : List Char) : Bool :=
  if kind.isTrivia then before else kind.allowsRegex text

/-- The tokens of `cs`, which stands at position `pos`, where `regexAllowed` says whether a slash
opens a regex literal. -/
def lexFrom (pos : Nat) (regexAllowed : Bool) (cs : List Char) : Lexing :=
  let gap := cs.takeWhile isBlank
  let start := pos + byteLength gap
  match _hcode : cs.dropWhile isBlank with
  | [] => ⟨[], none⟩
  | c :: code =>
    match _hfirst : Lexeme.first? regexAllowed (c :: code) with
    | none => ⟨[], some start⟩
    | some l =>
      let token : Token := ⟨gap, l.kind, l.text, start⟩
      let later := lexFrom token.stop (l.kind.regexAfter regexAllowed l.text) l.rest
      ⟨token :: later.tokens, later.errorAt⟩
termination_by cs.length
decreasing_by
  have hrest := Lexeme.length_rest_lt _hfirst
  have hcs := congrArg List.length (Split.joined_run isBlank cs)
  rw [← _hcode] at hrest
  simp only [Split.joined, Split.run, List.length_append] at hcs
  omega

/-- The tokens of a text that stands at position `pos`. A regex literal may open it. -/
def lex (pos : Nat) (cs : List Char) : Lexing :=
  lexFrom pos true cs

end Preload
