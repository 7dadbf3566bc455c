import Preload.ParseError
import Preload.Token
/-!
# Nesting of brackets

`checkNesting` reads the brackets among the tokens against a stack of those still open. The first
one that finds no partner is blamed: for a closing bracket that does not match, the innermost open
one, or the closing bracket itself when none is open; at the end, the innermost one left open.
-/

namespace Preload

/-- A bracket that is still open. -/
structure OpenBracket where
  bracket : Bracket
  pos : Nat
  deriving DecidableEq, Repr, Inhabited

/-- The complaint about a bracket that is never closed, or not by its own partner. -/
def OpenBracket.error (o : OpenBracket) : ParseError :=
  .unbalanced o.bracket.opener o.pos

/-- Whether the brackets among the tokens are nested properly inside those of `stack`, innermost
first. -/
def checkNesting : List OpenBracket → List Token → Except ParseError Unit
  | [], [] => .ok ()
  | o :: _, [] => .error o.error
  | stack, t :: ts =>
    match t.kind, stack with
    | .opening bracket, stack => checkNesting (⟨bracket, t.start⟩ :: stack) ts
    | .closing bracket, o :: stack =>
      if o.bracket = bracket then checkNesting stack ts else .error o.error
    | .closing bracket, [] => .error (.unbalanced bracket.closer t.start)
    | _, stack => checkNesting stack ts

end Preload
