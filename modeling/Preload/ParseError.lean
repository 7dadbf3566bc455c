/-!
# Parse errors

Why a text is no script, with positions in bytes from the start of the whole text.
-/

namespace Preload

/-- Why a text cannot be read. -/
inductive ParseError where
  /-- The literal or comment that opens at `pos` is never closed. -/
  | unclosed (pos : Nat)
  /-- The bracket `delimiter` at `pos` has no partner. -/
  | unbalanced (delimiter : Char) (pos : Nat)
  /-- There are `found` statements where one is wanted. -/
  | statementCount (found : Nat)
  deriving DecidableEq, Repr

namespace ParseError

/-- The text shown to a user. -/
def message : ParseError → String
  | unclosed pos => "Unexpected character at " ++ toString pos
  | unbalanced delimiter pos => "Unbalanced '" ++ delimiter.toString ++ "' at " ++ toString pos
  | statementCount found => "Expected exactly one statement, found " ++ toString found

end ParseError

end Preload
