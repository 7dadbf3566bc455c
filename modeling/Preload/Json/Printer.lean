import Preload.Json
import Preload.Double.Shortest
/-!
# JSON values as text

Values are written without blanks. In strings only quotes, backslashes and control characters are
escaped.
-/

namespace Preload.Json

/-- The digit for a number below sixteen. -/
def hexDigit (n : Nat) : Char :=
  (Nat.toDigits 16 n).headD '0'

/-- A character as it stands in a string. -/
def escapeChar (c : Char) : List Char :=
  if c = '"' ∨ c = '\\' then ['\\', c]
  else if c < ' ' then ['\\', 'u', '0', '0', hexDigit (c.toNat / 16), hexDigit (c.toNat % 16)]
  else [c]

/-- A string with its quotes. -/
def renderString (s : String) : String :=
  String.ofList ('"' :: s.toList.flatMap escapeChar ++ ['"'])

mutual

/-- The text of a value. -/
def render : Json → String
  | .null => "null"
  | .bool true => "true"
  | .bool false => "false"
  | .int i => toString i
  | .float d => d.text
  | .string s => renderString s
  | .array items => "[" ++ String.intercalate "," (renderItems items) ++ "]"
  | .object members => "\x7b" ++ String.intercalate "," (renderMembers members) ++ "\x7d"

/-- The texts of items. -/
def renderItems : List Json → List String
  | [] => []
  | json :: jsons => render json :: renderItems jsons

/-- The texts of members. -/
def renderMembers : List (String × Json) → List String
  | [] => []
  | (key, json) :: members => (renderString key ++ ":" ++ render json) :: renderMembers members

end

end Preload.Json
