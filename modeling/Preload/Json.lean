import Preload.Double
/-!
# JSON values

Values as a reader gives them: whole numbers of 64 bits apart from all other numbers, and objects in
which a key that comes again replaces the value it had.
-/

namespace Preload

/-- A JSON value. -/
inductive Json where
  | null
  | bool (value : Bool)
  /-- A whole number from `-2 ^ 63` up to `2 ^ 64 - 1`. -/
  | int (value : Int)
  /-- Any other number. -/
  | float (value : Double)
  | string (value : String)
  | array (items : List Json)
  /-- The members of an object, no key twice. -/
  | object (members : List (String × Json))
  deriving Inhabited

namespace Json

/-- Sets the value of a key: in its old place, or at the end. -/
def setMember (key : String) (value : Json) : List (String × Json) → List (String × Json)
  | [] => [(key, value)]
  | (k, v) :: ms => if k = key then (key, value) :: ms else (k, v) :: setMember key value ms

/-- The object with these members, where a later member replaces an earlier one of its key. -/
def ofMembers (members : List (String × Json)) : Json :=
  .object (members.foldl (fun ms (key, value) => setMember key value ms) [])

/-- The value of a key of an object. -/
def field? (json : Json) (key : String) : Option Json :=
  match json with
  | .object members => members.lookup key
  | _ => none

/-- The values of the fields `keys` of a record, each if it is there. A record is written as an
object, whose other keys do not matter, or as the array of its fields in order, which may end
early. -/
def record? (keys : List String) : Json → Option (List (Option Json))
  | .object members => some (keys.map (members.lookup ·))
  | .array items =>
    if items.length ≤ keys.length then
      some (items.map some ++ List.replicate (keys.length - items.length) none)
    else none
  | _ => none

/-- The text of a string. -/
def string? : Json → Option String
  | .string s => some s
  | _ => none

/-- The value of a whole number that is not negative. -/
def nat? : Json → Option Nat
  | .int (.ofNat n) => some n
  | _ => none

/-- The items of an array. -/
def array? : Json → Option (List Json)
  | .array items => some items
  | _ => none

end Json

end Preload
