import Preload.Json
import Preload.Program
/-!
# Programs as JSON

The JSON form of a program and its parts, and the reader of that form. The `ofJson?` of a structure
takes a record as an object, whose unknown keys it ignores, or as the array of its fields
(`Json.record?`).
-/

namespace Preload

namespace Json

/-- The whole number at a field, if it is there and at most `limit`. -/
def natUpTo? (limit : Nat) : Option Json → Option Nat
  | some json =>
    match json.nat? with
    | some n => if n ≤ limit then some n else none
    | none => none
  | none => none

/-- The text at a field that must be there. -/
def text? : Option Json → Option String
  | some json => json.string?
  | none => none

/-- The text at a field that may be missing or null. -/
def optionalText? : Option Json → Option (Option String)
  | none | some .null => some none
  | some (.string s) => some (some s)
  | some _ => none

/-- What `read?` makes of each item of the array at a field that must be there. -/
def listOf? {α : Type} (read? : Json → Option α) : Option Json → Option (List α)
  | some (.array items) => items.mapM read?
  | _ => none

end Json

namespace Span

/-- The JSON form of a span. -/
def toJson (s : Span) : Json :=
  .object [("start", .int s.start), ("end", .int s.stop)]

/-- Positions are numbers of 64 bits. -/
def limit : Nat := 18446744073709551615

/-- Reads the JSON form of a span. -/
def ofJson? (json : Json) : Option Span := do
  match ← json.record? ["start", "end"] with
  | [start, stop] => return ⟨← Json.natUpTo? limit start, ← Json.natUpTo? limit stop⟩
  | _ => none

end Span

namespace Hoist

/-- The JSON form of a hoist mark. -/
def toJson : Hoist → Json
  | standard => .string "Default"
  | priority n => .object [("Priority", .int n.toNat)]
  | hoisted => .string "Hoisted"

/-- The mark that has a name and no number. -/
def ofName? (name : String) : Option Hoist :=
  if name = "Default" then some standard
  else if name = "Hoisted" then some hoisted
  else none

/-- Reads the JSON form of a hoist mark. A name may also be the only key of an object, with null. -/
def ofJson? : Json → Option Hoist
  | .string name => ofName? name
  | .object [("Priority", json)] =>
    (Json.natUpTo? 4294967295 (some json)).map fun n => priority (UInt32.ofNat n)
  | .object [(name, .null)] => ofName? name
  | _ => none

end Hoist

namespace StatementKind

/-- The name of the kind of statements that load a module. -/
def loadName : ImportStyle → String
  | .requireCall => "Require"
  | .importDecl => "Import"

/-- The JSON form of a statement kind. -/
def toJson : StatementKind → Json
  | load style specifier => .object [(loadName style, .object [("specifier", .string specifier)])]
  | other text => .object [("Other", .string text)]

/-- The kind of statements that load the module at the field of an object. This object is no record:
the array of its fields is not read. -/
def ofLoad? (style : ImportStyle) (json : Json) : Option StatementKind :=
  (Json.text? (json.field? "specifier")).map (load style)

/-- Reads the JSON form of a statement kind: an object with one key. -/
def ofJson? : Json → Option StatementKind
  | .object [("Require", json)] => ofLoad? .requireCall json
  | .object [("Import", json)] => ofLoad? .importDecl json
  | .object [("Other", json)] => json.string?.map other
  | _ => none

end StatementKind

/-- A member that is left out when there is nothing to say. -/
def Json.optionalMember (key : String) : Option String → List (String × Json)
  | some text => [(key, .string text)]
  | none => []

namespace Statement

/-- The JSON form of a statement. -/
def toJson (s : Statement) : Json :=
  .object ([("kind", s.kind.toJson), ("span", s.span.toJson), ("block_hoist", s.hoist.toJson)] ++
    Json.optionalMember "raw" s.raw)

/-- Reads the JSON form of a statement. -/
def ofJson? (json : Json) : Option Statement := do
  match ← json.record? ["kind", "span", "block_hoist", "raw"] with
  | [some kind, some span, some hoist, raw] =>
    return ⟨← StatementKind.ofJson? kind, ← Span.ofJson? span, ← Hoist.ofJson? hoist,
      ← Json.optionalText? raw⟩
  | _ => none

end Statement

namespace Directive

/-- The JSON form of a directive. -/
def toJson (d : Directive) : Json :=
  .object ([("value", .string d.value), ("span", d.span.toJson)] ++
    Json.optionalMember "raw" d.raw ++
    match d.leadingComments with
    | [] => []
    | comments => [("leading_comments", .array (comments.map .string))])

/-- The comments at a field that may be missing. -/
def comments? : Option Json → Option (List String)
  | none => some []
  | comments => Json.listOf? Json.string? comments

/-- Reads the JSON form of a directive. -/
def ofJson? (json : Json) : Option Directive := do
  match ← json.record? ["value", "span", "raw", "leading_comments"] with
  | [value, some span, raw, comments] =>
    return ⟨← Json.text? value, ← Span.ofJson? span, ← Json.optionalText? raw, ← comments? comments⟩
  | _ => none

end Directive

namespace Program

/-- The JSON form of a program. -/
def toJson (p : Program) : Json :=
  .object (Json.optionalMember "shebang" p.shebang ++
    [("directives", .array (p.directives.map Directive.toJson)),
      ("body", .array (p.body.map Statement.toJson))])

/-- Reads the JSON form of a program. -/
def ofJson? (json : Json) : Option Program := do
  match ← json.record? ["shebang", "directives", "body"] with
  | [shebang, directives, body] =>
    return ⟨← Json.optionalText? shebang, ← Json.listOf? Directive.ofJson? directives,
      ← Json.listOf? Statement.ofJson? body⟩
  | _ => none

end Program

end Preload
