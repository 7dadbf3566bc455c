import Preload.Double.Shortest
import Preload.Options
import Preload.Text.Shown
/-!
# Options from JSON values

Options are read from an object, in which every key may be missing and unknown keys do not matter,
or from the array of their values in the order of declaration, which may end early. What is missing
keeps its default. The first value of the wrong kind is reported: of an object in the order of its
sorted keys, of an array in its own order.
-/

namespace Preload

namespace Options

/-- What a value should have been. -/
inductive Expected where
  | options
  | path
  | entries
  | cache
  | importStyle
  | unit
  deriving DecidableEq, Repr

/-- The text for what is expected. -/
def Expected.text : Expected → String
  | options => "struct InjectorOptions"
  | path => "path string"
  | entries => "a sequence"
  | cache => "a boolean"
  | importStyle => "string or map"
  | unit => "unit"

/-- Why a value gives no options. -/
inductive Error where
  /-- A value is of the wrong kind. -/
  | mismatch (found : Json) (expected : Expected)
  /-- No import style has this name. -/
  | unknownStyle (name : String)
  /-- An object that names an import style has not one key. -/
  | styleKeys
  /-- An array has more values than there are options. -/
  | surplus (count : Nat)

/-- What kind of value `json` is, in the words of a message. -/
def kindText : Json → String
  | .null => "null"
  | .bool b => "boolean \x60" ++ toString b ++ "\x60"
  | .int i => "integer \x60" ++ toString i ++ "\x60"
  | .float d => "floating point \x60" ++ d.text ++ "\x60"
  | .string s => "string " ++ shown s
  | .array _ => "sequence"
  | .object _ => "map"

/-- The text shown to a user. -/
def Error.message (e : Error) : String :=
  "Invalid injector options: " ++
    match e with
    | mismatch found expected =>
      "invalid type: " ++ kindText found ++ ", expected " ++ expected.text
    | unknownStyle name =>
      "unknown variant \x60" ++ name ++ "\x60, expected \x60require\x60 or \x60import\x60"
    | styleKeys => "invalid value: map, expected map with a single key"
    | surplus count =>
      "invalid length " ++ toString count ++ ", expected fewer elements in array"

/-- Reads a path. -/
def pathOf : Json → Except Error Path
  | .string s => .ok ⟨s⟩
  | json => .error (.mismatch json .path)

/-- Reads a list of paths. -/
def entriesOf : Json → Except Error (List Path)
  | .array items => items.mapM pathOf
  | json => .error (.mismatch json .entries)

/-- Reads a truth value. -/
def cacheOf : Json → Except Error Bool
  | .bool b => .ok b
  | json => .error (.mismatch json .cache)

/-- The import style of a name. -/
def styleNamed (name : String) : Except Error ImportStyle :=
  match ImportStyle.ofKeyword? name with
  | some style => .ok style
  | none => .error (.unknownStyle name)

/-- Reads an import style: its name, or an object with the name as its only key and null for it. -/
def styleOf : Json → Except Error ImportStyle
  | .string name => styleNamed name
  | .object [(name, json)] => do
    let style ← styleNamed name
    match json with
    | .null => .ok style
    | json => .error (.mismatch json .unit)
  | .object _ => .error .styleKeys
  | json => .error (.mismatch json .importStyle)

/-- Sets an option to the value that `json` gives for it. -/
def setField (o : Options) (field : Field) (json : Json) : Except Error Options :=
  match field with
  | .src => (pathOf json).map fun v => { o with src := v }
  | .dest => (pathOf json).map fun v => { o with dest := v }
  | .entries => (entriesOf json).map fun v => { o with entries := v }
  | .supportModulePath => (pathOf json).map fun v => { o with supportModulePath := v }
  | .cache => (cacheOf json).map fun v => { o with cache := v }
  | .importStyle => (styleOf json).map fun v => { o with importStyle := v }

/-- Sets options one after the other. -/
def setFields (o : Options) : List (Field × Json) → Except Error Options
  | [] => .ok o
  | (field, json) :: rest => do
    let o ← o.setField field json
    o.setFields rest

/-- The options in the order of their sorted keys. -/
def Field.sorted : List Field :=
  [cache, dest, entries, importStyle, src, supportModulePath]

/-- The options of an object, with their values, in the order of their sorted keys. -/
def named (json : Json) : List (Field × Json) :=
  Field.sorted.filterMap fun field => (json.field? field.key).map (field, ·)

/-- Reads options before an empty place for the support module is replaced. -/
def read (json : Json) : Except Error Options :=
  match json with
  | .object _ => default.setFields (named json)
  | .array items => do
    let o ← default.setFields (Field.all.zip items)
    if items.length ≤ Field.all.length then .ok o else .error (.surplus items.length)
  | json => .error (.mismatch json .options)

/-- Reads options. -/
def ofJson (json : Json) : Except Error Options :=
  (read json).map normalized

end Options

end Preload
