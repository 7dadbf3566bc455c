import Preload.HostTree
/-!
# Host trees as JSON

The JSON form of a host tree, and the reader of that form.
-/

namespace Preload.HostTree

/-! ## Writing -/

/-- An object with one member. -/
def tagged (key : String) (json : Json) : Json :=
  .object [(key, json)]

mutual

/-- The JSON form of an expression. -/
def Expr.toJson : Expr → Json
  | .str value => tagged "str" (.string value)
  | .bool value => tagged "bool" (.bool value)
  | .ident name => tagged "ident" (.string name)
  | .paren inner => tagged "paren" inner.toJson
  | .call callee args =>
    tagged "call" (.object [("callee", callee.toJson), ("args", .array (Argument.listToJson args))])
  | .other text => tagged "other" (.string text)

/-- The JSON form of what a call calls. -/
def Callee.toJson : Callee → Json
  | .expr inner => inner.toJson
  | .dynamicImport => .string "import"
  | .superclass => .string "super"

/-- The JSON form of an argument. -/
def Argument.toJson : Argument → Json
  | .plain inner => inner.toJson
  | .spread inner => tagged "spread" inner.toJson

/-- The JSON forms of arguments. -/
def Argument.listToJson : List Argument → List Json
  | [] => []
  | arg :: args => arg.toJson :: Argument.listToJson args

end

/-- The JSON form of a statement. -/
def Stmt.toJson : Stmt → Json
  | .expr inner => tagged "expr" inner.toJson
  | .empty => .string "empty"
  | .debugger => .string "debugger"
  | .other text => tagged "other" (.string text)

/-- The JSON form of an item. -/
def Item.toJson : Item → Json
  | .stmt inner => inner.toJson
  | .importDecl source names =>
    .object [("import", .string source), ("names", .array (names.map .string))]
  | .exportAll source => tagged "exportAll" (.string source)
  | .other text => tagged "other" (.string text)

/-- The JSON form of a shebang. -/
def shebangToJson : Option String → Json
  | some text => .string text
  | none => .null

/-- The JSON form of a tree. -/
def toJson : HostTree → Json
  | moduleTree shebang body =>
    .object
      [("type", .string "module"), ("shebang", shebangToJson shebang),
        ("body", .array (body.map Item.toJson))]
  | scriptTree shebang body =>
    .object
      [("type", .string "script"), ("shebang", shebangToJson shebang),
        ("body", .array (body.map Stmt.toJson))]

/-! ## Reading -/

theorem sizeOf_lookup_lt {members : List (String × Json)} {key : String} {json : Json}
    (h : members.lookup key = some json) : sizeOf json < sizeOf members := by
  induction members with
  | nil => simp at h
  | cons m ms ih =>
    obtain ⟨k, v⟩ := m
    rw [List.lookup_cons] at h
    split at h
    · cases h
      simp only [List.cons.sizeOf_spec, Prod.mk.sizeOf_spec]
      omega
    · have := ih h
      simp only [List.cons.sizeOf_spec]
      omega

/-- A field of an object is smaller than the object. -/
theorem sizeOf_field?_lt {json field : Json} {key : String} (h : json.field? key = some field) :
    sizeOf field < sizeOf json := by
  cases json with
  | object members =>
    have : sizeOf field < sizeOf members := sizeOf_lookup_lt h
    simp only [Json.object.sizeOf_spec]
    omega
  | _ => simp [Json.field?] at h

/-- The items of an array at a field are smaller than the object. -/
theorem sizeOf_args_lt {json : Json} {items : List Json} {key : String}
    (h : json.field? key = some (.array items)) : sizeOf items < sizeOf json := by
  have := sizeOf_field?_lt h
  simp only [Json.array.sizeOf_spec] at this
  omega

mutual

/-- Reads an expression. -/
def Expr.ofJson? (json : Json) : Option Expr :=
  match json.field? "str", json.field? "bool", json.field? "ident" with
  | some (.string s), _, _ => some (.str s)
  | none, some (.bool b), _ => some (.bool b)
  | none, none, some (.string s) => some (.ident s)
  | none, none, none =>
    match _hparen : json.field? "paren", _hcall : json.field? "call" with
    | some inner, _ => (Expr.ofJson? inner).map .paren
    | none, some call =>
      match _hcallee : call.field? "callee", _hargs : call.field? "args" with
      | some (.string "import"), some (.array args) =>
        (Argument.listOfJson? args).map (.call .dynamicImport)
      | some callee, some (.array args) => do
        return .call (.expr (← Expr.ofJson? callee)) (← Argument.listOfJson? args)
      | _, _ => none
    | none, none => none
  | _, _, _ => none
termination_by sizeOf json
decreasing_by
  · exact sizeOf_field?_lt _hparen
  · exact Nat.lt_trans (sizeOf_args_lt _hargs) (sizeOf_field?_lt _hcall)
  · exact Nat.lt_trans (sizeOf_field?_lt _hcallee) (sizeOf_field?_lt _hcall)
  · exact Nat.lt_trans (sizeOf_args_lt _hargs) (sizeOf_field?_lt _hcall)

/-- Reads arguments. -/
def Argument.listOfJson? (jsons : List Json) : Option (List Argument) :=
  match jsons with
  | [] => some []
  | json :: jsons =>
    match _hspread : json.field? "spread" with
    | some inner => do
      return .spread (← Expr.ofJson? inner) :: (← Argument.listOfJson? jsons)
    | none => do
      return .plain (← Expr.ofJson? json) :: (← Argument.listOfJson? jsons)
termination_by sizeOf jsons
decreasing_by
  all_goals simp only [List.cons.sizeOf_spec]
  · have := sizeOf_field?_lt _hspread; omega
  · omega
  · omega
  · omega

end

/-- Reads a statement. -/
def Stmt.ofJson? : Json → Option Stmt
  | .string "empty" => some .empty
  | .string "debugger" => some .debugger
  | json => (json.field? "expr").bind fun e => (Expr.ofJson? e).map .expr

/-- Reads the names that an import binds, which may be left out. -/
def namesOfJson? : Option Json → Option (List String)
  | none => some []
  | some json => json.array?.bind (·.mapM Json.string?)

/-- Reads an item. -/
def Item.ofJson? (json : Json) : Option Item :=
  match json.field? "import", json.field? "exportAll" with
  | some source, _ => do return .importDecl (← source.string?) (← namesOfJson? (json.field? "names"))
  | none, some source => source.string?.map .exportAll
  | none, none => (Stmt.ofJson? json).map .stmt

/-- Reads a shebang, which may be missing or null. -/
def shebangOfJson? : Option Json → Option (Option String)
  | none | some .null => some none
  | some json => json.string?.map some

/-- Reads a tree. -/
def ofJson? (json : Json) : Option HostTree := do
  let shebang ← shebangOfJson? (json.field? "shebang")
  let body ← (json.field? "body").bind Json.array?
  match json.field? "type" with
  | some (.string "module") => return moduleTree shebang (← body.mapM Item.ofJson?)
  | some (.string "script") => return scriptTree shebang (← body.mapM Stmt.ofJson?)
  | _ => none

end Preload.HostTree
