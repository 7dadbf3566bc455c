import Preload.Json.Lexeme
/-!
# JSON documents

A `Doc` is JSON text read as far as it goes: the tree of its values, with the faults in place. A
reader goes over it from left to right and stops at the first fault it meets, which depends on
whether it wants a value or only skips it. What stands behind a fault is not looked at and does not
matter.

Main definitions:
* `Doc.ofText`: the document of a text;
* `Doc.skipFault`: what stops a reader who skips it;
* `Doc.read`: its value.
-/

namespace Preload.Json

/-- What stands where the key of a member should. -/
inductive Key where
  /-- A string. -/
  | name (reading : Reading String)
  /-- Anything else. An object has `fault` there; `asValue` is the fault that a reader of values has
  with it. -/
  | other (fault : Fault) (asValue : Option Fault)

/-- JSON text read as far as it goes. -/
inductive Doc where
  /-- A string. -/
  | text (reading : Reading String)
  /-- A number or word. -/
  | plain (reading : Reading Json)
  /-- No value at all. -/
  | absent (fault : Fault)
  /-- An array; `close` is the fault where a comma or the closing bracket should stand. -/
  | array (items : List Doc) (close : Option Fault)
  /-- An object; `close` is the fault where a comma or the closing brace should stand. -/
  | object (members : List (Key × Doc)) (close : Option Fault)
  deriving Inhabited

namespace Key

/-- The key, if a string must stand there. -/
def read : Key → Except Fault String
  | name reading => reading.value
  | other fault _ => .error fault

/-- The fault that a reader who skips the key meets. -/
def skipFault : Key → Option Fault
  | name reading => reading.skipFault
  | other fault _ => some fault

end Key

namespace Doc

/-! ## From lexemes -/

/-- The fault that a reader of values has with a lexeme. -/
def valueFault? : Lexeme → Option Fault
  | .text reading =>
    match reading.value with
    | .ok _ => none
    | .error f => some f
  | .plain reading =>
    match reading.value with
    | .ok _ => none
    | .error f => some f
  | .openArray | .openObject => none
  | .closeArray | .closeObject | .comma | .colon => some .malformed

/-- Something read from the front of some lexemes. -/
structure Step (α : Type) (bound : Nat) where
  result : α
  /-- The lexemes that are left. -/
  rest : List Lexeme
  length_rest_le : rest.length ≤ bound

/-- The items or members of a list, and the fault at its end. -/
abbrev Series (α : Type) : Type :=
  List α × Option Fault

/-- Puts the result of a step in front of those of the steps after it. -/
def Step.cons {α : Type} {n m bound : Nat} (a : α) (more : Step (Series α) n) (hn : n ≤ m)
    (hm : m ≤ bound) : Step (Series α) bound :=
  ⟨(a :: more.result.1, more.result.2), more.rest,
    Nat.le_trans more.length_rest_le (Nat.le_trans hn hm)⟩

mutual

/-- The value that opens with a lexeme. -/
def readValue (l : Lexeme) (ls : List Lexeme) : Step Doc ls.length :=
  match l with
  | .text reading => ⟨.text reading, ls, Nat.le_refl _⟩
  | .plain reading => ⟨.plain reading, ls, Nat.le_refl _⟩
  | .openArray =>
    match readItems ls with
    | ⟨(items, close), rest, hrest⟩ => ⟨.array items close, rest, hrest⟩
  | .openObject =>
    match readMembers ls with
    | ⟨(members, close), rest, hrest⟩ => ⟨.object members close, rest, hrest⟩
  | .closeArray | .closeObject | .comma | .colon => ⟨.absent .malformed, ls, Nat.le_refl _⟩
termination_by 2 * ls.length + 1

/-- The items of an array after its opening bracket. -/
def readItems (ls : List Lexeme) : Step (Series Doc) ls.length :=
  match ls with
  | [] => ⟨([], some .truncated), [], by simp⟩
  | .closeArray :: ls => ⟨([], none), ls, by simp⟩
  | l :: ls =>
    match readValue l ls with
    | ⟨item, rest, hrest⟩ => (readMoreItems rest).cons item hrest (by simp)
termination_by 2 * ls.length

/-- The items of an array after one of them. -/
def readMoreItems (ls : List Lexeme) : Step (Series Doc) ls.length :=
  match ls with
  | [] => ⟨([], some .truncated), [], by simp⟩
  | .closeArray :: ls => ⟨([], none), ls, by simp⟩
  | [.comma] => ⟨([.absent .truncated], none), [], by simp⟩
  | .comma :: l :: ls =>
    match readValue l ls with
    | ⟨item, rest, hrest⟩ => (readMoreItems rest).cons item hrest (by simp; omega)
  | _ :: _ => ⟨([], some .malformed), [], by simp⟩
termination_by 2 * ls.length

/-- The members of an object after its opening brace. -/
def readMembers (ls : List Lexeme) : Step (Series (Key × Doc)) ls.length :=
  match ls with
  | [] => ⟨([], some .truncated), [], by simp⟩
  | .closeObject :: ls => ⟨([], none), ls, by simp⟩
  | l :: ls =>
    match readMember l ls with
    | ⟨members, rest, hrest⟩ => ⟨members, rest, by simp; omega⟩
termination_by 2 * ls.length

/-- The members of an object after one of them. -/
def readMoreMembers (ls : List Lexeme) : Step (Series (Key × Doc)) ls.length :=
  match ls with
  | [] => ⟨([], some .truncated), [], by simp⟩
  | .closeObject :: ls => ⟨([], none), ls, by simp⟩
  | [.comma] => ⟨([(.other .truncated (some .truncated), .absent .truncated)], none), [], by simp⟩
  | .comma :: l :: ls =>
    match readMember l ls with
    | ⟨members, rest, hrest⟩ => ⟨members, rest, by simp; omega⟩
  | _ :: _ => ⟨([], some .malformed), [], by simp⟩
termination_by 2 * ls.length

/-- The member whose key opens with a lexeme, and those after it. -/
def readMember (l : Lexeme) (ls : List Lexeme) : Step (Series (Key × Doc)) ls.length :=
  match l, ls with
  | .text reading, .colon :: l :: ls =>
    match readValue l ls with
    | ⟨value, rest, hrest⟩ =>
      (readMoreMembers rest).cons (.name reading, value) hrest (by simp; omega)
  | .text reading, [] | .text reading, [.colon] =>
    ⟨([(.name reading, .absent .truncated)], none), [], by simp⟩
  | .text reading, _ => ⟨([(.name reading, .absent .malformed)], none), [], by simp⟩
  | l, _ => ⟨([(.other .malformed (valueFault? l), .absent .malformed)], none), [], by simp⟩
termination_by 2 * ls.length + 1

end

/-- A text as one document. -/
structure Text where
  doc : Doc
  /-- Whether nothing but blanks follows the document. -/
  endsThere : Bool

/-- The document of a text. -/
def ofText (cs : List Char) : Text :=
  match lexemes cs with
  | [] => ⟨.absent .truncated, true⟩
  | l :: ls =>
    let value := readValue l ls
    ⟨value.result, value.rest.isEmpty⟩

/-! ## Readers -/

mutual

/-- The fault that stops a reader who skips a document. -/
def skipFault : Doc → Option Fault
  | .text reading => reading.skipFault
  | .plain reading => reading.skipFault
  | .absent fault => some fault
  | .array items close => (itemsSkipFault items).or close
  | .object members close => (membersSkipFault members).or close

/-- The first fault that stops a reader who skips items. -/
def itemsSkipFault : List Doc → Option Fault
  | [] => none
  | d :: ds => (skipFault d).or (itemsSkipFault ds)

/-- The first fault that stops a reader who skips members. -/
def membersSkipFault : List (Key × Doc) → Option Fault
  | [] => none
  | (k, d) :: ms => (k.skipFault.or (skipFault d)).or (membersSkipFault ms)

end

/-- A list with the fault at its end. -/
def ended {α : Type} (a : α) (close : Option Fault) : Except Fault α :=
  match close with
  | none => .ok a
  | some f => .error f

mutual

/-- The value of a document. -/
def read : Doc → Except Fault Json
  | .text reading => reading.value.map .string
  | .plain reading => reading.value
  | .absent fault => .error fault
  | .array items close => do
    let items ← readAll items
    ended (.array items) close
  | .object members close => do
    let members ← readNamed members
    ended (.ofMembers members) close

/-- The values of items. -/
def readAll : List Doc → Except Fault (List Json)
  | [] => .ok []
  | d :: ds => do
    let json ← read d
    let jsons ← readAll ds
    .ok (json :: jsons)

/-- The keys and values of members. -/
def readNamed : List (Key × Doc) → Except Fault (List (String × Json))
  | [] => .ok []
  | (k, d) :: ms => do
    let key ← k.read
    let json ← read d
    let members ← readNamed ms
    .ok ((key, json) :: members)

end

end Doc

/-- The value of a text that is one document and nothing else. -/
def parse (cs : List Char) : Except Fault Json := do
  let text := Doc.ofText cs
  let json ← text.doc.read
  if text.endsThere then .ok json else .error .malformed

end Preload.Json
