import Preload.Json.Doc
import Preload.Options.OfJson
/-!
# Options from JSON text

Options are read straight from a document, without making a value of it first, and the first problem
from left to right is reported: a fault of the text, or a value that is no option of its kind.
Values of unknown keys are only skipped. Unlike in a value, a key of an option may not come twice.
-/

namespace Preload

open Json (Doc Fault Key Reading)

namespace Options

/-- Why a text gives no options. -/
inductive TextError where
  /-- The text is no JSON. -/
  | broken (fault : Fault)
  /-- A value is of the wrong kind, or a key comes twice. -/
  | mismatched
  deriving DecidableEq, Repr

namespace TextError

/-- What a read lexeme gives, with its fault as an error. -/
def ofReading {α : Type} (reading : Reading α) : Except TextError α :=
  reading.value.mapError .broken

/-- Stops at a fault. -/
def stopAt : Option Fault → Except TextError Unit
  | some fault => .error (.broken fault)
  | none => .ok ()

/-- The error with a document that is no value of the kind wanted. -/
def ofDoc : Doc → TextError
  | .text ⟨.error fault, _⟩ | .plain ⟨.error fault, _⟩ | .absent fault => broken fault
  | _ => mismatched

end TextError

/-- The option or style that something names; any failure is a mismatch. -/
def matched {ε α : Type} (result : Except ε α) : Except TextError α :=
  result.mapError fun _ => .mismatched

/-- Reads a path. -/
def pathOfDoc : Doc → Except TextError Path
  | .text ⟨.ok s, _⟩ => .ok ⟨s⟩
  | doc => .error (.ofDoc doc)

/-- Reads a list of paths. -/
def entriesOfDoc : Doc → Except TextError (List Path)
  | .array items close => do
    let entries ← items.mapM pathOfDoc
    TextError.stopAt close
    return entries
  | doc => .error (.ofDoc doc)

/-- Reads a truth value. -/
def cacheOfDoc : Doc → Except TextError Bool
  | .plain ⟨.ok (.bool b), _⟩ => .ok b
  | doc => .error (.ofDoc doc)

/-- Reads null. -/
def unitOfDoc : Doc → Except TextError Unit
  | .plain ⟨.ok .null, _⟩ => .ok ()
  | doc => .error (.ofDoc doc)

/-- Reads the name of an import style where an object has its key. Something that is a value but no
string is of the wrong kind there. -/
def styleOfKey : Key → Except TextError ImportStyle
  | .name reading => do matched (styleNamed (← TextError.ofReading reading))
  | .other _ (some fault) => .error (.broken fault)
  | .other _ none => .error .mismatched

/-- Reads an import style: its name, or an object with the name as its only key and null for it.
Anything else is not taken for a value at all. -/
def styleOfDoc : Doc → Except TextError ImportStyle
  | .text reading => do matched (styleNamed (← TextError.ofReading reading))
  | .object [] close => .error (.broken (close.getD .malformed))
  | .object ((key, value) :: more) close => do
    let style ← styleOfKey key
    unitOfDoc value
    TextError.stopAt (if more.isEmpty then close else some .malformed)
    return style
  | .absent fault => .error (.broken fault)
  | .plain _ | .array .. => .error (.broken .malformed)

/-- Sets an option to the value that a document gives for it. -/
def setDoc (o : Options) (field : Field) (doc : Doc) : Except TextError Options :=
  match field with
  | .src => (pathOfDoc doc).map fun v => { o with src := v }
  | .dest => (pathOfDoc doc).map fun v => { o with dest := v }
  | .entries => (entriesOfDoc doc).map fun v => { o with entries := v }
  | .supportModulePath => (pathOfDoc doc).map fun v => { o with supportModulePath := v }
  | .cache => (cacheOfDoc doc).map fun v => { o with cache := v }
  | .importStyle => (styleOfDoc doc).map fun v => { o with importStyle := v }

/-- Sets options one after the other. -/
def setDocs (o : Options) : List (Field × Doc) → Except TextError Options
  | [] => .ok o
  | (field, doc) :: rest => do
    let o ← o.setDoc field doc
    o.setDocs rest

/-- Sets the options that the members of an object name, where those in `seen` are set already. -/
def setMembers (o : Options) (seen : List Field) : List (Key × Doc) → Except TextError Options
  | [] => .ok o
  | (key, doc) :: members => do
    let name ← key.read.mapError .broken
    match Field.ofKey? name with
    | none =>
      TextError.stopAt doc.skipFault
      o.setMembers seen members
    | some field =>
      if field ∈ seen then .error .mismatched
      else
        let o ← o.setDoc field doc
        o.setMembers (field :: seen) members

/-- Reads options before an empty place for the support module is replaced. -/
def readDoc : Doc → Except TextError Options
  | .object members close => do
    let o ← default.setMembers [] members
    TextError.stopAt close
    return o
  | .array items close => do
    let o ← default.setDocs (Field.all.zip items)
    TextError.stopAt (if items.length ≤ Field.all.length then close else some .malformed)
    return o
  | doc => .error (.ofDoc doc)

/-- Reads options from a text that holds one document and nothing else. -/
def ofText (source : String) : Except TextError Options := do
  let text := Doc.ofText source.toList
  let o ← readDoc text.doc
  TextError.stopAt (if text.endsThere then none else some .malformed)
  return o.normalized

end Options

end Preload
