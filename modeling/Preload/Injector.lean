import Preload.Program.Parser
import Preload.Run
/-!
# Injectors

An injector puts a statement that loads the support module in front of every entry file, after
making sure that the module is in the output tree.
-/

namespace Preload

/-- Options in a working directory. -/
structure Injector where
  options : Options
  cwd : Path
  deriving DecidableEq, Repr, Inhabited

namespace Injector

/-- Where everything is. -/
def layout (i : Injector) : Layout :=
  .ofOptions i.options i.cwd

/-- Whether a file is an entry. -/
def isEntry (i : Injector) (file : Path) : Bool :=
  i.layout.isEntry file

/-- Where the support module goes for a file; nowhere for one that is no entry. -/
def placement (i : Injector) (file : Path) : Except InjectError (Option Placement) :=
  let l := i.layout
  let entry := file.absolutize l.cwd
  if l.hasEntry entry then
    let base := l.directoryOf entry
    match Path.moduleSpecifier? base l.supportSourcePath with
    | some specifier => .ok (some ⟨entry, l.destRoot, l.supportDestPath, specifier⟩)
    | none => .error (.unrelatable base l.supportSourcePath)
  else .ok none

/-- The placement for a file, once the support module is in place for it. -/
def prepare (i : Injector) (file : Path) (r : Run) : Except InjectError (Option Placement) × Run :=
  match i.placement file with
  | .error e => (.error e, r)
  | .ok none => (.ok none, r)
  | .ok (some p) =>
    match r.materialize p i.layout.cache with
    | (.ok _, r) => (.ok (some p), r)
    | (.error e, r) => (.error e, r)

/-- The statement that loads a module, read back from the code for it. -/
def supportStatement (i : Injector) (specifier : String) : Except InjectError Statement :=
  let code := i.layout.importStyle.render specifier
  match Statement.parse code with
  | .error e => .error (.template code (.parse e))
  | .ok s =>
    if s.specifier? = some specifier then
      .ok { s with span := .dummy, hoist := .hoisted, raw := none }
    else .error (.template code .noReference)

/-- Whether a body opens with a hoisted statement that loads a module. -/
def opensWith (body : List Statement) (specifier : String) : Bool :=
  match body with
  | s :: _ => s.isHoisted && s.specifier? == some specifier
  | [] => false

/-- Puts the statement for a placement in front of a program, and says whether it did. A program
that opens with the statement is left alone, and so is one whose statement cannot be read. -/
def injectInPlace (i : Injector) (p : Placement) (program : Program) :
    Except InjectError Bool × Program :=
  if opensWith program.body p.specifier then (.ok false, program)
  else
    match i.supportStatement p.specifier with
    | .error e => (.error e, program)
    | .ok s => (.ok true, program.prepend s)

/-- Prepares a file, injects into what the host made of it, a program or a tree, and says whether
that was changed. -/
def transformWith {α : Type} (i : Injector) (inject : Placement → α → Except InjectError Bool × α)
    (a : α) (file : Path) (r : Run) : Except InjectError Bool × α × Run :=
  match i.prepare file r with
  | (.error e, r) => (.error e, a, r)
  | (.ok none, r) => (.ok false, a, r)
  | (.ok (some p), r) =>
    let (answer, a) := inject p a
    (answer, a, r)

/-- Prepares a file and injects the statement into its program, and says whether that was
changed. -/
def transformInPlace (i : Injector) (program : Program) (file : Path) (r : Run) :
    Except InjectError Bool × Program × Run :=
  i.transformWith i.injectInPlace program file r

/-- What was made of a program or a tree in place: nothing if the answer is that it was not
changed. -/
def made {α : Type} : Except InjectError Bool × α → Except InjectError (Option α)
  | (.error e, _) => .error e
  | (.ok false, _) => .ok none
  | (.ok true, a) => .ok (some a)

/-- The program that a transformation makes, or `none` if the program stays as it is. -/
def transform (i : Injector) (program : Program) (file : Path) (r : Run) :
    Except InjectError (Option Program) × Run :=
  let (answer, program, r) := i.transformInPlace program file r
  (made (answer, program), r)

end Injector

end Preload
