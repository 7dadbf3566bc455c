import Preload.Injector
import Preload.Program.Hoisting
import Preload.Program.Printer
/-!
# Compiling files

Each file of a build is parsed, gets the statement that loads the support module if it is an entry,
has its statements hoisted, and is printed again. All files share one run.
-/

namespace Preload

/-- A source file. -/
structure SourceFile where
  path : Path
  source : String
  deriving DecidableEq, Repr, Inhabited

/-- What becomes of a file. -/
structure Output where
  /-- Whether a statement was injected. -/
  changed : Bool
  text : String
  deriving DecidableEq, Repr, Inhabited

/-- Why a file has no output. -/
inductive CompileError where
  | parse (error : ParseError)
  | inject (error : InjectError)
  deriving DecidableEq, Repr

/-- The output for a program that was transformed into another one, or left as it is. -/
def Output.ofTransform (program : Program) (result : Option Program) : Output :=
  ⟨result.isSome, (result.getD program).hoist.render "\n"⟩

/-- Compiles a file. -/
def compileFile (i : Injector) (f : SourceFile) (r : Run) : Except CompileError Output × Run :=
  match Program.parse f.source with
  | .error e => (.error (.parse e), r)
  | .ok program =>
    match i.transform program f.path r with
    | (.error e, r) => (.error (.inject e), r)
    | (.ok result, r) => (.ok (.ofTransform program result), r)

/-- Compiles files in order. -/
def compileFiles (i : Injector) : List SourceFile → Run → List (Except CompileError Output) × Run
  | [], r => ([], r)
  | f :: fs, r =>
    let (output, r) := compileFile i f r
    let (outputs, r) := compileFiles i fs r
    (output :: outputs, r)

end Preload
