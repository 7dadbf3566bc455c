import Preload.FileStore
import Preload.ParseError
/-!
# Errors of an injection

Why the support module cannot be put in place for an entry file.
-/

namespace Preload

/-- Why the code that loads the support module is no statement. -/
inductive TemplateFault where
  /-- It cannot be parsed. -/
  | parse (error : ParseError)
  /-- It is a statement, but loads another module or none. -/
  | noReference
  /-- It is a declaration, and the program is a script. -/
  | importInScript
  /-- The parser of the host tree refuses it. -/
  | refused
  /-- The parser of the host tree finds nothing in it. -/
  | noStatement
  deriving DecidableEq, Repr

namespace TemplateFault

/-- The text shown to a user. -/
def message : TemplateFault → String
  | parse error => error.message
  | noReference => "template did not produce a module reference"
  | importInScript => "import declarations are not allowed in scripts"
  | refused => "the host parser refused the code"
  | noStatement => "no statement produced"

end TemplateFault

/-- Why an injection fails. -/
inductive InjectError where
  /-- The support module cannot be written to `path`. -/
  | store (path : Path) (cause : StoreError)
  /-- No relative path leads from one place to the other. -/
  | unrelatable (base target : Path)
  /-- The statement that loads the support module cannot be built from `code`. -/
  | template (code : String) (fault : TemplateFault)
  deriving DecidableEq, Repr

namespace InjectError

/-- The text shown to a user. -/
def message : InjectError → String
  | store path cause =>
    "Failed to write support module to " ++ path.text ++ ": " ++ cause.message
  | unrelatable base target => "No relative path from " ++ base.text ++ " to " ++ target.text
  | template code fault =>
    "Failed to build support statement \x60" ++ code ++ "\x60: " ++ fault.message

end InjectError

end Preload
