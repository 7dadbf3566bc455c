import Preload.Group
import Preload.Nesting
import Preload.Program
import Preload.Token.Lexing
/-!
# Reading programs

A text is lexed, its brackets are checked, and its groups of tokens become a program: string
literals in front are directives, and comments among them belong to the directive that follows. A
group loads a module if it is `require('x')` or `import 'x'`, comments and a last semicolon aside.
-/

namespace Preload

namespace Group

/-- The code of a group without its last semicolon. -/
def core (g : Group) : List Token :=
  if g.code.getLast?.map (·.kind) = some .semicolon then g.code.dropLast else g.code

/-- What `core` says, without places. -/
def words (g : Group) : List (Token.Kind × List Char) :=
  g.core.map fun t => (t.kind, t.text)

/-- The source text of the group as a string. -/
def source (g : Group) : String :=
  String.ofList g.text

/-- Where the group stands. -/
def span (g : Group) : Span :=
  ⟨g.start, g.stop⟩

/-- The literal of a group that is a string and nothing else. -/
def literal? (g : Group) : Option (List Char) :=
  match g.words with
  | [(.string, literal)] => some literal
  | _ => none

/-- The style and the literal of a group that loads a module for its effects. -/
def load? (g : Group) : Option (ImportStyle × List Char) :=
  match g.words with
  | [(.keyword .requireCall, _), (.opening .round, _), (.string, literal), (.closing .round, _)] =>
    some (.requireCall, literal)
  | [(.keyword .importDecl, _), (.string, literal)] => some (.importDecl, literal)
  | _ => none

/-- The statement that a group is. -/
def toStatement (g : Group) : Statement :=
  match g.load? with
  | some (style, literal) =>
    ⟨.load style (unquote (String.ofList literal)), g.span, .standard, some g.source⟩
  | none => .ofKind (.other g.source) g.span

/-- The directive that a string group is, under the comments in front of it. -/
def toDirective (comments : List Group) (literal : List Char) (g : Group) : Directive :=
  ⟨String.ofList literal, g.span, some g.source, comments.map source⟩

end Group

namespace Program

/-- The program of a list of groups, whose prologue goes on as long as there are only comments,
which wait in `pending`, and string literals. -/
def ofGroups (pending : List Group) : List Group → Program
  | [] => .ofBody (pending.map Group.toStatement)
  | g :: gs =>
    if g.code.isEmpty then ofGroups (pending ++ [g]) gs
    else
      match g.literal? with
      | some literal =>
        let p := ofGroups [] gs
        { p with directives := g.toDirective pending literal :: p.directives }
      | none => .ofBody ((pending ++ g :: gs).map Group.toStatement)

end Program

/-- The groups of a text that stands at position `pos`. -/
def readGroups (pos : Nat) (cs : List Char) : Except ParseError (List Group) :=
  let lexing := lex pos cs
  match lexing.errorAt with
  | some pos => .error (.unclosed pos)
  | none => (checkNesting [] lexing.tokens).map fun _ => Group.split lexing.tokens

/-- What follows `#!` on the first line, carriage returns at its end left out, and the text from the
end of that line on. -/
def shebang? : List Char → Option Split
  | '#' :: '!' :: cs => some (Split.run (· != '\n') cs)
  | _ => none

/-- Leaves out the carriage returns at the end of a line. -/
def trimReturns (line : List Char) : List Char :=
  (line.reverse.dropWhile (· == '\r')).reverse

namespace Program

/-- Reads a script. -/
def parse (source : String) : Except ParseError Program :=
  match shebang? source.toList with
  | some line =>
    (readGroups (2 + byteLength line.taken) line.rest).map fun groups =>
      { ofGroups [] groups with shebang := some (String.ofList (trimReturns line.taken)) }
  | none => (readGroups 0 source.toList).map (ofGroups [])

end Program

/-- Reads statements without a shebang line or directives. -/
def Statement.parseAll (source : String) : Except ParseError (List Statement) :=
  (readGroups 0 source.toList).map (·.map Group.toStatement)

/-- Reads a text that must be one statement. -/
def Statement.parse (source : String) : Except ParseError Statement :=
  match Statement.parseAll source with
  | .error e => .error e
  | .ok [s] => .ok s
  | .ok ss => .error (.statementCount ss.length)

end Preload
