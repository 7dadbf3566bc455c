import Preload.Program
/-!
# Programs as text

A program is printed as lines: the shebang, each directive under its comments, and each statement.
Every line ends in the line break that the caller chooses.
-/

namespace Preload

/-- The text of a statement: its own, if it has one, and otherwise the one its kind gives. -/
def Statement.text (s : Statement) : String :=
  match s.raw, s.kind with
  | some raw, _ => raw
  | none, .load style specifier => style.render specifier ++ ";"
  | none, .other text => text

/-- The text of a directive: its own, if it has one, and otherwise its value and a semicolon. -/
def Directive.text (d : Directive) : String :=
  d.raw.getD (d.value ++ ";")

/-- A directive under its comments. -/
def Directive.lines (d : Directive) : List String :=
  d.leadingComments ++ [d.text]

namespace Program

/-- The line in front of everything else. -/
def shebangLines (p : Program) : List String :=
  match p.shebang with
  | some interpreter => ["#!" ++ interpreter]
  | none => []

/-- The lines of a program. A line here may hold line breaks of the source's own. -/
def lines (p : Program) : List String :=
  p.shebangLines ++ p.directives.flatMap Directive.lines ++ p.body.map Statement.text

/-- The text of a program, with `newline` after each line. -/
def render (newline : String) (p : Program) : String :=
  String.join (p.lines.map (· ++ newline))

end Program

end Preload
