import Preload.ImportStyle
/-!
# Programs

A script as a shebang line, a prologue of directives and a body of top-level statements. The texts
of statements are kept as they are; only statements that load a module for its effects are told
apart from the rest.
-/

namespace Preload

/-- The bytes of the source from `start` up to `stop`. -/
structure Span where
  start : Nat
  stop : Nat
  deriving DecidableEq, Repr, Inhabited

namespace Span

/-- The span of nodes that come from no source. -/
def dummy : Span := ⟨0, 0⟩

/-- Whether the span stands for no source. -/
def isDummy (s : Span) : Bool :=
  s == dummy

end Span

/-- How far a statement wants to move up. -/
inductive Hoist where
  /-- Not at all. -/
  | standard
  /-- As far as its number says. -/
  | priority (rank : UInt32)
  /-- To the front. -/
  | hoisted
  deriving DecidableEq, Repr, Inhabited

namespace Hoist

/-- Statements of higher rank come first. -/
def rank : Hoist → Nat
  | standard => 1
  | priority n => n.toNat
  | hoisted => 4294967295

end Hoist

/-- What a statement is. -/
inductive StatementKind where
  /-- Loads a module for its effects. -/
  | load (style : ImportStyle) (specifier : String)
  /-- Anything else, by its text. -/
  | other (text : String)
  deriving DecidableEq, Repr, Inhabited

/-- A top-level statement. -/
structure Statement where
  kind : StatementKind
  span : Span
  hoist : Hoist
  /-- The text that stands for the statement in place of the one its kind gives. -/
  raw : Option String
  deriving DecidableEq, Repr, Inhabited

namespace Statement

/-- A statement with the standard place and no text of its own. -/
def ofKind (kind : StatementKind) (span : Span) : Statement :=
  ⟨kind, span, .standard, none⟩

/-- A statement from no source that loads `specifier`. -/
def load (style : ImportStyle) (specifier : String) : Statement :=
  ofKind (.load style specifier) .dummy

/-- The module that the statement loads. -/
def specifier? (s : Statement) : Option String :=
  match s.kind with
  | .load _ specifier => some specifier
  | .other _ => none

/-- Whether the statement moves to the front. -/
def isHoisted (s : Statement) : Bool :=
  s.hoist == .hoisted

end Statement

/-- A string literal in front of the body, such as `'use strict'`. -/
structure Directive where
  /-- The literal with its quotes. -/
  value : String
  span : Span
  /-- The text that stands for the directive in place of its value and a semicolon. -/
  raw : Option String
  /-- The comments between the directive before, or the start, and this one. -/
  leadingComments : List String
  deriving DecidableEq, Repr, Inhabited

/-- A script. -/
structure Program where
  /-- The first line after its `#!`. -/
  shebang : Option String
  directives : List Directive
  body : List Statement
  deriving DecidableEq, Repr, Inhabited

namespace Program

/-- A program that is only a body. -/
def ofBody (body : List Statement) : Program :=
  ⟨none, [], body⟩

/-- Puts a statement in front of the body. -/
def prepend (s : Statement) (p : Program) : Program :=
  { p with body := s :: p.body }

/-- Puts a statement at the end of the body. -/
def push (s : Statement) (p : Program) : Program :=
  { p with body := p.body ++ [s] }

/-- The modules that the statements of the body load, in order. -/
def specifiers (p : Program) : List String :=
  p.body.filterMap Statement.specifier?

end Program

end Preload
