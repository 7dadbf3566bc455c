import Preload.Injector
/-!
# Host trees

The full syntax tree of a host that parses programs itself. It keeps top-level items in order, so
that an item in front of the others is enough to load the support module first.
-/

namespace Preload

namespace HostTree

mutual

/-- An expression. -/
inductive Expr where
  | str (value : String)
  | bool (value : Bool)
  | ident (name : String)
  | paren (inner : Expr)
  | call (callee : Callee) (args : List Argument)
  /-- Any other expression, by its text. -/
  | other (text : String)

/-- What a call calls. -/
inductive Callee where
  | expr (inner : Expr)
  /-- The keyword of a dynamic import. -/
  | dynamicImport
  /-- The keyword for the constructor of a base class. -/
  | superclass

/-- An argument of a call. -/
inductive Argument where
  | plain (inner : Expr)
  | spread (inner : Expr)

end

/-- A statement. -/
inductive Stmt where
  | expr (inner : Expr)
  | empty
  | debugger
  /-- Any other statement, by its text. -/
  | other (text : String)

/-- A top-level item of a module. -/
inductive Item where
  | stmt (inner : Stmt)
  /-- An import of `source` that binds default imports to `names`. -/
  | importDecl (source : String) (names : List String)
  | exportAll (source : String)
  /-- Any other declaration, by its text. -/
  | other (text : String)

end HostTree

/-- The tree of a module or of a script, which has only statements. -/
inductive HostTree where
  | moduleTree (shebang : Option String) (body : List HostTree.Item)
  | scriptTree (shebang : Option String) (body : List HostTree.Stmt)

namespace HostTree

/-- Whether an expression is the call `require('x')` for a specifier. -/
def Expr.requires (e : Expr) (specifier : String) : Bool :=
  match e with
  | .call (.expr (.ident "require")) [.plain (.str s)] => s == specifier
  | _ => false

/-- Whether a statement is the call `require('x')` for a specifier. -/
def Stmt.requires (s : Stmt) (specifier : String) : Bool :=
  match s with
  | .expr e => e.requires specifier
  | _ => false

/-- Whether an item loads a module for its effects only. -/
def Item.references (item : Item) (specifier : String) : Bool :=
  match item with
  | .stmt s => s.requires specifier
  | .importDecl source names => names.isEmpty && source == specifier
  | .exportAll _ | .other _ => false

/-- Whether a tree opens with an item that loads a module for its effects only. -/
def opensWith (tree : HostTree) (specifier : String) : Bool :=
  match tree with
  | moduleTree _ (item :: _) => item.references specifier
  | scriptTree _ (s :: _) => s.requires specifier
  | moduleTree _ [] | scriptTree _ [] => false

/-- The call `require('x')` as a statement. -/
def Stmt.require (specifier : String) : Stmt :=
  .expr (.call (.expr (.ident "require")) [.plain (.str specifier)])

/-- How a host reads the code of a module: as top-level items, or not at all. -/
abbrev Reader : Type :=
  String → Option (List Item)

/-- The reader of a host that knows only code for modules that are loaded for their effects. No
literal holds a line feed or a carriage return, so such code is refused. -/
def readLoad : Reader := fun code =>
  if '\n' ∈ code.toList ∨ '\r' ∈ code.toList then none
  else
    match Statement.parse code with
    | .error _ => none
    | .ok s =>
      match s.kind with
      | .load .requireCall specifier => some [.stmt (.require specifier)]
      | .load .importDecl specifier => some [.importDecl specifier []]
      | .other _ => none

/-- The item that loads a module for its effects: the first one that the host reads from the code
for it. -/
def supportItem (read : Reader) (style : ImportStyle) (specifier : String) :
    Except InjectError Item :=
  let code := style.render specifier
  match read code with
  | none => .error (.template code .refused)
  | some [] => .error (.template code .noStatement)
  | some (item :: _) => .ok item

/-- Puts an item in front of the body. A script takes only statements. -/
def prepend? (item : Item) (tree : HostTree) : Option HostTree :=
  match tree, item with
  | moduleTree shebang body, item => some (moduleTree shebang (item :: body))
  | scriptTree shebang body, .stmt s => some (scriptTree shebang (s :: body))
  | scriptTree _ _, _ => none

end HostTree

namespace Injector

/-- Puts the item for a placement in front of a tree, given how the host reads code, and says
whether it did. A tree that opens with the item is left alone, and so is one that does not take
it. -/
def injectTreeInPlace (i : Injector) (read : HostTree.Reader) (p : Placement) (tree : HostTree) :
    Except InjectError Bool × HostTree :=
  let style := i.layout.importStyle
  if tree.opensWith p.specifier then (.ok false, tree)
  else
    match HostTree.supportItem read style p.specifier with
    | .error e => (.error e, tree)
    | .ok item =>
      match tree.prepend? item with
      | some tree => (.ok true, tree)
      | none => (.error (.template (style.render p.specifier) .importInScript), tree)

/-- Prepares a file and injects the item into its tree, given how the host reads code, and says
whether that was changed. -/
def transformTreeInPlace (i : Injector) (read : HostTree.Reader) (tree : HostTree) (file : Path)
    (r : Run) : Except InjectError Bool × HostTree × Run :=
  i.transformWith (i.injectTreeInPlace read) tree file r

/-- The tree that a transformation makes where the host knows only code that loads modules, or
`none` if the tree stays as it is. -/
def transformTree (i : Injector) (tree : HostTree) (file : Path) (r : Run) :
    Except InjectError (Option HostTree) × Run :=
  let (answer, tree, r) := i.transformTreeInPlace HostTree.readLoad tree file r
  (made (answer, tree), r)

end Injector

end Preload
