import Preload.Text.Quoted
/-!
# Import styles

A module that is loaded for its effects only is named either by a call, `require('x')`, or by a
declaration, `import 'x'`. `ImportStyle.render` writes such a statement without its semicolon.
-/

namespace Preload

/-- How a statement loads a module for its effects. -/
inductive ImportStyle where
  /-- The call `require('x')`. -/
  | requireCall
  /-- The declaration `import 'x'`. -/
  | importDecl
  deriving DecidableEq, Repr, Inhabited

namespace ImportStyle

/-- The keyword that opens the statement, which is also the name of the style in options. -/
def keyword : ImportStyle → String
  | requireCall => "require"
  | importDecl => "import"

/-- The style with keyword `s`, if there is one. -/
def ofKeyword? (s : String) : Option ImportStyle :=
  if s = "require" then some requireCall else if s = "import" then some importDecl else none

/-- The statement that loads `specifier`, without a semicolon. -/
def render (style : ImportStyle) (specifier : String) : String :=
  match style with
  | requireCall => "require(" ++ quote specifier ++ ")"
  | importDecl => "import " ++ quote specifier

@[simp] theorem ofKeyword?_keyword (style : ImportStyle) :
    ofKeyword? style.keyword = some style := by
  cases style <;> rfl

/-- Only its keyword names a style. -/
theorem eq_keyword_of_ofKeyword? {s : String} {style : ImportStyle}
    (h : ofKeyword? s = some style) : s = style.keyword := by
  unfold ofKeyword? at h
  split at h
  · next hcall => cases h; exact hcall
  split at h
  · next hdecl => cases h; exact hdecl
  · cases h

end ImportStyle

end Preload
