import Preload.Path
/-!
# Relative module specifiers

The way from one directory to a place, as a list of components and as the text that a module uses to
refer to that place: it starts with `./` or `../`. The text shows the names on the way, so it refers
to the place only if these are UTF-8.
-/

namespace Preload.Path

/-- The way to `target` from `base` once their first components differ: out of `base`, then along
`target`. There is none out of a `..`. -/
def routeApart (base target : List Component) : Option (List Component) :=
  match target, base with
  | [], base => some (base.map fun _ => .up)
  | target, [] => some target
  | t :: target, .here :: base => (routeApart base target).map (t :: ·)
  | _ :: _, .up :: _ => none
  | target, _ :: base => some (.up :: base.map (fun _ => .up) ++ target)

/-- The way to `target` from `base`: the components they share in front are skipped. -/
def route (base target : List Component) : Option (List Component) :=
  match target, base with
  | t :: target, b :: base =>
    if t = b then route base target else routeApart (b :: base) (t :: target)
  | target, base => routeApart base target

/-- The text of a way, with its names as they are shown. -/
def specifierOf (way : List Component) : String :=
  let segments := (way.filter Component.isStep).map (·.text.lossy)
  let joined := String.intercalate "/" segments
  if segments.head? = some ".." then joined else "./" ++ joined

/-- The specifier of `target` for a module in the directory `base`. There is none between an
absolute and a relative path. -/
def moduleSpecifier? (base target : Path) : Option String :=
  if base.isAbsolute = target.isAbsolute then
    (route base.components target.components).map specifierOf
  else none

end Preload.Path
