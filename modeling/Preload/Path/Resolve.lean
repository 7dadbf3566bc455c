import Preload.Path
/-!
# Resolving paths

Dots and `..` are resolved on the text alone, without a look at any disk: a name and a `..` after it
cancel, `..` at the root is dropped, and `..` at the front of a relative path stays.
-/

namespace Preload.Path

/-- Takes one more component onto those resolved so far, of which the last comes first. -/
def enter (done : List Component) (c : Component) : List Component :=
  match c, done with
  | .here, done => done
  | .up, .name _ :: done => done
  | .up, .root :: done => .root :: done
  | c, done => c :: done

/-- Resolves a list of components. -/
def resolve (cs : List Component) : List Component :=
  (cs.foldl enter []).reverse

/-- The resolved path of some components. -/
def clean (cs : List Component) : Path :=
  ofComponents (resolve cs)

/-- The resolved path of `p`, which starts at `cwd` if it is relative. -/
def absolutize (p cwd : Path) : Path :=
  if p.isAbsolute then clean p.components else clean (cwd.components ++ p.components)

/-- The resolved path of `p` below `root`, as if `p` were relative. It may climb out of `root`. -/
def joinUnder (root p : Path) : Path :=
  clean (root.components ++ p.components.filter Component.isStep)

end Preload.Path
