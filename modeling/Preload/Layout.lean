import Preload.Options
import Preload.Path.Relative
import Preload.Path.Resolve
/-!
# Layout of a build

Options resolved against the working directory: where the trees, the entries and the support module
are. From a layout follows, for each entry file, where the support module has to be written and how
the entry refers to it (`Layout.placement?`).
-/

namespace Preload

/-- Options resolved to places. -/
structure Layout where
  cwd : Path
  srcRoot : Path
  destRoot : Path
  /-- The entry files, in the order of the options. -/
  entries : List Path
  /-- The place that the support module is written to. -/
  supportDestPath : Path
  /-- The same place below the source tree, for the way from an entry to the module. -/
  supportSourcePath : Path
  cache : Bool
  importStyle : ImportStyle
  deriving DecidableEq, Repr, Inhabited

/-- Where the support module goes for an entry file. -/
structure Placement where
  /-- The entry file. -/
  entry : Path
  /-- The output tree. -/
  destRoot : Path
  /-- The file that the module is written to. -/
  destPath : Path
  /-- How the entry refers to the module. -/
  specifier : String
  deriving DecidableEq, Repr, Inhabited

namespace Layout

/-- The layout that options have in a working directory. -/
def ofOptions (options : Options) (cwd : Path) : Layout :=
  let srcRoot := options.src.absolutize cwd
  let destRoot := options.dest.absolutize cwd
  { cwd, srcRoot, destRoot
    entries := options.entries.map srcRoot.joinUnder
    supportDestPath := destRoot.joinUnder options.supportModulePath
    supportSourcePath := srcRoot.joinUnder options.supportModulePath
    cache := options.cache
    importStyle := options.importStyle }

/-- Whether a resolved path is that of an entry file. -/
def hasEntry (l : Layout) (path : Path) : Bool :=
  l.entries.any (·.components = path.components)

/-- Whether a file is an entry. -/
def isEntry (l : Layout) (file : Path) : Bool :=
  l.hasEntry (file.absolutize l.cwd)

/-- The directory that an entry file refers to modules from. -/
def directoryOf (l : Layout) (entry : Path) : Path :=
  entry.parent?.getD l.srcRoot

/-- The JSON form of a layout. -/
def toJson (l : Layout) : Json :=
  .object
    [("cwd", .string l.cwd.text),
      ("srcRoot", .string l.srcRoot.text),
      ("destRoot", .string l.destRoot.text),
      ("entries", .array (l.entries.map (.string ·.text))),
      ("supportDestPath", .string l.supportDestPath.text),
      ("supportSourcePath", .string l.supportSourcePath.text),
      ("cache", .bool l.cache),
      ("importStyle", .string l.importStyle.keyword)]

end Layout

namespace Placement

/-- The JSON form of a placement. -/
def toJson (p : Placement) : Json :=
  .object
    [("entry", .string p.entry.text),
      ("destRoot", .string p.destRoot.text),
      ("destPath", .string p.destPath.text),
      ("specifier", .string p.specifier)]

end Placement

end Preload
