import Preload.ImportStyle
import Preload.Json
import Preload.Path
/-!
# Options

What a build says about the support module: the source and output trees, the entry files that have
to load the module, where it goes, and how it is loaded.
-/

namespace Preload

/-- The options of an injector. -/
structure Options where
  /-- The source tree, which entries are relative to. -/
  src : Path
  /-- The output tree, which receives the support module. -/
  dest : Path
  /-- The entry files. -/
  entries : List Path
  /-- The place of the support module below both trees. -/
  supportModulePath : Path
  /-- Whether the module is written once for each output tree, or else once for each entry. -/
  cache : Bool
  importStyle : ImportStyle
  deriving DecidableEq, Repr

namespace Options

/-- The place of the support module if none is given. -/
def defaultSupportModulePath : Path :=
  ⟨"_build_modules/source-map-support-register.js"⟩

/-- The options of a build that says nothing. -/
def default : Options where
  src := ⟨"./src"⟩
  dest := ⟨"./build"⟩
  entries := [⟨"index.js"⟩]
  supportModulePath := defaultSupportModulePath
  cache := true
  importStyle := .requireCall

instance : Inhabited Options := ⟨default⟩

/-- An empty place for the support module means the default one. -/
def normalized (o : Options) : Options :=
  if o.supportModulePath.isEmpty then { o with supportModulePath := defaultSupportModulePath } else o

/-- The JSON form of options, with their paths as they are shown. -/
def toJson (o : Options) : Json :=
  .object
    [("src", .string o.src.text),
      ("dest", .string o.dest.text),
      ("entries", .array (o.entries.map (.string ·.text))),
      ("supportModulePath", .string o.supportModulePath.text),
      ("cache", .bool o.cache),
      ("importStyle", .string o.importStyle.keyword)]

/-- All paths of options. -/
def paths (o : Options) : List Path :=
  o.src :: o.dest :: o.supportModulePath :: o.entries

/-- Options as they are stored. Those with a path that is not UTF-8 cannot be. -/
def toJson? (o : Options) : Option Json :=
  if o.paths.all (·.toString?.isSome) then some o.toJson else none

/-- The name of an option. -/
inductive Field where
  | src
  | dest
  | entries
  | supportModulePath
  | cache
  | importStyle
  deriving DecidableEq, Repr, Inhabited

namespace Field

/-- All options, in the order of their declaration. -/
def all : List Field :=
  [src, dest, entries, supportModulePath, cache, importStyle]

/-- The key of an option. -/
def key : Field → String
  | src => "src"
  | dest => "dest"
  | entries => "entries"
  | supportModulePath => "supportModulePath"
  | cache => "cache"
  | importStyle => "importStyle"

/-- The option with a key. -/
def ofKey? (key : String) : Option Field :=
  all.find? (·.key = key)

end Field

end Options

end Preload
