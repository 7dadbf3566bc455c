import Preload.Text.OsString
/-!
# Paths

A path is a text of bytes whose segments are separated by slashes. What it names is its list of
components: repeated slashes, slashes at the end and dots after the start say nothing. Wherever
paths are compared, their components are; `..` is not resolved for that. Names need not be UTF-8;
only where a path is shown (`Path.text`) are they.
-/

namespace Preload

/-- A path as it is spelled. -/
@[ext] structure Path where
  spelling : OsString
  deriving DecidableEq, Repr, Inhabited

namespace Path

/-- The path as it is shown. -/
def text (p : Path) : String :=
  p.spelling.lossy

/-- The text of a path that is spelled in UTF-8. -/
def toString? (p : Path) : Option String :=
  p.spelling.toString?

/-- The byte of `/`, which separates segments. -/
def slash : UInt8 := 0x2F

/-- The byte of `.`. -/
@[match_pattern] def dot : UInt8 := 0x2E

/-- A step of a path. -/
inductive Component where
  /-- The root of the file system, in front of an absolute path. -/
  | root
  /-- The directory itself, in front of a relative path. -/
  | here
  /-- The directory above. -/
  | up
  /-- The file or directory of a name. -/
  | name (text : OsString)
  deriving DecidableEq, Repr, Inhabited

namespace Component

/-- The text of a component as a segment. -/
def text : Component → OsString
  | root => ""
  | here => "."
  | up => ".."
  | name s => s

/-- Whether the component leads to another place. -/
def isStep : Component → Bool
  | up | name _ => true
  | root | here => false

end Component

/-- The parts of a text between slashes, one more than there are slashes. -/
def splitSlashes : List UInt8 → List (List UInt8)
  | [] => [[]]
  | b :: bs =>
    if b = slash then [] :: splitSlashes bs
    else
      match splitSlashes bs with
      | [] => [[b]]
      | s :: ss => (b :: s) :: ss

/-- The segments of a path. -/
def segments (p : Path) : List (List UInt8) :=
  splitSlashes p.spelling.bytes

/-- Whether a segment says nothing, at least after the start of a path. -/
def isBlankSegment (segment : List UInt8) : Bool :=
  segment == [] || segment == [dot]

/-- The step that a segment stands for. -/
def stepOf? (segment : List UInt8) : Option Component :=
  if isBlankSegment segment then none
  else if segment = [dot, dot] then some .up
  else some (.name ⟨segment⟩)

/-- The root or the dot that a path opens with, given its segments. -/
def lead? : List (List UInt8) → Option Component
  | [] :: _ :: _ => some .root
  | [dot] :: _ => some .here
  | _ => none

/-- The components of a path. -/
def components (p : Path) : List Component :=
  (lead? p.segments).toList ++ p.segments.filterMap stepOf?

/-- Whether the path starts at the root. -/
def isAbsolute (p : Path) : Bool :=
  lead? p.segments == some .root

/-- Whether the path has no text. -/
def isEmpty (p : Path) : Bool :=
  p.spelling.bytes == []

/-- The path of some components. No components at all are the directory itself. -/
def ofComponents : List Component → Path
  | [] => ⟨"."⟩
  | .root :: cs => ⟨"/" ++ OsString.intercalate "/" (cs.map Component.text)⟩
  | cs => ⟨OsString.intercalate "/" (cs.map Component.text)⟩

/-- The front of a path up to some of its segments after the lead. -/
def withLead (lead : Option Component) (segments : List (List UInt8)) : Path :=
  let body := [slash].intercalate segments
  match lead, segments with
  | some .root, _ => ⟨⟨slash :: body⟩⟩
  | some .here, [] => ⟨"."⟩
  | some .here, _ => ⟨⟨dot :: slash :: body⟩⟩
  | _, _ => ⟨⟨body⟩⟩

/-- The path without its last component, spelled as it was up to there, or `none` for the root and
for the empty path. -/
def parent? (p : Path) : Option Path :=
  let lead := lead? p.segments
  let body := if lead.isSome then p.segments.drop 1 else p.segments
  match body.reverse.dropWhile isBlankSegment, lead with
  | _ :: before, lead => some (withLead lead (before.dropWhile isBlankSegment).reverse)
  | [], some .here => some ⟨""⟩
  | [], _ => none

end Path

end Preload
