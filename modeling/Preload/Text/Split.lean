/-!
# Texts cut in two

A rule that reads from the front of a text gives a `Split`: what it took and what is left. Such a
rule loses nothing when `Split.joined` is the text it was given.
-/

namespace Preload

/-- A text cut in two. -/
structure Split where
  /-- The front part. -/
  taken : List Char
  /-- What follows it. -/
  rest : List Char
  deriving DecidableEq, Repr, Inhabited

namespace Split

/-- The whole text. -/
def joined (s : Split) : List Char :=
  s.taken ++ s.rest

/-- Puts `cs` in front of what was taken. -/
def push (cs : List Char) (s : Split) : Split :=
  ⟨cs ++ s.taken, s.rest⟩

/-- Cuts a text after the characters at its front that are in a class. -/
def run (inRun : Char → Bool) (cs : List Char) : Split :=
  ⟨cs.takeWhile inRun, cs.dropWhile inRun⟩

@[simp] theorem joined_mk (taken rest : List Char) : joined ⟨taken, rest⟩ = taken ++ rest := rfl

@[simp] theorem joined_push (cs : List Char) (s : Split) : (s.push cs).joined = cs ++ s.joined := by
  simp [joined, push]

@[simp] theorem joined_run (inRun : Char → Bool) (cs : List Char) : (run inRun cs).joined = cs := by
  simp [joined, run, List.takeWhile_append_dropWhile]

end Split

end Preload
