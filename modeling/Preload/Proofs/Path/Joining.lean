import Preload.Proofs.Path.Location
import Preload.Proofs.Path.Parent

/-!
# Joined paths

Resolving leaves components in which nothing cancels any more: names behind the root, or behind
steps up that a relative path opens with (`Settled`). These are the components of the path that is
spelled from them, and resolving them again changes nothing. So it makes no difference whether a
path is resolved before more is joined to it, also where the rest climbs out of it.

Main statements:
* `Path.settled_components`: what resolving the components of a path leaves;
* `Path.clean_components_clean_append`: a path may be resolved before more is joined to it;
* `Path.absolutize_eq_clean_push` and `Path.joinUnder_eq_clean_push`: both ways of joining as texts;
* `Path.joinUnder_joins`: what joining below a root is, once and twice.
-/

namespace Preload.Path

/-! ## What resolving leaves -/

/-- Whether some components, of which the last one comes first, are such as resolving leaves. -/
inductive Settled : List Component → Prop
  | root : Settled [.root]
  | ups (n : Nat) : Settled (List.replicate n .up)
  | name {s : OsString} {done : List Component} (spellable : (Component.name s).Spellable)
      (below : Settled done) : Settled (.name s :: done)

namespace Settled

variable {done : List Component}

theorem enter (h : Settled done) {c : Component} (hc : c.Spellable) : Settled (enter done c) := by
  cases c with
  | root => exact absurd rfl (ne_root_of_spellable hc)
  | here => cases isStep_of_spellable hc
  | name s => exact .name hc h
  | up =>
    -- a step up is lost at the root, stays behind other steps up and cancels a name
    cases h with
    | root => exact .root
    | ups n =>
      cases n with
      | zero => exact .ups 1
      | succ n => exact .ups (n + 2)
    | name _ below => exact below

/-- Resolving goes from settled components to settled components. -/
theorem foldl_enter (h : Settled done) {cs : List Component} (hcs : ∀ c ∈ cs, c.Spellable) :
    Settled (cs.foldl Path.enter done) := by
  induction cs generalizing done with
  | nil => exact h
  | cons c cs ih =>
    -- what is settled after the first component is the start for the rest
    rw [List.forall_mem_cons] at hcs
    exact ih (h.enter hcs.1) hcs.2

/-- Nothing cancels in what is settled. -/
theorem foldl_reverse (h : Settled done) : done.reverse.foldl Path.enter [] = done := by
  induction h with
  | root => rfl
  | ups n =>
    rw [List.reverse_replicate]
    induction n with
    | zero => rfl
    | succ n ih =>
      -- a step up stays behind other steps up
      rw [List.replicate_succ', List.foldl_append, ih, ← List.replicate_succ']
      cases n <;> rfl
  | name _ _ ih =>
    rw [List.reverse_cons, List.foldl_append, ih]
    rfl

/-- What is settled can be spelled, but for the root. -/
theorem reverse_cases (h : Settled done) :
    (∃ cs, done.reverse = .root :: cs ∧ ∀ c ∈ cs, c.Spellable) ∨
      ∀ c ∈ done.reverse, c.Spellable := by
  induction h with
  | root => exact .inl ⟨[], rfl, by simp⟩
  | ups n =>
    refine .inr fun c hc => ?_
    -- steps up have one spelling
    rw [List.reverse_replicate] at hc
    rw [List.eq_of_mem_replicate hc]
    exact spellable_up
  | @name s done spellable _ ih =>
    rw [List.reverse_cons]
    -- the name comes last in the reversed list, behind the root or behind steps
    obtain ⟨cs, hcs, hspellable⟩ | hspellable := ih
    · rw [hcs]
      exact .inl ⟨_, rfl, List.forall_mem_append.2 ⟨hspellable, List.forall_mem_singleton.2 spellable⟩⟩
    · exact .inr (List.forall_mem_append.2 ⟨hspellable, List.forall_mem_singleton.2 spellable⟩)

end Settled

/-- A relative path has the steps it was made of. -/
theorem components_ofComponents_of_spellable {cs : List Component} (h : ∀ c ∈ cs, c.Spellable)
    (hne : cs ≠ []) : (ofComponents cs).components = cs := by
  obtain ⟨c, cs, rfl⟩ := List.exists_cons_of_ne_nil hne
  have hc := h c List.mem_cons_self
  have hpath : ofComponents (c :: cs) = withLead none ((c :: cs).map (·.text.bytes)) := by
    have hspelling :
        ofComponents (c :: cs) = ⟨OsString.intercalate "/" ((c :: cs).map Component.text)⟩ := by
      -- without the root in front the texts are joined by slashes and nothing else
      cases c with
      | root => exact absurd rfl (ne_root_of_spellable hc)
      | _ => rfl
    have hnone (segments : List (List UInt8)) :
        withLead none segments = ⟨⟨[slash].intercalate segments⟩⟩ := rfl
    rw [hspelling, hnone, ← bytes_intercalate_texts]
  have hslash : ∀ segment ∈ (c :: cs).map (·.text.bytes), slash ∉ segment := by
    intro segment hsegment
    obtain ⟨d, hd, rfl⟩ := List.mem_map.1 hsegment
    exact (h d hd).1
  -- the first segment is neither empty nor a dot
  have hlead : lead? ((c :: cs).map (·.text.bytes)) = none := by
    have hblank := isBlankSegment_text hc
    rw [List.map_cons]
    unfold lead?
    split
    · next hempty =>
      rw [(List.cons.inj hempty).1] at hblank
      cases hblank
    · next hdot =>
      rw [(List.cons.inj hdot).1] at hblank
      cases hblank
    · rfl
  rw [hpath, components_withLead_none hslash hlead, filterMap_stepOf?_texts h]

/-- Settled components are those that are found in the path spelled from them; no components at all
are spelled as a dot, which says nothing. -/
theorem Settled.foldl_components {done : List Component} (h : Settled done) :
    (ofComponents done.reverse).components.foldl Path.enter [] = done := by
  obtain ⟨cs, hcs, hspellable⟩ | hspellable := h.reverse_cases
  · -- the root is put in front by spelling, and is found there again
    rw [hcs, components_ofComponents hspellable, ← hcs, h.foldl_reverse]
  · by_cases hnil : done = []
    · subst hnil
      decide
    · rw [components_ofComponents_of_spellable hspellable (by simpa using hnil), h.foldl_reverse]

/-- Resolving a path is resolving its steps, behind the root if it is absolute. -/
theorem foldl_components (p : Path) :
    p.components.foldl enter [] = p.steps.foldl enter (if p.isAbsolute then [.root] else []) := by
  by_cases hp : p.isAbsolute
  · rw [if_pos hp, components_of_isAbsolute hp]
    rfl
  · rw [if_neg hp, foldl_components_of_not_isAbsolute hp]

/-- What resolving the components of a path leaves is settled. -/
theorem settled_components (p : Path) : Settled (p.components.foldl enter []) := by
  rw [foldl_components]
  -- the components are the root and steps, or steps alone
  refine Settled.foldl_enter ?_ fun c hc => spellable_of_mem_steps hc
  split
  · exact .root
  · exact .ups 0

/-! ## More behind a resolved path -/

/-- A path may be resolved before more is joined to it. -/
theorem clean_components_clean_append {cs : List Component} (h : Settled (cs.foldl enter []))
    (ds : List Component) : clean ((clean cs).components ++ ds) = clean (cs ++ ds) := by
  -- what was resolved is found again in its components, and both ways go on from there
  rw [clean_eq, clean_eq cs, clean_eq, List.foldl_append, List.foldl_append, h.foldl_components]

/-- What is resolved of a path and the steps of another one is settled. -/
theorem settled_components_append_steps (root p : Path) :
    Settled ((root.components ++ p.steps).foldl enter []) := by
  -- further steps keep settled what is settled
  rw [List.foldl_append]
  exact (settled_components root).foldl_enter fun c hc => spellable_of_mem_steps hc

theorem steps_append_slash (a b : OsString) : steps ⟨a ++ "/" ++ b⟩ = steps ⟨a⟩ ++ steps ⟨b⟩ := by
  rw [steps, segments_append_slash, List.filterMap_append]
  rfl

/-- Joining twice is joining the two paths with a slash in between. -/
theorem joinUnder_joinUnder (root a b : Path) :
    (root.joinUnder a).joinUnder b = root.joinUnder ⟨a.spelling ++ "/" ++ b.spelling⟩ := by
  -- joining resolves the steps behind those of the root, and joined texts have the steps of both
  rw [joinUnder_eq (root.joinUnder a), joinUnder_eq root a,
    clean_components_clean_append (settled_components_append_steps root a), joinUnder_eq,
    steps_append_slash, List.append_assoc]

/-! ## Below a root -/

/-- What is left without slashes in front is relative. -/
theorem not_isAbsolute_withoutRoot (p : Path) : ¬p.withoutRoot.isAbsolute := by
  rw [isAbsolute_iff, withoutRoot]
  intro hhead
  -- the first byte that is left is no slash
  have hnot := List.head?_dropWhile_not (· = slash) p.spelling.bytes
  rw [hhead] at hnot
  simp at hnot

/-- Joining below a root is resolving a path that is relative to it, for want of slashes in
front. -/
theorem joinUnder_eq_absolutize (root p : Path) : root.joinUnder p = p.withoutRoot.absolutize root := by
  rw [absolutize_of_not_isAbsolute (not_isAbsolute_withoutRoot p), steps_withoutRoot, joinUnder_eq]

/-! ## Joining texts -/

/-- The path `p` with `q` behind it, which a slash separates unless there is one or `p` has no text.
An absolute path takes the place of `p`. -/
def push (p q : Path) : Path :=
  if q.isAbsolute then q
  else if p.isEmpty ∨ p.spelling.bytes.getLast? = some slash then ⟨p.spelling ++ q.spelling⟩
  else ⟨p.spelling ++ "/" ++ q.spelling⟩

section Push

variable {q : Path} (hq : ¬q.isAbsolute)
include hq

theorem isAbsolute_push (p : Path) : (p.push q).isAbsolute = p.isAbsolute := by
  have hhead : q.spelling.bytes.head? ≠ some slash := mt isAbsolute_iff.2 hq
  rw [Bool.eq_iff_iff, isAbsolute_iff, isAbsolute_iff, push, if_neg hq]
  -- what is pushed behind an empty path would make it absolute only if it were absolute itself
  cases hbytes : p.spelling.bytes with
  | nil =>
    have hempty : p.isEmpty := by simpa [isEmpty] using hbytes
    rw [if_pos (.inl hempty), OsString.bytes_append, hbytes]
    simpa using hhead
  | cons b bs =>
    split <;> simp [hbytes]

theorem steps_push (p : Path) : (p.push q).steps = p.steps ++ q.steps := by
  rw [push, if_neg hq]
  split
  · next hends =>
    obtain hempty | hslash := hends
    · -- nothing is in front, so only the steps of the second path count
      obtain rfl : p = ⟨⟨[]⟩⟩ := congrArg mk (OsString.ext (by simpa [isEmpty] using hempty))
      rfl
    · -- the slash in between is the last one of `p`
      obtain ⟨bs, hbs⟩ := List.getLast?_eq_some_iff.1 hslash
      have hspelling : p.spelling = ⟨bs⟩ ++ "/" := by
        ext1
        simpa using hbs
      have hp : p.steps = steps ⟨⟨bs⟩⟩ := by
        have hsteps := steps_append_slash ⟨bs⟩ ⟨[]⟩
        have hnil : p.spelling ++ ⟨[]⟩ = p.spelling := OsString.ext (List.append_nil _)
        rw [← hspelling, hnil] at hsteps
        rw [hsteps]
        exact List.append_nil _
      rw [hspelling, steps_append_slash, hp]
  · exact steps_append_slash p.spelling q.spelling

/-- What stands behind a path is resolved behind it. -/
theorem foldl_components_push (p : Path) :
    (p.push q).components.foldl enter [] = q.steps.foldl enter (p.components.foldl enter []) := by
  rw [foldl_components, isAbsolute_push hq, steps_push hq, List.foldl_append, ← foldl_components]

end Push

/-- A path is resolved as the text of its directory and its own, put together. -/
theorem absolutize_eq_clean_push (p cwd : Path) : p.absolutize cwd = clean (cwd.push p).components := by
  by_cases hp : p.isAbsolute
  · rw [absolutize, if_pos hp, push, if_pos hp]
  · rw [absolutize_of_not_isAbsolute hp, clean_eq, clean_eq, foldl_components_push hp, List.foldl_append]

/-- The text of a step is a path with that step. -/
theorem steps_text {c : Component} (h : c.Spellable) : steps ⟨c.text⟩ = [c] := by
  rw [steps, segments, splitSlashes_of_not_mem h.1, List.filterMap_cons, h.2]
  rfl

theorem not_isAbsolute_text {c : Component} (h : c.Spellable) : ¬isAbsolute ⟨c.text⟩ := by
  -- an absolute path has a slash in front, and no step has one anywhere
  rw [isAbsolute_iff]
  exact fun hhead => h.1 (List.mem_of_mem_head? hhead)

/-- Steps that are pushed one after the other are resolved one after the other. -/
theorem foldl_components_foldl_push (p : Path) {cs : List Component} (h : ∀ c ∈ cs, c.Spellable) :
    (cs.foldl (fun q c => q.push ⟨c.text⟩) p).components.foldl enter [] =
      cs.foldl enter (p.components.foldl enter []) := by
  induction cs generalizing p with
  | nil => rfl
  | cons c cs ih =>
    -- each step is pushed onto what is there and resolved behind it
    rw [List.forall_mem_cons] at h
    rw [List.foldl_cons, ih _ h.2, foldl_components_push (not_isAbsolute_text h.1), steps_text h.1]
    rfl

/-- Joining below a root is resolving the text of the root with those of the steps behind it. -/
theorem joinUnder_eq_clean_push (root p : Path) :
    root.joinUnder p =
      clean ((p.components.filter Component.isStep).foldl (fun q c => q.push ⟨c.text⟩) root).components := by
  rw [joinUnder_eq, clean_eq, clean_eq, filter_isStep_components,
    foldl_components_foldl_push root fun c hc => spellable_of_mem_steps hc, List.foldl_append]

/-! ## Both ways of joining -/

/-- Joining a path below a root pushes its steps behind the root, one after the other, and resolves
the text that this gives. It is the same as resolving, in the root, the path without the slashes in
front of it, where its text is pushed as a whole. Joining another path to the result is joining both
with a slash in between. -/
theorem joinUnder_joins (root a b : Path) :
    root.joinUnder a =
        clean ((a.components.filter Component.isStep).foldl (fun p c => p.push ⟨c.text⟩) root).components ∧
      a.withoutRoot.absolutize root = clean (root.push a.withoutRoot).components ∧
      root.joinUnder a = a.withoutRoot.absolutize root ∧
      (root.joinUnder a).joinUnder b = root.joinUnder ⟨a.spelling ++ "/" ++ b.spelling⟩ :=
  ⟨joinUnder_eq_clean_push root a, absolutize_eq_clean_push a.withoutRoot root,
    joinUnder_eq_absolutize root a, joinUnder_joinUnder root a b⟩

/-- Steps up are kept where they climb out of a relative root, and lost above the root of the file
system. -/
example : joinUnder ⟨"a"⟩ ⟨"/.."⟩ = ⟨"."⟩ ∧ joinUnder ⟨"."⟩ ⟨"../b"⟩ = ⟨"../b"⟩ ∧
    joinUnder ⟨"a"⟩ ⟨"/..//../b"⟩ = ⟨"../b"⟩ ∧ joinUnder ⟨"/a"⟩ ⟨"../../b"⟩ = ⟨"/b"⟩ := by
  decide +kernel

end Preload.Path
