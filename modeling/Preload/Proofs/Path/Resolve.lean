import Mathlib.Data.List.Basic
import Preload.Path.Resolve
import Preload.Proofs.Path.Segments

/-!
# Resolving as a walk

Below the root, resolving a path is a walk through directories: each step enters the directory of a
name or leaves the one it stands in. `Path.follow` is this walk on lists of names, and all that
resolving an absolute path does.

Main statements:
* `Path.clean_root`: resolving is walking from the root;
* `Path.absolutize_eq` and `Path.joinUnder_ofNames`: absolute and joined paths as walks;
* `Path.follow_append_of_staysWithin`: a walk that stays within a directory is the same below any
  other.
-/

namespace Preload.Path

/-- Where some steps lead from the directory of some names. Nothing leads out of the root. -/
def follow (names : List OsString) : List Component → List OsString
  | [] => names
  | .name s :: cs => follow (names ++ [s]) cs
  | .up :: cs => follow names.dropLast cs
  | _ :: cs => follow names cs

/-- The absolute path of some names. -/
def ofNames (names : List OsString) : Path :=
  ofComponents (.root :: names.map .name)

/-- Whether some names can be spelled as segments. -/
def AreNames (names : List OsString) : Prop :=
  ∀ s ∈ names, (Component.name s).Spellable

theorem areNames_nil : AreNames [] := by
  simp [AreNames]

/-! ## Walks -/

theorem follow_append (names : List OsString) (cs ds : List Component) :
    follow names (cs ++ ds) = follow (follow names cs) ds := by
  -- a walk in two parts is one walk; each component is taken on its own
  induction cs generalizing names with
  | nil => rfl
  | cons c cs ih =>
    rw [List.cons_append]
    cases c with
    | name s => exact ih _
    | up => exact ih _
    | root => exact ih _
    | here => exact ih _

/-- Names are entered one after the other. -/
theorem follow_names (names below : List OsString) :
    follow names (below.map .name) = names ++ below := by
  induction below generalizing names with
  | nil => rw [List.map_nil, follow, List.append_nil]
  | cons s below ih => rw [List.map_cons, follow, ih, List.append_assoc, List.singleton_append]

/-- The names where a walk leads to are those where it starts or those that it enters. -/
theorem mem_of_mem_follow {names : List OsString} {cs : List Component} {s : OsString}
    (h : s ∈ follow names cs) : s ∈ names ∨ Component.name s ∈ cs := by
  induction cs generalizing names with
  | nil => exact .inl h
  | cons c cs ih =>
    cases c with
    | name t =>
      -- behind this name it is one of those that the rest of the walk starts from
      obtain hmem | hmem := ih h
      · obtain hmem | hmem := List.mem_append.1 hmem
        · exact .inl hmem
        · rw [List.mem_singleton.1 hmem]
          exact .inr List.mem_cons_self
      · exact .inr (List.mem_cons_of_mem _ hmem)
    -- going up only loses names
    | up => exact (ih h).imp (fun hmem => List.dropLast_subset names hmem) (List.mem_cons_of_mem _)
    | root => exact (ih h).imp_right (List.mem_cons_of_mem _)
    | here => exact (ih h).imp_right (List.mem_cons_of_mem _)

theorem AreNames.follow {names : List OsString} (h : AreNames names) {cs : List Component}
    (hcs : ∀ c ∈ cs, c.Spellable) : AreNames (follow names cs) := by
  intro s hs
  obtain hmem | hmem := mem_of_mem_follow hs
  · exact h s hmem
  · exact hcs _ hmem

/-- Resolving keeps the names that the walk has entered, the last one first. -/
theorem foldl_enter (names : List OsString) {cs : List Component} (hcs : ∀ c ∈ cs, c ≠ .root) :
    cs.foldl enter ((names.map .name).reverse ++ [.root]) =
      ((follow names cs).map .name).reverse ++ [.root] := by
  -- the names that are entered so far are kept in reverse on top of the root
  induction cs generalizing names with
  | nil => rfl
  | cons c cs ih =>
    rw [List.forall_mem_cons] at hcs
    rw [List.foldl_cons]
    cases c with
    -- there is no root behind the first component
    | root => exact absurd rfl hcs.1
    | here => exact ih names hcs.2
    | name s =>
      have henter : enter ((names.map .name).reverse ++ [.root]) (.name s) =
          ((names ++ [s]).map .name).reverse ++ [.root] := by
        simp [enter]
      rw [henter, ih (names ++ [s]) hcs.2, follow]
    | up =>
      have henter : enter ((names.map .name).reverse ++ [.root]) .up =
          (names.dropLast.map .name).reverse ++ [.root] := by
        -- at the root nothing changes, and elsewhere the last name is dropped
        obtain rfl | ⟨names, s, rfl⟩ := List.eq_nil_or_concat' names
        · rfl
        · simp [enter]
      rw [henter, ih names.dropLast hcs.2, follow]

theorem clean_eq (cs : List Component) : clean cs = ofComponents (cs.foldl enter []).reverse := rfl

/-- Resolving is walking from the root. -/
theorem clean_root {cs : List Component} (hcs : ∀ c ∈ cs, c ≠ .root) :
    clean (.root :: cs) = ofNames (follow [] cs) := by
  -- the walk begins below the root with no names
  have hfold : cs.foldl enter [.root] = ((follow [] cs).map .name).reverse ++ [.root] :=
    foldl_enter [] hcs
  rw [clean_eq, List.foldl_cons, show enter [] .root = [.root] from rfl, hfold, ofNames]
  simp

/-! ## Steps behind a path -/

/-- Of a relative path the steps are entered; a dot in front of them says nothing. -/
theorem foldl_components_of_not_isAbsolute {p : Path} (h : ¬p.isAbsolute) (done : List Component) :
    p.components.foldl enter done = p.steps.foldl enter done := by
  obtain hcomponents | hcomponents := components_of_not_isAbsolute h
  · rw [hcomponents]
  · rw [hcomponents, List.foldl_cons]
    rfl

theorem absolutize_of_not_isAbsolute {p : Path} (h : ¬p.isAbsolute) (cwd : Path) :
    p.absolutize cwd = clean (cwd.components ++ p.steps) := by
  -- both walk the working directory first; then components and steps lead to the same place
  rw [absolutize, if_neg h, clean_eq, clean_eq, List.foldl_append, List.foldl_append,
    foldl_components_of_not_isAbsolute h]

theorem joinUnder_eq (root p : Path) : root.joinUnder p = clean (root.components ++ p.steps) := by
  rw [joinUnder, filter_isStep_components]

/-! ## Absolute paths -/

theorem AreNames.spellable {names : List OsString} (h : AreNames names) :
    ∀ c ∈ names.map Component.name, c.Spellable := by
  intro c hc
  obtain ⟨s, hs, rfl⟩ := List.mem_map.1 hc
  exact h s hs

theorem isAbsolute_ofNames (names : List OsString) : (ofNames names).isAbsolute :=
  isAbsolute_ofComponents _

theorem components_ofNames {names : List OsString} (h : AreNames names) :
    (ofNames names).components = .root :: names.map .name :=
  components_ofComponents h.spellable

/-- Joining goes on with the walk. -/
theorem joinUnder_ofNames {names : List OsString} (h : AreNames names) (p : Path) :
    (ofNames names).joinUnder p = ofNames (follow names p.steps) := by
  -- a component that a segment can stand for is not the root, so the walk never starts anew
  have hroot : ∀ c ∈ names.map Component.name ++ p.steps, c ≠ .root :=
    List.forall_mem_append.2 ⟨fun c hc => ne_root_of_spellable (h.spellable c hc),
      fun c hc => ne_root_of_spellable (spellable_of_mem_steps hc)⟩
  rw [joinUnder_eq, components_ofNames h, List.cons_append, clean_root hroot, follow_append,
    follow_names, List.nil_append]

/-- The parent of a file is the directory it is in. -/
theorem parent?_ofNames {names : List OsString} {s : OsString} (h : AreNames (names ++ [s])) :
    (ofNames (names ++ [s])).parent? = some (ofNames names) := by
  have hspellable := h.spellable
  rw [List.map_append] at hspellable
  rw [ofNames, List.map_append]
  exact parent?_ofComponents hspellable

/-- A path is resolved from the root, or from the working directory if it is relative. -/
theorem absolutize_eq {cwd : Path} (hcwd : cwd.isAbsolute) (p : Path) :
    p.absolutize cwd =
      ofNames (follow (if p.isAbsolute then [] else follow [] cwd.steps) p.steps) := by
  have hsteps (q : Path) : ∀ c ∈ q.steps, c ≠ .root :=
    fun c hc => ne_root_of_spellable (spellable_of_mem_steps hc)
  by_cases hp : p.isAbsolute
  · -- an absolute path is walked from the root, whatever the working directory is
    rw [absolutize, if_pos hp, if_pos hp, components_of_isAbsolute hp, clean_root (hsteps p)]
  · -- a relative path goes on where the walk of the working directory ends
    have hroot : ∀ c ∈ cwd.steps ++ p.steps, c ≠ .root :=
      List.forall_mem_append.2 ⟨hsteps cwd, hsteps p⟩
    rw [absolutize_of_not_isAbsolute hp, if_neg hp, components_of_isAbsolute hcwd, List.cons_append,
      clean_root hroot, follow_append]

/-- A resolved path is made of names. -/
theorem exists_absolutize_eq_ofNames {cwd : Path} (hcwd : cwd.isAbsolute) (p : Path) :
    ∃ names, AreNames names ∧ p.absolutize cwd = ofNames names := by
  refine ⟨_, ?_, absolutize_eq hcwd p⟩
  -- the names of the walk are those of the working directory and of the path
  refine AreNames.follow ?_ fun c hc => spellable_of_mem_steps hc
  split
  · exact areNames_nil
  · exact areNames_nil.follow fun c hc => spellable_of_mem_steps hc

/-! ## Walks that stay within a directory -/

/-- Whether a walk that starts `depth` directories below another one never leaves that one. -/
def staysWithin (depth : Nat) : List Component → Bool
  | [] => true
  | .name _ :: cs => staysWithin (depth + 1) cs
  | .up :: cs => depth ≠ 0 && staysWithin (depth - 1) cs
  | _ :: cs => staysWithin depth cs

/-- A walk that stays within a directory is the same below any other. -/
theorem follow_append_of_staysWithin (base below : List OsString) {cs : List Component}
    (h : staysWithin below.length cs) : follow (base ++ below) cs = base ++ follow below cs := by
  -- the names below the base change from step to step, so the claim is for all of them
  induction cs generalizing below with
  | nil => rfl
  | cons c cs ih =>
    cases c with
    | name s =>
      -- one name further down the walk is one directory deeper
      have hcs : staysWithin (below ++ [s]).length cs := by
        rw [List.length_append]
        exact h
      rw [follow, follow, List.append_assoc, ih (below ++ [s]) hcs]
    | up =>
      -- the walk is below the base, so the name it leaves is none of the base
      obtain ⟨hdepth, hcs⟩ : below.length ≠ 0 ∧ staysWithin (below.length - 1) cs := by
        simpa [staysWithin] using h
      have hne : below ≠ [] := fun hnil => hdepth (by rw [hnil]; rfl)
      rw [← List.length_dropLast] at hcs
      rw [follow, follow, List.dropLast_append_of_ne_nil hne, ih below.dropLast hcs]
    | root => exact ih below h
    | here => exact ih below h

end Preload.Path
