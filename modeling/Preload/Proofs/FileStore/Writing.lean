import Preload.FileStore
import Preload.Proofs.Path.Parent

/-!
# Writing files

Writing a file and its directory takes two steps that may each be refused, and the second one looks
for what the first one made. `FileStore.writeWithParents_eq` says what comes of both: only a
read-only root stands in the way, and it leaves all files alone.

Main statements:
* `FileStore.isReadOnly_of_holder?`: what is below a read-only directory is read-only;
* `FileStore.writeWithParents_eq`: what writing a file and its directory does.
-/

namespace Preload.FileStore

/-! ## Holders -/

/-- The directory of a file is the place right above it. -/
theorem exists_components_of_holder? {path directory : Path} (h : holder? path = some directory) :
    directory.components ≠ [] ∧ ∃ c, path.components = directory.components ++ [c] := by
  obtain ⟨hparent, hempty⟩ := Option.filter_eq_some_iff.1 h
  -- a holder is not the empty path, and only that has no components
  refine ⟨fun hnil => ?_, Path.exists_components_of_parent? hparent⟩
  rw [Path.components_eq_nil_iff.1 hnil] at hempty
  cases hempty

/-- What is below a read-only directory is read-only. -/
theorem isReadOnly_of_holder? {path directory : Path} (h : holder? path = some directory)
    {s : FileStore} (hdirectory : s.isReadOnly directory = true) : s.isReadOnly path = true := by
  obtain ⟨-, c, hpath⟩ := exists_components_of_holder? h
  unfold isReadOnly at hdirectory ⊢
  obtain ⟨root, hroot, hprefix⟩ := List.any_eq_true.1 hdirectory
  rw [List.isPrefixOf_iff_prefix] at hprefix
  refine List.any_eq_true.2 ⟨root, hroot, ?_⟩
  rw [List.isPrefixOf_iff_prefix, hpath]
  exact hprefix.trans (List.prefix_append _ _)

theorem mem_ancestors_self {place : Place} (h : place ≠ []) : place ∈ ancestors place := by
  induction place with
  | nil => exact absurd rfl h
  | cons c cs ih =>
    rw [ancestors, List.mem_cons]
    -- the whole place is the longest of its own fronts
    cases cs with
    | nil => exact .inl rfl
    | cons d ds => exact .inr (List.mem_map_of_mem (ih (by simp)))

/-! ## Writing -/

/-- The store with the directory of a file, unless that is refused. -/
def withHolder (path : Path) (s : FileStore) : FileStore :=
  match holder? path with
  | some directory => (s.createDirectories directory).2
  | none => s

@[simp] theorem writes_withHolder (path : Path) (s : FileStore) :
    (s.withHolder path).writes = s.writes := by
  unfold withHolder createDirectories
  split
  · split <;> rfl
  · rfl

@[simp] theorem readOnlyRoots_withHolder (path : Path) (s : FileStore) :
    (s.withHolder path).readOnlyRoots = s.readOnlyRoots := by
  unfold withHolder createDirectories
  split
  · split <;> rfl
  · rfl

/-- The path that the refusal to write a file names: its directory, if that is read-only as well. -/
def refusedPath (path : Path) (s : FileStore) : Path :=
  ((holder? path).filter s.isReadOnly).getD path

theorem isReadOnly_congr {s t : FileStore} (h : s.readOnlyRoots = t.readOnlyRoots) (path : Path) :
    s.isReadOnly path = t.isReadOnly path := by
  rw [isReadOnly, isReadOnly, h]

theorem refusedPath_congr {s t : FileStore} (h : s.readOnlyRoots = t.readOnlyRoots) (path : Path) :
    s.refusedPath path = t.refusedPath path := by
  rw [refusedPath, refusedPath, funext (isReadOnly_congr h)]

/-- The path that is named when a file is refused is read-only: it is the file or its directory. -/
theorem isReadOnly_refusedPath {s : FileStore} {path : Path} (h : s.isReadOnly path = true) :
    s.isReadOnly (s.refusedPath path) = true := by
  -- either the directory is named, which is refused itself, or the file
  unfold refusedPath
  cases hholder : (holder? path).filter s.isReadOnly with
  | none => exact h
  | some directory => exact (Option.filter_eq_some_iff.1 hholder).2

/-- A file is written with its directory unless it is read-only. -/
theorem writeWithParents_eq (path : Path) (contents : String) (s : FileStore) :
    s.writeWithParents path contents =
      if s.isReadOnly path then (.error (.readOnly (s.refusedPath path)), s.withHolder path)
      else
        (.ok (), { s.withHolder path with
          writes := ⟨path.components, contents⟩ :: s.writes }) := by
  -- a file in no directory is written straight away
  unfold writeWithParents write withHolder refusedPath
  cases hholder : holder? path with
  | none => rfl
  | some directory =>
    -- a directory is refused together with all files below it
    by_cases hdirectory : s.isReadOnly directory
    · have hpath := isReadOnly_of_holder? hholder hdirectory
      simp [createDirectories, Option.filter, hdirectory, hpath]
    · -- the directory is among those that were made, so it is not missed
      let made : FileStore :=
        { s with directories := ancestors directory.components ++ s.directories }
      have hcreate : s.createDirectories directory = (.ok (), made) := if_neg hdirectory
      have hmem : directory.components ∈ made.directories :=
        List.mem_append_left _ (mem_ancestors_self (exists_components_of_holder? hholder).1)
      have hreadOnly : made.isReadOnly path = s.isReadOnly path := rfl
      simp [hcreate, hmem, hreadOnly, Option.filter, hdirectory, made]

/-! ## Reading what was written -/

/-- What is read from a store depends on its writes alone. -/
theorem read?_congr {s t : FileStore} (h : s.writes = t.writes) (path : Path) :
    s.read? path = t.read? path := by
  rw [read?, read?, h]

theorem read?_eq_none_iff {s : FileStore} {path : Path} :
    s.read? path = none ↔ ∀ w ∈ s.writes, w.place ≠ path.components := by
  simp [read?]

/-- Where all writes have the same contents, a file that was written has them. -/
theorem read?_eq_some_of_forall {s : FileStore} {path : Path} {contents : String}
    (hsame : ∀ w ∈ s.writes, w.contents = contents)
    (hwritten : ∃ w ∈ s.writes, w.place = path.components) : s.read? path = some contents := by
  -- something was written there, and whatever it was has these contents
  obtain ⟨w, hw, hplace⟩ := hwritten
  cases hread : s.read? path with
  | none => exact absurd hplace (read?_eq_none_iff.1 hread w hw)
  | some found =>
    obtain ⟨v, hv, rfl⟩ := Option.map_eq_some_iff.1 hread
    rw [hsame v (List.mem_of_find?_eq_some hv)]

/-! ## Read-only roots -/

/-- The store in which some more paths are read-only. -/
def withReadOnly (paths : List Path) (s : FileStore) : FileStore :=
  paths.foldl (fun s path => s.setReadOnly path) s

@[simp] theorem writes_withReadOnly (paths : List Path) (s : FileStore) :
    (s.withReadOnly paths).writes = s.writes := by
  induction paths generalizing s with
  | nil => rfl
  | cons path paths ih => exact ih (s.setReadOnly path)

end Preload.FileStore
