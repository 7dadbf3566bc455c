import Mathlib.Logic.Relation
import Preload.Proofs.FileStore.Writing

/-!
# Changes of a file store

Whatever is done to a file store, it only ever changes in small steps: directories are made, a file
is written into a directory that exists, or a subtree becomes read-only (`Change`). What each of
these steps keeps is kept by everything else.

Main statements:
* `Change.sound`: a store in which all that exists stands in directories that exist stays so;
* `Change.contains`: what exists goes on to exist;
* `Change.frozen`: nothing changes at or below a read-only root.
-/

namespace Preload

/-- Only a path without a component above its last one has no parent. -/
theorem Path.length_components_of_parent?_eq_none {p : Path} (h : p.parent? = none) :
    p.components.length ≤ 1 := by
  -- the segments behind the lead stand for no steps, so the lead is all there can be
  have hnil := filterMap_stepOf?_dropWhile p.bodySegments.reverse
  rw [List.reverse_reverse, filterMap_stepOf?_bodySegments] at hnil
  rw [parent?_eq] at h
  split at h
  · cases h
  · cases h
  · next hreverse _ =>
    rw [hreverse] at hnil
    rw [components_eq, ← hnil]
    cases lead? p.segments <;> simp

namespace FileStore

/-! ## Places above a place -/

/-- A place has a directory right above it if there is any place there. -/
theorem exists_holder? {path : Path} {above : Place} {c : Path.Component}
    (hpath : path.components = above ++ [c]) (hne : above ≠ []) :
    ∃ directory, holder? path = some directory ∧ directory.components = above := by
  -- a path with something above its last component has a parent with these components
  cases hparent : path.parent? with
  | none =>
    have hlength := Path.length_components_of_parent?_eq_none hparent
    have hpos := List.length_pos_iff.2 hne
    rw [hpath, List.length_append, List.length_singleton] at hlength
    omega
  | some directory =>
    obtain ⟨d, hd⟩ := Path.exists_components_of_parent? hparent
    obtain ⟨habove, -⟩ := List.append_inj' (hd.symm.trans hpath) rfl
    -- nothing above the last component would mean an empty parent, but there is something
    have hempty : directory.isEmpty = false := by
      rw [Bool.eq_false_iff]
      exact fun hempty => hne (habove ▸ Path.components_eq_nil_iff.2 hempty)
    exact ⟨directory, by simp [holder?, hparent, Option.filter, hempty], habove⟩

/-- However a path is spelled, its file is held by the same directory. -/
theorem holder?_congr {path path' : Path} (h : path.components = path'.components)
    {directory : Path} (hholder : holder? path = some directory) :
    ∃ directory', holder? path' = some directory' ∧
      directory'.components = directory.components := by
  obtain ⟨hne, c, hpath⟩ := exists_components_of_holder? hholder
  exact exists_holder? (h.symm.trans hpath) hne

/-- The ancestors of a place are the places that it starts with, but for the empty one. -/
theorem mem_ancestors_iff {place above : Place} :
    above ∈ ancestors place ↔ above ≠ [] ∧ above <+: place := by
  -- along the place; each component adds the place that ends in it
  induction place generalizing above with
  | nil => simp [ancestors]
  | cons c cs ih =>
    cases above with
    | nil => simp [ancestors]
    | cons d ds =>
      rw [ancestors, List.mem_cons, List.mem_map]
      simp only [ih, List.cons_prefix_cons, List.cons.injEq]
      -- one component alone is the first ancestor, longer ones continue an ancestor of the rest
      by_cases hds : ds = []
      · simp [hds, eq_comm]
      · simp only [hds, and_false, false_or, ne_eq, reduceCtorEq, not_false_eq_true, true_and]
        constructor
        · rintro ⟨above, ⟨-, hfront⟩, rfl, rfl⟩
          exact ⟨rfl, hfront⟩
        · rintro ⟨rfl, hfront⟩
          exact ⟨ds, ⟨hds, hfront⟩, rfl, rfl⟩

theorem isReadOnly_iff {s : FileStore} {path : Path} :
    s.isReadOnly path = true ↔ ∃ root ∈ s.readOnlyRoots, root <+: path.components := by
  simp [isReadOnly]

/-! ## Look-ups -/

/-- What exists is a file or a directory. -/
theorem contains_iff {s : FileStore} {path : Path} :
    s.contains path = true ↔ (s.read? path).isSome ∨ path.components ∈ s.directories := by
  simp [contains]

/-- A file is one that was written. -/
theorem isSome_read?_iff {s : FileStore} {path : Path} :
    (s.read? path).isSome ↔ 0 < s.writeCount path := by
  -- files are found by their writes, and both look for a write at this place
  simp [read?, writeCount, List.countP_pos_iff]

theorem read?_cons (s : FileStore) (w : Write) (path : Path) :
    ({ s with writes := w :: s.writes } : FileStore).read? path =
      if w.place = path.components then some w.contents else s.read? path := by
  unfold read?
  by_cases hplace : w.place = path.components
  · simp [hplace]
  · simp [hplace]

/-! ## Small changes -/

/-- One small change of a store. -/
inductive Change (s : FileStore) : FileStore → Prop
  /-- A directory is made, with those above it. -/
  | directory {path : Path} (hwritable : s.isReadOnly path = false) :
      Change s { s with directories := ancestors path.components ++ s.directories }
  /-- A file is written into a directory that exists. -/
  | file {path : Path} (contents : String) (hwritable : s.isReadOnly path = false)
      (hholder : ∀ directory ∈ holder? path, directory.components ∈ s.directories) :
      Change s { s with writes := ⟨path.components, contents⟩ :: s.writes }
  /-- A path and all below it become read-only. -/
  | mark (path : Path) : Change s (s.setReadOnly path)

/-- Any number of small changes. -/
abbrev Changes : FileStore → FileStore → Prop :=
  Relation.ReflTransGen Change

/-- Whether all that exists stands in directories that exist. -/
structure Sound (s : FileStore) : Prop where
  mem_of_prefix : ∀ place ∈ s.directories, ∀ above, above ≠ [] → above <+: place →
    above ∈ s.directories
  mem_of_holder? : ∀ path, (s.read? path).isSome → ∀ directory ∈ holder? path,
    directory.components ∈ s.directories

/-- Whether two stores hold the same at a path. -/
structure SameAt (path : Path) (s t : FileStore) : Prop where
  read? : t.read? path = s.read? path
  contains : t.contains path = s.contains path
  writeCount : t.writeCount path = s.writeCount path

theorem SameAt.trans {path : Path} {s t u : FileStore} (h : SameAt path s t)
    (h' : SameAt path t u) : SameAt path s u :=
  ⟨h'.read?.trans h.read?, h'.contains.trans h.contains, h'.writeCount.trans h.writeCount⟩

theorem sound_empty : empty.Sound :=
  ⟨by simp [empty], by simp [empty, read?]⟩

variable {s t : FileStore}

/-- What exists goes on to exist. -/
theorem Change.contains (h : Change s t) {path : Path} (hexists : s.contains path = true) :
    t.contains path = true := by
  rw [contains_iff] at hexists ⊢
  -- directories are only added, and a file is only replaced by another one
  cases h with
  | directory => exact hexists.imp_right (List.mem_append_right _)
  | file =>
    refine hexists.imp_left fun hread => ?_
    rw [read?_cons]
    split
    · rfl
    · exact hread
  | mark => exact hexists

/-- All that exists still stands in directories that exist. -/
theorem Change.sound (h : Change s t) (hs : s.Sound) : t.Sound := by
  -- a new directory comes with those above it; a new file was checked to have its directory
  cases h with
  | directory =>
    refine ⟨fun place hplace above hne habove => ?_, fun path hread directory hholder => ?_⟩
    · obtain hplace | hplace := List.mem_append.1 hplace
      · obtain ⟨-, hfront⟩ := mem_ancestors_iff.1 hplace
        exact List.mem_append_left _ (mem_ancestors_iff.2 ⟨hne, habove.trans hfront⟩)
      · exact List.mem_append_right _ (hs.mem_of_prefix place hplace above hne habove)
    · -- files are where they were, and their directories are still there
      exact List.mem_append_right _ (hs.mem_of_holder? path hread directory hholder)
  | @file written contents _ hwritten =>
    refine ⟨hs.mem_of_prefix, fun path hread directory hholder => ?_⟩
    rw [read?_cons] at hread
    split at hread
    · next hplace =>
      -- the file may be spelled otherwise than it was when it was written
      obtain ⟨directory', hholder', hsame⟩ := holder?_congr (Eq.symm hplace) hholder
      rw [← hsame]
      exact hwritten directory' hholder'
    · exact hs.mem_of_holder? path hread directory hholder
  | mark => exact ⟨hs.mem_of_prefix, hs.mem_of_holder?⟩

/-- Nothing changes at or below a read-only root, and it stays one. -/
theorem Change.frozen (h : Change s t) {root : Place} (hroot : root ∈ s.readOnlyRoots)
    {path : Path} (hbelow : root <+: path.components) :
    root ∈ t.readOnlyRoots ∧ SameAt path s t := by
  -- whatever is written or made is not below the root, since the store looks first
  have hlocked {written : Path} (hwritable : s.isReadOnly written = false) :
      ¬root <+: written.components := by
    intro hfront
    rw [isReadOnly_iff.2 ⟨root, hroot, hfront⟩] at hwritable
    cases hwritable
  cases h with
  | @directory made hwritable =>
    -- a directory is never made below the root, since one further down would be asked for
    have hnot : path.components ∉ ancestors made.components := by
      intro hmem
      obtain ⟨-, hfront⟩ := mem_ancestors_iff.1 hmem
      exact hlocked hwritable (hbelow.trans hfront)
    refine ⟨hroot, rfl, ?_, rfl⟩
    rw [Bool.eq_iff_iff, contains_iff, contains_iff, List.mem_append, or_iff_right hnot]
    rfl
  | @file written contents hwritable =>
    -- so the file that is written is another one
    have hne : written.components ≠ path.components := by
      intro hplace
      refine hlocked hwritable ?_
      rwa [hplace]
    have hread : ({ s with writes := ⟨written.components, contents⟩ :: s.writes } :
        FileStore).read? path = s.read? path := by
      rw [read?_cons, if_neg hne]
    refine ⟨hroot, hread, ?_, ?_⟩
    · -- a write makes no directory, and the file here is the same
      rw [Bool.eq_iff_iff, contains_iff, contains_iff, hread]
    · simp [writeCount, hne]
  | mark => exact ⟨List.mem_cons_of_mem _ hroot, rfl, rfl, rfl⟩

/-! ## Any number of changes -/

theorem Changes.contains (h : Changes s t) {path : Path} (hexists : s.contains path = true) :
    t.contains path = true := by
  induction h with
  | refl => exact hexists
  | tail _ hchange ih => exact hchange.contains ih

theorem Changes.sound (h : Changes s t) (hs : s.Sound) : t.Sound := by
  induction h with
  | refl => exact hs
  | tail _ hchange ih => exact hchange.sound ih

theorem Changes.frozen (h : Changes s t) {root : Place} (hroot : root ∈ s.readOnlyRoots)
    {path : Path} (hbelow : root <+: path.components) :
    root ∈ t.readOnlyRoots ∧ SameAt path s t := by
  -- the root stays a root, so the next change finds it frozen as well
  induction h with
  | refl => exact ⟨hroot, rfl, rfl, rfl⟩
  | tail _ hchange ih =>
    obtain ⟨hroot, hsame⟩ := ih
    obtain ⟨hroot', hsame'⟩ := hchange.frozen hroot hbelow
    exact ⟨hroot', hsame.trans hsame'⟩

end FileStore

end Preload
