import Preload.Proofs.FileStore.Changes

/-!
# Writing a file below directories that may be missing

`FileStore.writeWithParents` first makes the directory of a file and then writes the file, and each
step checks what it is about to do. Nothing but a read-only root can stop the two of them: the
directory that the second step asks for is always there. When the file alone is read-only, the
directories above it have been made all the same.

Main statements:
* `Path.exists_mem_ancestors_iff`: the way up from a path goes through all places in front of it;
* `FileStore.mem_directories_withHolder_iff`: the directories that are made;
* `FileStore.writeWithParents_outcome`: when a file is written, and what is left behind either way.
-/

namespace Preload

namespace Path

/-- The path itself, its parent, the parent of that, and so on. -/
def ancestors (p : Path) : List Path :=
  match _hparent : p.parent? with
  | none => [p]
  | some parent => p :: parent.ancestors
termination_by p.components.length
decreasing_by
  obtain ⟨c, hc⟩ := exists_components_of_parent? _hparent
  simp [hc]

/-- On the way up from a path lie just the places that it starts with. -/
theorem exists_mem_ancestors_iff {p : Path} {place : Place} (hne : place ≠ []) :
    (∃ q ∈ p.ancestors, q.components = place) ↔ place <+: p.components := by
  fun_induction ancestors p with
  | case1 p hparent =>
    -- a path without a parent has at most one component
    have hlength := length_components_of_parent?_eq_none hparent
    simp only [List.mem_singleton, exists_eq_left]
    constructor
    · rintro rfl
      exact List.prefix_rfl
    · -- a front with something in it is all of a single component
      intro hfront
      have hpos := List.length_pos_iff.2 hne
      apply (hfront.eq_of_length_le _).symm
      omega
  | case2 p parent hparent ih =>
    obtain ⟨c, hc⟩ := exists_components_of_parent? hparent
    -- the places above the last component are those of the parent
    simp only [List.mem_cons, exists_eq_or_imp, ih]
    rw [hc, List.prefix_concat_iff]
    simp [eq_comm]

end Path

namespace FileStore

variable {s : FileStore} {path : Path}

/-- What is below a read-only path is read-only. -/
theorem isReadOnly_of_below {above : Path} (h : above.components <+: path.components)
    (habove : s.isReadOnly above = true) : s.isReadOnly path = true := by
  obtain ⟨root, hroot, hfront⟩ := isReadOnly_iff.1 habove
  exact isReadOnly_iff.2 ⟨root, hroot, hfront.trans h⟩

/-! ## The directories that are made -/

/-- For a file, its directory and those above it are made, unless that directory is read-only. -/
theorem mem_directories_withHolder_iff {place : Place} :
    place ∈ (s.withHolder path).directories ↔
      place ∈ s.directories ∨
        ∃ directory ∈ holder? path, s.isReadOnly directory = false ∧
          place ≠ [] ∧ place <+: directory.components := by
  unfold withHolder createDirectories
  cases holder? path with
  | none => simp
  | some directory =>
    cases hreadOnly : s.isReadOnly directory with
    | true => simp [hreadOnly]
    | false => simp [hreadOnly, mem_ancestors_iff, or_comm]

/-- What was made for a file is above it, and not read-only. -/
theorem exists_ancestor_of_mem_withHolder {place : Place}
    (h : place ∈ (s.withHolder path).directories) (hnew : place ∉ s.directories) :
    ∃ q ∈ path.ancestors, q.components = place ∧ q.isEmpty = false ∧ s.isReadOnly q = false := by
  obtain hold | ⟨directory, hholder, hwritable, hne, hfront⟩ := mem_directories_withHolder_iff.1 h
  · exact absurd hold hnew
  -- the new directory is in front of the file's directory, so of the file as well
  obtain ⟨-, c, hc⟩ := exists_components_of_holder? hholder
  have hbelow : place <+: path.components := by
    rw [hc]
    exact hfront.trans (List.prefix_append _ _)
  obtain ⟨q, hq, rfl⟩ := (Path.exists_mem_ancestors_iff hne).2 hbelow
  refine ⟨q, hq, rfl, ?_, ?_⟩
  · rw [Bool.eq_false_iff]
    exact fun hempty => hne (Path.components_eq_nil_iff.2 hempty)
  · -- a root above `q` would be above the directory
    rw [Bool.eq_false_iff]
    intro hreadOnly
    rw [isReadOnly_of_below hfront hreadOnly] at hwritable
    cases hwritable

/-- Above a file that is not read-only, all directories are made. -/
theorem mem_directories_withHolder (hwritable : s.isReadOnly path = false) {place : Place}
    (hne : place ≠ []) (hfront : place <+: path.components) (hself : place ≠ path.components) :
    place ∈ (s.withHolder path).directories := by
  -- a place in front of the path, and not all of it, lies within what is above its last component
  obtain ⟨above, c, hc⟩ := List.eq_nil_or_concat path.components |>.resolve_left
    fun hnil => hne (List.prefix_nil.1 (hnil ▸ hfront))
  rw [List.concat_eq_append] at hc
  rw [hc, List.prefix_concat_iff, ← hc, or_iff_right hself] at hfront
  -- so there is a directory, and it holds the file
  have habove : above ≠ [] := fun hnil => hne (List.prefix_nil.1 (hnil ▸ hfront))
  obtain ⟨directory, hholder, rfl⟩ := exists_holder? hc habove
  have hdirectory : s.isReadOnly directory = false := by
    rw [Bool.eq_false_iff]
    intro hreadOnly
    rw [isReadOnly_of_holder? hholder hreadOnly] at hwritable
    cases hwritable
  exact mem_directories_withHolder_iff.2 (.inr ⟨directory, hholder, hdirectory, hne, hfront⟩)

/-! ## The outcome -/

/-- A file is written with its parents just where it is at or below no read-only path. Then it has
its contents, it and all that is above it exist, and it counts one write more; no other file
changes. A refusal names a read-only path and leaves all files alone; whatever directories it has
made are above the file and not below a read-only path. -/
theorem writeWithParents_outcome (s : FileStore) (path : Path) (contents : String) :
    ((s.writeWithParents path contents).1 = .ok () ↔
        ∀ root ∈ s.readOnlyRoots, ¬root <+: path.components) ∧
      match s.writeWithParents path contents with
      | (.ok (), s') =>
        s'.read? path = some contents ∧ s'.contains path = true ∧
          (∀ q ∈ path.ancestors, q.isEmpty = false → s'.contains q = true) ∧
          s'.writeCount path = s.writeCount path + 1 ∧ s'.totalWrites = s.totalWrites + 1 ∧
          ∀ q : Path, q.components ≠ path.components →
            s'.read? q = s.read? q ∧ s'.writeCount q = s.writeCount q
      | (.error e, s') =>
        (∃ refused, e = .readOnly refused ∧ s.isReadOnly refused = true) ∧
          (∀ q, s'.read? q = s.read? q ∧ s'.writeCount q = s.writeCount q) ∧
          s'.totalWrites = s.totalWrites ∧ s.directories ⊆ s'.directories ∧
          ∀ place ∈ s'.directories, place ∉ s.directories →
            ∃ q ∈ path.ancestors, q.components = place ∧ q.isEmpty = false ∧
              s.isReadOnly q = false := by
  rw [writeWithParents_eq]
  cases hreadOnly : s.isReadOnly path with
  | true =>
    -- the path is locked: something may be made above it, but nothing is written
    obtain ⟨root, hroot, hfront⟩ := isReadOnly_iff.1 hreadOnly
    have hlocked : ¬∀ root ∈ s.readOnlyRoots, ¬root <+: path.components :=
      fun hfree => hfree root hroot hfront
    refine ⟨by simp [hlocked], ⟨_, rfl, isReadOnly_refusedPath hreadOnly⟩, ?_, ?_, ?_, ?_⟩
    · intro q
      simp [read?, writeCount]
    · simp [totalWrites]
    · intro place hplace
      exact mem_directories_withHolder_iff.2 (.inl hplace)
    · intro place hplace hnew
      exact exists_ancestor_of_mem_withHolder hplace hnew
  | false =>
    -- the path is free: so is its directory, since a root above that would be above the path
    have hfree : ∀ root ∈ s.readOnlyRoots, ¬root <+: path.components := by
      intro root hroot hfront
      rw [isReadOnly_iff.2 ⟨root, hroot, hfront⟩] at hreadOnly
      cases hreadOnly
    -- the file itself is there because it was written, all that is above it because it was made
    have hread : ({ s.withHolder path with writes := ⟨path.components, contents⟩ :: s.writes } :
        FileStore).read? path = some contents := by
      simp [read?]
    refine ⟨by simpa using hfree, hread, contains_iff.2 (.inl (by rw [hread]; rfl)), ?_, ?_, ?_, ?_⟩
    · -- an ancestor that has any text is the file or a directory above it
      intro q hq hempty
      have hne : q.components ≠ [] := by
        intro hnil
        rw [Path.components_eq_nil_iff.1 hnil] at hempty
        cases hempty
      have hfront := (Path.exists_mem_ancestors_iff hne).1 ⟨q, hq, rfl⟩
      rw [contains_iff]
      by_cases hself : q.components = path.components
      · left
        simp [read?, hself]
      · right
        exact mem_directories_withHolder hreadOnly hne hfront hself
    · simp [writeCount]
    · simp [totalWrites]
    · intro q hq
      simp [read?, writeCount, Ne.symm hq]

/-- The file is read-only, its directory is not: the directories are made, and the file is refused.
Next to it, nothing is in the way. -/
theorem writeWithParents_outcome_of_locked_file :
    let s := empty.setReadOnly ⟨"out/a/b.js"⟩
    (s.writeWithParents ⟨"out/a/b.js/"⟩ "x").1 ≠ .ok () ∧
      [.name "out"] ∈ (s.writeWithParents ⟨"out/a/b.js"⟩ "x").2.directories ∧
      (∃ q ∈ (⟨"out/a/b.js"⟩ : Path).ancestors, q.components = [.name "out"]) ∧
      (s.writeWithParents ⟨"out/a/c.js"⟩ "x").1 = .ok () ∧
      (s.writeWithParents ⟨"out/a/c.js"⟩ "x").2.contains ⟨"out"⟩ = true := by
  intro s
  have hrefused : s.writeWithParents ⟨"out/a/b.js"⟩ "x" =
      (.error (.readOnly (s.refusedPath ⟨"out/a/b.js"⟩)), s.withHolder ⟨"out/a/b.js"⟩) := by
    rw [writeWithParents_eq, if_pos (by decide +kernel)]
  have hmade : [.name "out"] ∈ (s.withHolder ⟨"out/a/b.js"⟩).directories := by decide +kernel
  obtain ⟨hfree, hwritten⟩ := writeWithParents_outcome s ⟨"out/a/c.js"⟩ "x"
  have hok := hfree.2 (by decide +kernel)
  refine ⟨?_, ?_, ?_, hok, ?_⟩
  · rw [Ne, (writeWithParents_outcome s ⟨"out/a/b.js/"⟩ "x").1]
    -- the refusal is the statement itself, read from right to left
    decide +kernel
  · rw [hrefused]
    exact hmade
  · have hleft := (writeWithParents_outcome s ⟨"out/a/b.js"⟩ "x").2
    rw [hrefused] at hleft
    obtain ⟨q, hq, hplace, -⟩ := hleft.2.2.2.2 _ hmade (by decide +kernel)
    exact ⟨q, hq, hplace⟩
  · -- the directory exists as an ancestor of the file that was written
    have hfront : [.name "out"] <+: (⟨"out/a/c.js"⟩ : Path).components := by decide +kernel
    obtain ⟨q, hq, hplace⟩ := (Path.exists_mem_ancestors_iff (by simp)).2 hfront
    have hempty : q.isEmpty = false := by
      rw [← Bool.not_eq_true, ← Path.components_eq_nil_iff, hplace]
      simp
    have hpair : s.writeWithParents ⟨"out/a/c.js"⟩ "x" =
        (.ok (), (s.writeWithParents ⟨"out/a/c.js"⟩ "x").2) := Prod.ext hok rfl
    rw [hpair] at hwritten
    have hexists := hwritten.2.2.1 q hq hempty
    rw [contains, read?, hplace] at hexists
    exact hexists

end FileStore

end Preload
