import Mathlib.Data.Finset.Insert
import Preload.Proofs.FileStore.History

/-!
# Tables of a file store

A store answers all questions from one list of writes. Here the contents of the files, the
directories, the places written to and the read-only roots stand in tables of their own, each kept
up by itself, and directories are made one by one on the way up (`FileStore.Tables`). Whatever is
done, both come out alike.

Main statements:
* `Path.mem_insertUp_iff`: what is made on the way up;
* `FileStore.run_tables`: the tables of a store go along with it;
* `FileStore.history_of_empty`: the account of all that is done to an empty store.
-/

namespace Preload

namespace Path

/-- Adds a directory and, on the way up, all those above it. -/
def insertUp (path : Path) (directories : Finset Place) : Finset Place :=
  if path.isEmpty then directories
  else
    match _hparent : path.parent? with
    | none => insert path.components directories
    | some parent => insertUp parent (insert path.components directories)
termination_by path.components.length
decreasing_by
  obtain ⟨c, hc⟩ := exists_components_of_parent? _hparent
  rw [hc, List.length_append, List.length_singleton]
  exact Nat.lt_succ_self _

/-- On the way up all ancestors are made, and nothing else. -/
theorem mem_insertUp_iff {path : Path} {directories : Finset Place} {place : Place} :
    place ∈ path.insertUp directories ↔
      place ∈ FileStore.ancestors path.components ∨ place ∈ directories := by
  rw [FileStore.mem_ancestors_iff]
  -- the places in front of a path are its own and those in front of its parent
  fun_induction insertUp path directories with
  | case1 path directories hempty =>
    -- the empty path is nowhere, so nothing is made
    rw [components_eq_nil_iff.2 hempty, List.prefix_nil]
    simp
  | case2 path directories hempty hparent =>
    -- no parent: a single component, which is the only place in front of itself
    have hlength := length_components_of_parent?_eq_none hparent
    cases hcomponents : path.components with
    | nil => exact absurd (components_eq_nil_iff.1 hcomponents) hempty
    | cons c cs =>
      obtain rfl : cs = [] := by
        rw [hcomponents, List.length_cons] at hlength
        exact List.length_eq_zero_iff.1 (by omega)
      rw [Finset.mem_insert, List.prefix_cons_iff]
      by_cases hplace : place = [c]
      · simp [hplace]
      · simp [hplace]
  | case3 path directories hempty parent hparent ih =>
    obtain ⟨c, hc⟩ := exists_components_of_parent? hparent
    -- one component less in the parent; the path itself was added before going up
    rw [ih, Finset.mem_insert, hc, List.prefix_concat_iff]
    by_cases hplace : place = parent.components ++ [c]
    · simp [hplace]
    · simp [hplace]

end Path

namespace FileStore

/-- A store in separate tables. -/
structure Tables where
  /-- The contents of each file. -/
  files : Place → Option String
  /-- The directories that exist. -/
  directories : Finset Place
  /-- Where files were written, the oldest first. -/
  written : List Place
  /-- The roots of the read-only subtrees. -/
  readOnlyRoots : Finset Place

namespace Tables

/-- Tables with nothing in them. -/
def empty : Tables :=
  ⟨fun _ => none, ∅, [], ∅⟩

/-- Whether a path is at or below a read-only root. -/
def isReadOnly (t : Tables) (path : Path) : Bool :=
  decide (∃ root ∈ t.readOnlyRoots, root <+: path.components)

/-- Makes a directory and those above it. -/
def createDirectories (path : Path) (t : Tables) : Except StoreError Unit × Tables :=
  if t.isReadOnly path then (.error (.readOnly path), t)
  else (.ok (), { t with directories := path.insertUp t.directories })

/-- Writes a file into a directory that exists. -/
def write (path : Path) (contents : String) (t : Tables) : Except StoreError Unit × Tables :=
  if t.isReadOnly path then (.error (.readOnly path), t)
  else
    match (holder? path).filter (·.components ∉ t.directories) with
    | some directory => (.error (.missing directory), t)
    | none =>
      (.ok (), { t with
        files := Function.update t.files path.components (some contents)
        written := t.written ++ [path.components] })

/-- Makes the directory of a file and writes the file. -/
def writeWithParents (path : Path) (contents : String) (t : Tables) :
    Except StoreError Unit × Tables :=
  match holder? path with
  | none => t.write path contents
  | some directory =>
    match t.createDirectories directory with
    | (.ok (), t) => t.write path contents
    | refused => refused

/-- Carries out an operation. -/
def apply (t : Tables) : Operation → Except StoreError Unit × Tables
  | .createDirectories path => t.createDirectories path
  | .write path contents => t.write path contents
  | .writeWithParents path contents => t.writeWithParents path contents
  | .setReadOnly path => (.ok (), { t with readOnlyRoots := insert path.components t.readOnlyRoots })

/-- Carries out operations in order. -/
def run : List Operation → Tables → List Event × Tables
  | [], t => ([], t)
  | o :: os, t => (⟨o, (t.apply o).1⟩ :: (run os (t.apply o).2).1, (run os (t.apply o).2).2)

end Tables

/-- The tables of a store. -/
def tables (s : FileStore) : Tables where
  files place := (s.writes.find? (·.place = place)).map (·.contents)
  directories := s.directories.toFinset
  written := (s.writes.map (·.place)).reverse
  readOnlyRoots := s.readOnlyRoots.toFinset

theorem tables_empty : empty.tables = .empty := rfl

/-! ## Look-ups -/

section Lookups

variable (s : FileStore) (path : Path)

theorem count_written_tables : s.tables.written.count path.components = s.writeCount path := by
  -- the oldest write stands first in the one and last in the other; a count is the same
  rw [tables, List.count_reverse, List.count_eq_countP, List.countP_map, writeCount]
  refine List.countP_congr fun w _ => ?_
  simp

theorem length_written_tables : s.tables.written.length = s.totalWrites := by
  rw [tables, List.length_reverse, List.length_map, totalWrites]

theorem isReadOnly_tables : s.tables.isReadOnly path = s.isReadOnly path := by
  rw [Bool.eq_iff_iff, isReadOnly_iff]
  simp [Tables.isReadOnly, tables]

end Lookups

/-! ## Operations -/

theorem createDirectories_tables (path : Path) (s : FileStore) :
    s.tables.createDirectories path =
      ((s.createDirectories path).1, (s.createDirectories path).2.tables) := by
  -- a set of places does not remember how often or in which order they were made
  have hdirectories : path.insertUp s.tables.directories =
      (ancestors path.components ++ s.directories).toFinset := by
    ext place
    rw [Path.mem_insertUp_iff, List.mem_toFinset, List.mem_append, tables, List.mem_toFinset]
  rw [Tables.createDirectories, createDirectories, isReadOnly_tables, hdirectories]
  split <;> rfl

theorem write_tables (path : Path) (contents : String) (s : FileStore) :
    s.tables.write path contents =
      ((s.write path contents).1, (s.write path contents).2.tables) := by
  have hdirectories (place : Place) : place ∈ s.tables.directories ↔ place ∈ s.directories :=
    List.mem_toFinset
  -- the contents that are looked up are those of the newest write
  have hwritten : ({ s with writes := ⟨path.components, contents⟩ :: s.writes } :
      FileStore).tables = { s.tables with
        files := Function.update s.tables.files path.components (some contents)
        written := s.tables.written ++ [path.components] } := by
    simp only [tables, Tables.mk.injEq, List.map_cons, List.reverse_cons, and_true]
    funext place
    -- at this place the new contents are found first, and elsewhere they are passed by
    by_cases hplace : place = path.components
    · simp [hplace]
    · simp [hplace, Ne.symm hplace]
  simp only [Tables.write, write, isReadOnly_tables, hdirectories]
  cases s.isReadOnly path with
  | true => rfl
  | false =>
    -- what is checked is the same in both, so they refuse together
    cases (holder? path).filter fun directory => decide (directory.components ∉ s.directories) with
    | some directory => rfl
    | none => exact congrArg (Prod.mk _) hwritten.symm

theorem writeWithParents_tables (path : Path) (contents : String) (s : FileStore) :
    s.tables.writeWithParents path contents =
      ((s.writeWithParents path contents).1, (s.writeWithParents path contents).2.tables) := by
  unfold Tables.writeWithParents writeWithParents
  cases holder? path with
  -- without a directory above it, the file is written at once
  | none => exact write_tables path contents s
  | some directory =>
    dsimp only
    rw [createDirectories_tables]
    -- first the directory, and if that is refused, nothing more
    obtain ⟨outcome, s'⟩ := s.createDirectories directory
    cases outcome with
    | ok _ => exact write_tables path contents s'
    | error e => rfl

theorem apply_tables (o : Operation) (s : FileStore) :
    s.tables.apply o = ((o.apply s).1, (o.apply s).2.tables) := by
  cases o with
  | createDirectories path => exact createDirectories_tables path s
  | write path contents => exact write_tables path contents s
  | writeWithParents path contents => exact writeWithParents_tables path contents s
  | setReadOnly path =>
    simp [Tables.apply, Operation.apply, setReadOnly, tables, List.toFinset_cons]

/-- The tables of a store go along with it. -/
theorem run_tables (os : List Operation) (s : FileStore) :
    s.tables.run os = ((s.run os).1, (s.run os).2.tables) := by
  -- step by step, both being in the same state after each operation
  induction os generalizing s with
  | nil => rfl
  | cons o os ih => rw [Tables.run, apply_tables, ih, run_cons]

/-! ## An empty store -/

/-- The account of all that is done to an empty store. Separate tables say the same as the store;
above each directory and above each file there are directories; a file is there once it was written,
with the contents of the last write that was made; all writes that were made are counted; and
whatever is done then, nothing goes away. -/
theorem history_of_empty (os more : List Operation) :
    let events := (empty.run os).1
    let s := (empty.run os).2
    (∃ t, Tables.empty.run os = (events, t) ∧ t.written.length = s.totalWrites ∧
        ∀ path : Path, t.files path.components = s.read? path ∧
          t.written.count path.components = s.writeCount path ∧
          (path.components ∈ t.directories ↔ path.components ∈ s.directories)) ∧
      (∀ place ∈ s.directories, ∀ above, above ≠ [] → above <+: place → above ∈ s.directories) ∧
      (∀ path directory, (s.read? path).isSome → path.parent? = some directory →
        directory.isEmpty = false → directory.components ∈ s.directories) ∧
      (∀ path, (s.read? path).isSome ↔ 0 < s.writeCount path) ∧
      (∀ path contents, s.read? path = some contents ↔
        ∃ before e after, events = before ++ e :: after ∧
          e.written? = some ⟨path.components, contents⟩ ∧ ∀ f ∈ after, f.writes path = false) ∧
      (∀ path, s.writeCount path = events.countP (·.writes path)) ∧
      s.totalWrites = events.countP (·.written?.isSome) ∧
      ∀ path, s.contains path = true → (s.run more).2.contains path = true := by
  intro events s
  -- what exists in directories that exist is kept by each change, and the empty store has nothing
  have hsound : s.Sound := (changes_run os empty).sound sound_empty
  have hrun : Tables.empty.run os = (events, s.tables) := by
    rw [← tables_empty]
    exact run_tables os empty
  refine ⟨⟨s.tables, hrun, length_written_tables s, fun path =>
      ⟨rfl, count_written_tables s path, List.mem_toFinset⟩⟩,
    hsound.mem_of_prefix, fun path directory hread hparent hempty => ?_,
    fun path => isSome_read?_iff, fun path contents => read?_run_empty_iff,
    writeCount_run_empty os, totalWrites_run_empty os, fun path => (changes_run more s).contains⟩
  -- a parent that has text is the directory that holds the file
  exact hsound.mem_of_holder? path hread directory (by simp [holder?, hparent, Option.filter, hempty])

/-- A file that is written twice, under two spellings, and refused writes in between. -/
theorem history_of_empty_of_refusals :
    let os : List Operation :=
      [.setReadOnly ⟨"/locked"⟩, .write ⟨"out/a/b.js"⟩ "w", .writeWithParents ⟨"out/a/b.js"⟩ "x",
        .writeWithParents ⟨"/locked/b.js"⟩ "y", .write ⟨"out//a/./b.js/"⟩ "z", .write ⟨"out/c/d.js"⟩ "v"]
    let s := (empty.run os).2
    s.read? ⟨"out/a/b.js"⟩ = some "z" ∧ s.writeCount ⟨"out/a/b.js"⟩ = 2 ∧ s.totalWrites = 2 ∧
      [.name "out"] ∈ s.directories ∧ (⟨"out/a"⟩ : Path).components ∈ s.directories ∧
      (∃ before e after, (empty.run os).1 = before ++ e :: after ∧
        e.written? = some ⟨(⟨"out/a/b.js"⟩ : Path).components, "z"⟩ ∧
        ∀ f ∈ after, f.writes ⟨"out/a/b.js"⟩ = false) ∧
      (s.run [.setReadOnly ⟨""⟩]).2.contains ⟨"out/a/b.js"⟩ = true := by
  intro os s
  obtain ⟨-, hdirectories, hholders, -, hread, -, -, hstays⟩ :=
    history_of_empty os [.setReadOnly ⟨""⟩]
  have hz : s.read? ⟨"out/a/b.js"⟩ = some "z" := by decide +kernel
  -- the parent of the file is spelled as its directory here, and the clause about files gives it
  have hheld : (⟨"out/a"⟩ : Path).components ∈ s.directories :=
    hholders ⟨"out/a/b.js"⟩ ⟨"out/a"⟩ (by rw [hz]; rfl) (by decide +kernel) (by decide)
  refine ⟨hz, by decide +kernel, by decide +kernel, ?_, hheld, (hread _ _).1 hz, ?_⟩
  · exact hdirectories _ hheld _ (by simp) ⟨[.name "a"], by decide +kernel⟩
  · exact hstays _ (contains_iff.2 (.inl (by rw [hz]; rfl)))

end FileStore

end Preload
