import Preload.Proofs.FileStore.Changes

/-!
# Histories of file stores

Operations are carried out one after the other (`FileStore.run`), and an event says of each what
came of it. What a store holds can be told from the events alone, and a read-only root decides
nothing but what happens at or below it.

Main statements:
* `Operation.changes_apply`: an operation, refused or not, comes down to small changes;
* `FileStore.writes_run`: the writes are those of the events;
* `FileStore.read?_run_empty_iff`: a file holds what the last event that writes it wrote;
* `FileStore.readOnly_frozen`: what a read-only root keeps, and what it leaves alone.
-/

namespace Preload.FileStore

/-! ## Operations -/

/-- Something that is done to a store. -/
inductive Operation where
  | createDirectories (path : Path)
  | write (path : Path) (contents : String)
  | writeWithParents (path : Path) (contents : String)
  | setReadOnly (path : Path)
  deriving DecidableEq, Repr

namespace Operation

/-- The path that it is done to. -/
def path : Operation → Path
  | createDirectories path | write path _ | writeWithParents path _ | setReadOnly path => path

/-- The write that is asked for. -/
def write? : Operation → Option Write
  | write path contents | writeWithParents path contents => some ⟨path.components, contents⟩
  | createDirectories _ | setReadOnly _ => none

/-- Carries it out. -/
def apply (s : FileStore) : Operation → Result
  | createDirectories path => s.createDirectories path
  | write path contents => s.write path contents
  | writeWithParents path contents => s.writeWithParents path contents
  | setReadOnly path => (.ok (), s.setReadOnly path)

end Operation

/-- An operation and its outcome. -/
structure Event where
  operation : Operation
  outcome : Except StoreError Unit

namespace Event

/-- The write that was made. -/
def written? (e : Event) : Option Write :=
  match e.outcome with
  | .ok () => e.operation.write?
  | .error _ => none

/-- Whether a file was written. -/
def writes (e : Event) (path : Path) : Bool :=
  e.written?.any (·.place = path.components)

end Event

/-- Carries out operations in order. -/
def run : List Operation → FileStore → List Event × FileStore
  | [], s => ([], s)
  | o :: os, s => (⟨o, (o.apply s).1⟩ :: (run os (o.apply s).2).1, (run os (o.apply s).2).2)

/-! ## One operation -/

/-- A file is written unless it is read-only or its directory is missing. -/
theorem write_eq (path : Path) (contents : String) (s : FileStore) :
    (s.write path contents = (.ok (), { s with writes := ⟨path.components, contents⟩ :: s.writes }) ∧
      s.isReadOnly path = false ∧
      ∀ directory ∈ holder? path, directory.components ∈ s.directories) ∨
    ∃ e, s.write path contents = (.error e, s) := by
  unfold write
  -- a read-only path refuses before the directory is looked for
  cases hreadOnly : s.isReadOnly path with
  | true => exact .inr ⟨_, if_pos rfl⟩
  | false =>
    rw [if_neg Bool.false_ne_true]
    -- the directory is there, or it is named in the error
    split
    · exact .inr ⟨_, rfl⟩
    · next hmissing =>
      refine .inl ⟨rfl, rfl, fun directory hholder => ?_⟩
      simpa using Option.filter_eq_none_iff.1 hmissing directory hholder

theorem changes_createDirectories (path : Path) (s : FileStore) :
    Changes s (s.createDirectories path).2 := by
  unfold createDirectories
  cases hreadOnly : s.isReadOnly path with
  | true => exact .refl
  | false => exact .single (.directory hreadOnly)

theorem changes_write (path : Path) (contents : String) (s : FileStore) :
    Changes s (s.write path contents).2 := by
  -- a write that is made is one change, and a refused one none
  obtain ⟨hwrite, hreadOnly, hholder⟩ | ⟨e, hwrite⟩ := write_eq path contents s
  · rw [hwrite]
    exact .single (.file contents hreadOnly hholder)
  · rw [hwrite]

theorem changes_writeWithParents (path : Path) (contents : String) (s : FileStore) :
    Changes s (s.writeWithParents path contents).2 := by
  unfold writeWithParents
  -- without a directory of its own, the file is written at once
  split
  · exact changes_write path contents s
  · next directory _ =>
    -- the directory comes first, and what it changes is kept if it is refused
    have hcreate := changes_createDirectories directory s
    split
    · next hok =>
      rw [hok] at hcreate
      exact hcreate.trans (changes_write path contents _)
    · exact hcreate

/-- An operation, refused or not, comes down to small changes. -/
theorem Operation.changes_apply (o : Operation) (s : FileStore) : Changes s (o.apply s).2 := by
  cases o with
  | createDirectories path => exact changes_createDirectories path s
  | write path contents => exact changes_write path contents s
  | writeWithParents path contents => exact changes_writeWithParents path contents s
  | setReadOnly path => exact .single (.mark path)

/-- An operation writes what its event says. -/
theorem Operation.writes_apply (o : Operation) (s : FileStore) :
    (o.apply s).2.writes = (Event.written? ⟨o, (o.apply s).1⟩).toList ++ s.writes := by
  cases o with
  | createDirectories path =>
    -- a directory is no write, whether it is made or not
    simp only [apply, FileStore.createDirectories]
    split <;> rfl
  | write path contents =>
    obtain ⟨hwrite, -, -⟩ | ⟨e, hwrite⟩ := write_eq path contents s
    · simp [apply, hwrite, Event.written?, write?]
    · simp [apply, hwrite, Event.written?]
  | writeWithParents path contents =>
    simp only [apply, writeWithParents_eq]
    -- a refused write is not told of, and one that is made is the newest
    split
    · simp [Event.written?]
    · simp [Event.written?, write?]
  | setReadOnly path => rfl

/-! ## Runs -/

theorem run_cons (o : Operation) (os : List Operation) (s : FileStore) :
    s.run (o :: os) =
      (⟨o, (o.apply s).1⟩ :: ((o.apply s).2.run os).1, ((o.apply s).2.run os).2) := rfl

theorem changes_run (os : List Operation) (s : FileStore) : Changes s (s.run os).2 := by
  induction os generalizing s with
  | nil => exact .refl
  -- the changes of the first operation and those of the others
  | cons o os ih => exact (o.changes_apply s).trans (ih _)

/-- The writes are those of the events, the newest first. -/
theorem writes_run (os : List Operation) (s : FileStore) :
    (s.run os).2.writes = ((s.run os).1.filterMap Event.written?).reverse ++ s.writes := by
  induction os generalizing s with
  | nil => rfl
  | cons o os ih =>
    rw [run_cons, ih, o.writes_apply, List.filterMap_cons]
    -- the event tells of a write or of none
    split
    · next hnone => rw [hnone]; rfl
    · next w hsome => rw [hsome]; simp

theorem Event.writes_iff {e : Event} {path : Path} :
    e.writes path = true ↔ ∃ w, e.written? = some w ∧ w.place = path.components := by
  simp [writes, Option.any_eq_true]

/-- The newest write of a file is that of the last event that writes it. -/
theorem find?_written_eq_some_iff {events : List Event} {path : Path} {w : Write} :
    (events.filterMap Event.written?).reverse.find? (·.place = path.components) = some w ↔
      ∃ before e after, events = before ++ e :: after ∧ e.written? = some w ∧
        w.place = path.components ∧ ∀ f ∈ after, f.writes path = false := by
  -- looking for a write from the end is looking for its event from the end
  have hfind : (events.filterMap Event.written?).reverse.find? (·.place = path.components) =
      (events.reverse.find? (·.writes path)).bind Event.written? := by
    rw [← List.filterMap_reverse, List.find?_filterMap]
    rfl
  rw [hfind, Option.bind_eq_some_iff]
  constructor
  · rintro ⟨e, he, hw⟩
    -- from the end, the event is the first one that writes the file
    obtain ⟨hwrites, after, before, hevents, hafter⟩ := List.find?_eq_some_iff_append.1 he
    obtain ⟨v, hv, hplace⟩ := Event.writes_iff.1 hwrites
    obtain rfl : v = w := Option.some.inj (hv.symm.trans hw)
    refine ⟨before.reverse, e, after.reverse, ?_, hw, hplace, by simpa using hafter⟩
    rw [← List.reverse_reverse events, hevents]
    simp
  · rintro ⟨before, e, after, rfl, hw, hplace, hafter⟩
    refine ⟨e, List.find?_eq_some_iff_append.2 ⟨Event.writes_iff.2 ⟨w, hw, hplace⟩, ?_⟩, hw⟩
    exact ⟨after.reverse, before.reverse, by simp, by simpa using hafter⟩

/-! ## Runs from an empty store -/

theorem writes_run_empty (os : List Operation) :
    (empty.run os).2.writes = ((empty.run os).1.filterMap Event.written?).reverse := by
  -- an empty store has no writes of its own
  rw [writes_run]
  exact List.append_nil _

/-- A file holds what the last event that writes it wrote. -/
theorem read?_run_empty_iff {os : List Operation} {path : Path} {contents : String} :
    (empty.run os).2.read? path = some contents ↔
      ∃ before e after, (empty.run os).1 = before ++ e :: after ∧
        e.written? = some ⟨path.components, contents⟩ ∧ ∀ f ∈ after, f.writes path = false := by
  rw [read?, writes_run_empty, Option.map_eq_some_iff]
  constructor
  · rintro ⟨w, hw, rfl⟩
    -- the place of the write is that of the file
    obtain ⟨before, e, after, hevents, hwritten, hplace, hafter⟩ := find?_written_eq_some_iff.1 hw
    exact ⟨before, e, after, hevents, by rw [hwritten, ← hplace], hafter⟩
  · rintro ⟨before, e, after, hevents, hwritten, hafter⟩
    exact ⟨_, find?_written_eq_some_iff.2 ⟨before, e, after, hevents, hwritten, rfl, hafter⟩, rfl⟩

theorem writeCount_run_empty (os : List Operation) (path : Path) :
    (empty.run os).2.writeCount path = (empty.run os).1.countP (·.writes path) := by
  rw [writeCount, writes_run_empty, List.countP_reverse, List.countP_filterMap]
  refine List.countP_congr fun e _ => ?_
  -- an event without a write counts nowhere
  cases hwritten : e.written? <;> simp [Event.writes, hwritten]

theorem totalWrites_run_empty (os : List Operation) :
    (empty.run os).2.totalWrites = (empty.run os).1.countP (·.written?.isSome) := by
  rw [totalWrites, writes_run_empty, List.length_reverse, List.length_filterMap_eq_countP]

/-! ## Read-only roots -/

/-- Whether two stores differ at most in what is read-only at or below a place. -/
structure AgreeOutside (root : Place) (s t : FileStore) : Prop where
  writes : t.writes = s.writes
  directories : t.directories = s.directories
  isReadOnly : ∀ path : Path, ¬root <+: path.components → t.isReadOnly path = s.isReadOnly path

theorem agreeOutside_setReadOnly (s : FileStore) (root : Path) :
    AgreeOutside root.components s (s.setReadOnly root) := by
  refine ⟨rfl, rfl, fun path hnot => ?_⟩
  -- the new root is not in front of the path
  have hroot : root.components.isPrefixOf path.components = false := by
    rw [Bool.eq_false_iff, Ne, List.isPrefixOf_iff_prefix]
    exact hnot
  rw [FileStore.isReadOnly, setReadOnly, List.any_cons, hroot, Bool.false_or, FileStore.isReadOnly]

section AgreeOutside

variable {root : Place} {s t : FileStore} {path : Path}

theorem AgreeOutside.createDirectories (h : AgreeOutside root s t)
    (hpath : ¬root <+: path.components) :
    (t.createDirectories path).1 = (s.createDirectories path).1 ∧
      AgreeOutside root (s.createDirectories path).2 (t.createDirectories path).2 := by
  unfold FileStore.createDirectories
  -- outside of the root both stores refuse the same
  rw [h.isReadOnly path hpath]
  split
  · exact ⟨rfl, h⟩
  · exact ⟨rfl, h.writes, by simp only [h.directories], h.isReadOnly⟩

theorem AgreeOutside.write (h : AgreeOutside root s t) (hpath : ¬root <+: path.components)
    (contents : String) :
    (t.write path contents).1 = (s.write path contents).1 ∧
      AgreeOutside root (s.write path contents).2 (t.write path contents).2 := by
  -- both look for the same directory among the same ones
  unfold FileStore.write
  rw [h.isReadOnly path hpath, h.directories]
  split
  · exact ⟨rfl, h⟩
  · split
    · exact ⟨rfl, h⟩
    · exact ⟨rfl, by simp only [h.writes], rfl, h.isReadOnly⟩

theorem AgreeOutside.writeWithParents (h : AgreeOutside root s t)
    (hpath : ¬root <+: path.components) (contents : String) :
    (t.writeWithParents path contents).1 = (s.writeWithParents path contents).1 ∧
      AgreeOutside root (s.writeWithParents path contents).2
        (t.writeWithParents path contents).2 := by
  unfold FileStore.writeWithParents
  cases hholder : holder? path with
  | none => exact h.write hpath contents
  | some directory =>
    -- what holds a path outside of the root is outside of it as well
    have hdirectory : ¬root <+: directory.components := by
      obtain ⟨-, c, hcomponents⟩ := exists_components_of_holder? hholder
      intro hfront
      refine hpath (hfront.trans ?_)
      rw [hcomponents]
      exact List.prefix_append _ _
    have hcreated := h.createDirectories hdirectory
    -- both go on from what the directory has become
    dsimp only
    generalize s.createDirectories directory = created at hcreated ⊢
    generalize t.createDirectories directory = created' at hcreated ⊢
    obtain ⟨outcome, s'⟩ := created
    obtain ⟨outcome', t'⟩ := created'
    obtain ⟨rfl, hagree⟩ : outcome' = outcome ∧ AgreeOutside root s' t' := hcreated
    cases outcome' with
    | ok _ => exact hagree.write hpath contents
    | error e => exact ⟨rfl, hagree⟩

/-- An operation outside of the root comes out alike. -/
theorem AgreeOutside.apply (h : AgreeOutside root s t) {o : Operation}
    (ho : ¬root <+: o.path.components) :
    (o.apply t).1 = (o.apply s).1 ∧ AgreeOutside root (o.apply s).2 (o.apply t).2 := by
  cases o with
  | createDirectories path => exact h.createDirectories ho
  | write path contents => exact h.write ho contents
  | writeWithParents path contents => exact h.writeWithParents ho contents
  | setReadOnly path =>
    -- one more root in both, and the others say the same of a path outside
    refine ⟨rfl, h.writes, h.directories, fun p hp => ?_⟩
    have hbefore : t.readOnlyRoots.any (·.isPrefixOf p.components) =
        s.readOnlyRoots.any (·.isPrefixOf p.components) := h.isReadOnly p hp
    simp only [Operation.apply, FileStore.setReadOnly, FileStore.isReadOnly, List.any_cons, hbefore]

/-- So do all operations outside of the root. -/
theorem AgreeOutside.run {os : List Operation} (h : AgreeOutside root s t)
    (hos : ∀ o ∈ os, ¬root <+: o.path.components) : (t.run os).1 = (s.run os).1 := by
  induction os generalizing s t with
  | nil => rfl
  | cons o os ih =>
    obtain ⟨ho, hos⟩ := List.forall_mem_cons.1 hos
    -- the first operation comes out alike and leaves stores that agree
    obtain ⟨houtcome, hagree⟩ := h.apply ho
    rw [run_cons, run_cons, houtcome, ih hagree hos]

end AgreeOutside

/-- Once a path is read-only, whatever is done changes nothing at it or below it; and operations
elsewhere come out as they would without it, refused or not. -/
theorem readOnly_frozen (s : FileStore) (root : Path) (os : List Operation) :
    let marked := s.setReadOnly root
    (∀ path : Path, root.components <+: path.components →
      (marked.run os).2.read? path = s.read? path ∧
        (marked.run os).2.contains path = s.contains path ∧
        (marked.run os).2.writeCount path = s.writeCount path) ∧
      ((∀ o ∈ os, ¬root.components <+: o.path.components) →
        (marked.run os).1 = (s.run os).1) := by
  intro marked
  refine ⟨fun path hbelow => ?_, fun hos => (agreeOutside_setReadOnly s root).run hos⟩
  -- the new root is one from the start, so all changes leave what is below it alone
  have hroot : root.components ∈ marked.readOnlyRoots := List.mem_cons_self
  obtain ⟨-, hsame⟩ := (changes_run os marked).frozen hroot hbelow
  exact ⟨hsame.read?, hsame.contains, hsame.writeCount⟩

/-- A name that goes on is no place below, and a file further down is not reached from one
outside. -/
theorem readOnly_frozen_of_siblings :
    let s : FileStore := (empty.run [.writeWithParents ⟨"/locked/a.js"⟩ "x"]).2
    let marked := s.setReadOnly ⟨"/locked/"⟩
    let inside : List Operation := [.write ⟨"/locked/a.js"⟩ "y", .createDirectories ⟨"/locked/b/c"⟩]
    let outside : List Operation :=
      [.writeWithParents ⟨"/locked2/a.js"⟩ "y", .write ⟨"/missing/a.js"⟩ "y", .createDirectories ⟨"/"⟩]
    (marked.run inside).2.read? ⟨"/locked/a.js"⟩ = some "x" ∧
      (marked.run inside).2.contains ⟨"/locked/b"⟩ = false ∧
      (marked.run inside).2.writeCount ⟨"/locked//a.js"⟩ = 1 ∧
      (marked.run outside).1.map (·.written?.isSome) = [true, false, false] := by
  intro s marked inside outside
  obtain ⟨hinside, -⟩ := readOnly_frozen s ⟨"/locked/"⟩ inside
  obtain ⟨-, houtside⟩ := readOnly_frozen s ⟨"/locked/"⟩ outside
  refine ⟨?_, ?_, ?_, ?_⟩
  · -- at or below the root, what is read is what was there
    exact (hinside ⟨"/locked/a.js"⟩ (by decide +kernel)).1.trans (by decide +kernel)
  · exact (hinside ⟨"/locked/b"⟩ (by decide +kernel)).2.1.trans (by decide +kernel)
  · exact (hinside ⟨"/locked//a.js"⟩ (by decide +kernel)).2.2.trans (by decide +kernel)
  · -- the others are elsewhere, so they come out as without the root
    rw [houtside (by decide +kernel)]
    decide +kernel

end Preload.FileStore
