import Preload.Compile
import Preload.Proofs.Injector.Backing
import Preload.Proofs.Injector.Reference

/-!
# Independence of compiled files

The files of a build share one run, so one file could feel what became of the files before it. It
does not: a run that has only served one layout differs from the run it started as by nothing but
the number of its requests. That number decides how often the support module is written, and never
whether a file gets its statement. So neither the order of the files nor `cache` shows in the
output.

Main statements:
* `Run.Served.step` and `Run.Served.serve`: what the requests of one layout do to a run;
* `compileFile_of_served`: what a file becomes after them;
* `compileFiles_independent`: every file has the output that it has alone.
-/

namespace Preload

/-! ## Runs that serve one layout -/

/-- A request is for the support module of a layout. -/
structure Request.IsFor (l : Layout) (q : Request) : Prop where
  destRoot : q.placement.destRoot = l.destRoot
  destPath : q.placement.destPath = l.supportDestPath
  cache : q.cache = l.cache

namespace Layout

/-- What a request of a layout is answered, but for whether the module is written. -/
def answer (l : Layout) (store : FileStore) : Except InjectError Unit :=
  if store.isReadOnly l.supportDestPath then
    .error (.store l.supportDestPath (.readOnly (store.refusedPath l.supportDestPath)))
  else .ok ()

/-- Whether a request of a layout has the module written, after some other ones. -/
def writesAfter (l : Layout) (store : FileStore) (requests : Nat) : Bool :=
  !store.isReadOnly l.supportDestPath && !(l.cache && decide (0 < requests))

/-- How often some requests of a layout have the module written. -/
def writesFor (l : Layout) (store : FileStore) (requests : Nat) : Nat :=
  if store.isReadOnly l.supportDestPath then 0
  else if l.cache then min 1 requests
  else requests

@[simp] theorem writesFor_zero (l : Layout) (store : FileStore) : l.writesFor store 0 = 0 := by
  simp [writesFor]

theorem writesFor_succ (l : Layout) (store : FileStore) (requests : Nat) :
    l.writesFor store (requests + 1) =
      (l.writesAfter store requests).toNat + l.writesFor store requests := by
  unfold writesFor writesAfter
  -- a read-only path is never written
  cases store.isReadOnly l.supportDestPath with
  | true => rfl
  | false =>
    -- with `cache` only the first request writes, without it every one
    cases l.cache with
    | true => cases requests <;> simp
    | false => simp [Nat.add_comm]

end Layout

namespace Run

/-- The run after some requests of a layout, if it was `start` before them. -/
structure Served (l : Layout) (start : Run) (requests : Nat) (r : Run) : Prop where
  readOnlyRoots : r.store.readOnlyRoots = start.store.readOnlyRoots
  payload : r.payload = start.payload
  isRecorded : r.isRecorded l.destRoot =
    (!start.store.isReadOnly l.supportDestPath && l.cache && decide (0 < requests))
  writes : r.store.writes = List.replicate (l.writesFor start.store requests)
    ⟨l.supportDestPath.components, start.payload⟩

theorem served_fresh (l : Layout) {store : FileStore} (hstore : store.writes = [])
    (payload : String) : Served l (fresh store payload) 0 (fresh store payload) where
  readOnlyRoots := rfl
  payload := rfl
  -- a new run has no record
  isRecorded := by simp [fresh, isRecorded]
  writes := by
    rw [Layout.writesFor_zero, List.replicate_zero]
    exact hstore

variable {l : Layout} {start r : Run} {requests : Nat} {q : Request}

/-- What comes of one more request: the number of the earlier ones decides only whether it
writes. -/
theorem Served.outcome_step (h : Served l start requests r) (hq : q.IsFor l) :
    (r.step q).1.outcome =
      (l.answer start.store).map fun _ => l.writesAfter start.store requests := by
  -- only records and writes set the run apart from its start, and only the record is asked for
  rw [step, materialize_eq, hq.destRoot, hq.destPath, hq.cache, h.isRecorded,
    FileStore.isReadOnly_congr h.readOnlyRoots, FileStore.refusedPath_congr h.readOnlyRoots,
    Layout.answer, Layout.writesAfter]
  -- after the first request the module is there, if it is cached
  cases start.store.isReadOnly l.supportDestPath with
  | true => cases l.cache <;> rfl
  | false => cases l.cache <;> cases requests <;> rfl

theorem Served.wrote_step (h : Served l start requests r) (hq : q.IsFor l) :
    (r.step q).1.wrote = l.writesAfter start.store requests := by
  rw [Receipt.wrote, h.outcome_step hq, Layout.answer, Layout.writesAfter]
  cases start.store.isReadOnly l.supportDestPath <;> rfl

/-- One more request of the layout. -/
theorem Served.step (h : Served l start requests r) (hq : q.IsFor l) :
    Served l start (requests + 1) (r.step q).2 where
  readOnlyRoots := (readOnlyRoots_step q r).trans h.readOnlyRoots
  payload := (payload_step q r).trans h.payload
  isRecorded := by
    -- a request records just if it is cached and writes
    have hrecords : (r.step q).1.records = (l.cache && l.writesAfter start.store requests) := by
      rw [Receipt.records, h.wrote_step hq, request_step, hq.cache]
    rw [isRecorded_step, h.isRecorded, hrecords, hq.destRoot, Layout.writesAfter]
    cases start.store.isReadOnly l.supportDestPath <;> cases l.cache <;> simp
  writes := by
    -- the payload is written at the one place of the layout
    have hwrite : (r.step q).1.write r.payload = ⟨l.supportDestPath.components, start.payload⟩ := by
      rw [Receipt.write, Receipt.place, request_step, hq.destPath, h.payload]
    rw [writes_step, h.wrote_step hq, hwrite, h.writes, Layout.writesFor_succ, List.replicate_add]
    cases l.writesAfter start.store requests <;> rfl

/-- Some more requests of the layout. -/
theorem Served.serve (h : Served l start requests r) {qs : List Request}
    (hqs : ∀ q ∈ qs, q.IsFor l) : Served l start (requests + qs.length) (r.serve qs).2 := by
  induction qs generalizing requests r with
  | nil => exact h
  | cons q qs ih =>
    rw [List.forall_mem_cons] at hqs
    -- one request is served, and the others go on from there
    have hrest := ih (h.step hqs.1) hqs.2
    rwa [Nat.add_assoc, Nat.add_comm 1] at hrest

end Run

/-! ## Transformations and files -/

namespace Injector

theorem isFor_of_mem_request? {i : Injector} {file : Path} {q : Request}
    (h : q ∈ i.request? file) : q.IsFor i.layout := by
  unfold request? at h
  split at h
  · next p hplacement =>
    obtain rfl := Option.some.inj h
    -- a placement has the places of the layout
    obtain ⟨-, hroot, hpath⟩ := of_placement_eq_some hplacement
    exact ⟨hroot, hpath, rfl⟩
  · cases h

/-- In an absolute working directory, every entry asks for the support module. -/
theorem isSome_request? {i : Injector} (hcwd : i.cwd.isAbsolute) (file : Path) :
    (i.request? file).isSome = i.isEntry file := by
  -- an entry has a placement, and any other file has none
  cases hentry : i.isEntry file with
  | true =>
    obtain ⟨p, hplacement⟩ := exists_placement_of_isAbsolute hcwd hentry
    rw [request?, hplacement]
    rfl
  | false =>
    rw [request?, placement_eq_none_iff.2 hentry]
    rfl

/-- The injector with the same options but for `cache`. -/
def withCache (cache : Bool) (i : Injector) : Injector :=
  { i with options := { i.options with cache } }

theorem layout_withCache (cache : Bool) (i : Injector) :
    (i.withCache cache).layout = { i.layout with cache } := by
  -- `cache` is in no path of the layout
  simp only [layout, withCache, Layout.ofOptions]

theorem answer_withCache (cache : Bool) (i : Injector) (store : FileStore) :
    (i.withCache cache).layout.answer store = i.layout.answer store := by
  rw [layout_withCache]
  generalize i.layout = l
  rfl

theorem injectInPlace_withCache (cache : Bool) (i : Injector) (p : Placement) (program : Program) :
    (i.withCache cache).injectInPlace p program = i.injectInPlace p program := by
  simp only [injectInPlace, supportStatement, layout_withCache]

theorem placement_withCache (cache : Bool) (i : Injector) (file : Path) :
    (i.withCache cache).placement file = i.placement file := by
  rw [placement, placement, layout_withCache]
  generalize i.layout = l
  -- no part of the placement looks at `cache`
  have hdirectory (entry : Path) :
      Layout.directoryOf { l with cache } entry = l.directoryOf entry := rfl
  have hentry (path : Path) : Layout.hasEntry { l with cache } path = l.hasEntry path := rfl
  simp only [hdirectory, hentry]

/-- What a transformation gives once the support module could be written, or could not. -/
def resultOf (i : Injector) (program : Program) (file : Path) (answer : Except InjectError Unit) :
    Except InjectError (Option Program) :=
  (i.placement file).bind fun
    | none => .ok none
    | some p => answer.bind fun _ => made (i.injectInPlace p program)

theorem resultOf_withCache (cache : Bool) (i : Injector) (program : Program) (file : Path)
    (answer : Except InjectError Unit) :
    (i.withCache cache).resultOf program file answer = i.resultOf program file answer := by
  simp only [resultOf, placement_withCache, injectInPlace_withCache]

/-- A transformation asks its run only whether the support module could be written. -/
theorem fst_transform {i : Injector} {file : Path} {r : Run} {answer : Except InjectError Unit}
    (h : ∀ q ∈ i.request? file, (r.step q).1.outcome.map (fun _ => ()) = answer)
    (program : Program) : (i.transform program file r).1 = i.resultOf program file answer := by
  unfold request? at h
  rw [resultOf]
  -- without a placement the run is not asked
  cases hplacement : i.placement file with
  | error e =>
    rw [transform_eq_prepare]
    unfold prepare
    rw [hplacement]
    rfl
  | ok placement =>
    cases placement with
    | none =>
      rw [transform_eq_prepare]
      unfold prepare
      rw [hplacement]
      rfl
    | some p =>
      rw [hplacement] at h
      have hanswer := h _ rfl
      -- the run answers, and the rest depends on the program alone
      rw [transform_of_placement hplacement, ← hanswer, Run.step]
      cases (r.materialize p i.layout.cache).1 <;> rfl

end Injector

namespace SourceFile

/-- What the compilation of a file asks its run for. -/
def request? (i : Injector) (f : SourceFile) : Option Request :=
  if (Program.parse f.source).isOk then i.request? f.path else none

/-- What a file becomes once the support module could be written, or could not. -/
def outputOf (i : Injector) (f : SourceFile) (answer : Except InjectError Unit) :
    Except CompileError Output :=
  match Program.parse f.source with
  | .error e => .error (.parse e)
  | .ok program =>
    match i.resultOf program f.path answer with
    | .error e => .error (.inject e)
    | .ok result => .ok (.ofTransform program result)

theorem isFor_of_mem_request? {i : Injector} {f : SourceFile} {q : Request}
    (h : q ∈ f.request? i) : q.IsFor i.layout := by
  unfold request? at h
  -- a source that cannot be parsed asks for nothing
  split at h
  · exact Injector.isFor_of_mem_request? h
  · cases h

theorem isSome_request? {i : Injector} (hcwd : i.cwd.isAbsolute) (f : SourceFile) :
    (f.request? i).isSome = ((Program.parse f.source).isOk && i.isEntry f.path) := by
  unfold request?
  split
  · next hparse => rw [Injector.isSome_request? hcwd, hparse, Bool.true_and]
  · next hparse => rw [Bool.eq_false_iff.2 hparse, Bool.false_and, Option.isSome_none]

end SourceFile

/-- The compilation of a file does to its run what its request does. -/
theorem snd_compileFile (i : Injector) (f : SourceFile) (r : Run) :
    (compileFile i f r).2 = (r.serve (f.request? i).toList).2 := by
  unfold compileFile SourceFile.request?
  cases Program.parse f.source with
  | error e => rfl
  | ok program =>
    -- the program is handed on, and the run is that of its transformation
    have hrun := i.snd_transform program f.path r
    rw [show (Except.ok program : Except ParseError Program).isOk = true from rfl, if_pos rfl, ← hrun]
    simp only
    cases i.transform program f.path r with
    | mk result r' => cases result <;> rfl

variable {i : Injector} {start r : Run} {requests : Nat}

/-- The earlier requests of the layout do not show in what a file becomes. -/
theorem compileFile_of_served (h : Run.Served i.layout start requests r) (f : SourceFile) :
    (compileFile i f r).1 = f.outputOf i (i.layout.answer start.store) := by
  unfold compileFile SourceFile.outputOf
  cases Program.parse f.source with
  | error e => rfl
  | ok program =>
    have hresult : (i.transform program f.path r).1 =
        i.resultOf program f.path (i.layout.answer start.store) := by
      -- whether the module was written now or before does not show in the answer
      refine Injector.fst_transform (fun q hq => ?_) program
      rw [h.outcome_step (Injector.isFor_of_mem_request? hq)]
      cases i.layout.answer start.store <;> rfl
    simp only
    rw [← hresult]
    cases i.transform program f.path r with
    | mk result r' => cases result <;> rfl

/-- What files become, and what their compilation does to the run. -/
theorem compileFiles_of_served (h : Run.Served i.layout start requests r)
    (files : List SourceFile) :
    (compileFiles i files r).1 = files.map (·.outputOf i (i.layout.answer start.store)) ∧
      Run.Served i.layout start (requests + (files.filterMap (·.request? i)).length)
        (compileFiles i files r).2 := by
  -- the invariant is kept by each file, with one more request if the file asks for the module
  induction files generalizing requests r with
  | nil => exact ⟨rfl, h⟩
  | cons f files ih =>
    -- the file asks for the module once or not at all
    have hserved : Run.Served i.layout start (requests + (f.request? i).toList.length)
        (compileFile i f r).2 := by
      rw [snd_compileFile]
      refine h.serve fun q hq => SourceFile.isFor_of_mem_request? (Option.mem_toList.1 hq)
    obtain ⟨houtputs, hrun⟩ := ih hserved
    -- the requests of the first file and those of the others
    have hlength : (f.request? i).toList.length + (files.filterMap (·.request? i)).length =
        ((f :: files).filterMap (·.request? i)).length := by
      rw [List.filterMap_cons]
      cases f.request? i with
      | none => exact Nat.zero_add _
      | some q => exact Nat.add_comm _ _
    refine ⟨?_, ?_⟩
    · -- the first output is that after earlier requests, which is the same as after none
      rw [compileFiles, List.map_cons, ← houtputs, ← compileFile_of_served h]
    · rw [← hlength, ← Nat.add_assoc]
      exact hrun

/-- Every file of a build has the output that it has alone in a new run, with `cache` or without.
The support module is written to its one place, never if that is read-only, and otherwise once with
`cache`, or else once for each entry that can be parsed. -/
theorem compileFiles_independent (hcwd : i.cwd.isAbsolute) (files : List SourceFile)
    (readOnly : List Path) (payload : String) :
    let store := FileStore.empty.withReadOnly readOnly
    let outputs := (compileFiles i files (.fresh store payload)).1
    let built := (compileFiles i files (.fresh store payload)).2.store
    let entries := files.countP fun f => (Program.parse f.source).isOk && i.isEntry f.path
    (∀ cache, outputs = files.map fun f =>
        (compileFile (i.withCache cache) f (.fresh store payload)).1) ∧
      (∀ w ∈ built.writes, w = ⟨i.layout.supportDestPath.components, payload⟩) ∧
      built.totalWrites =
        if store.isReadOnly i.layout.supportDestPath then 0
        else if i.options.cache then min 1 entries
        else entries := by
  intro store outputs built entries
  have hstore : store.writes = [] := FileStore.writes_withReadOnly readOnly .empty
  have hfresh (l : Layout) := Run.served_fresh l hstore payload
  obtain ⟨houtputs, hserved⟩ := compileFiles_of_served (hfresh i.layout) files
  -- the files that ask for the module are the entries that can be parsed
  have hentries : (files.filterMap (·.request? i)).length = entries := by
    rw [List.length_filterMap_eq_countP]
    simp only [SourceFile.isSome_request? hcwd]
    rfl
  rw [Nat.zero_add, hentries] at hserved
  refine ⟨fun cache => houtputs.trans ?_, fun w hw => ?_, ?_⟩
  · -- alone, a file is compiled after no requests, and `cache` does not show in the answer
    refine List.map_congr_left fun f _ => ?_
    rw [compileFile_of_served (hfresh (i.withCache cache).layout), Run.fresh,
      Injector.answer_withCache]
    simp only [SourceFile.outputOf, Injector.resultOf_withCache]
  · -- all writes are the same one
    rw [hserved.writes] at hw
    exact List.eq_of_mem_replicate hw
  · rw [FileStore.totalWrites, hserved.writes, List.length_replicate, Layout.writesFor]
    rfl

/-- Of four files two are entries that can be parsed, and one write does for both. -/
theorem compileFiles_independent_of_mixed :
    let i : Injector := ⟨.default, ⟨"/app"⟩⟩
    let files : List SourceFile :=
      [⟨⟨"src/index.js"⟩, "run();"⟩, ⟨⟨"src/index.js"⟩, "run("⟩, ⟨⟨"src/other.js"⟩, "run();"⟩,
        ⟨⟨"/app/src/./index.js"⟩, "'use strict'\nrun()"⟩]
    let r := Run.fresh (FileStore.empty.withReadOnly [⟨"/app/src"⟩]) "x"
    i.cwd.isAbsolute = true ∧
      (compileFiles i files r).1 = files.map (fun f => (compileFile (i.withCache false) f r).1) ∧
      (compileFiles i files r).2.store.totalWrites = 1 := by
  intro i files r
  have hcwd : i.cwd.isAbsolute = true := by decide
  obtain ⟨houtputs, -, hwrites⟩ := compileFiles_independent hcwd files [⟨"/app/src"⟩] "x"
  refine ⟨hcwd, houtputs false, ?_⟩
  -- the number of entries that can be parsed is computed
  rw [hwrites]
  decide +kernel

end Preload
