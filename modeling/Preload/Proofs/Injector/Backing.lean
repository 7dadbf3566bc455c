import Preload.Proofs.Injector.Transform
import Preload.Proofs.Run.Ledger

/-!
# What backs the injected references

Transformations share one run, and of all that a run holds they only ask it for the support module
(`Injector.snd_transform`). So the ledger of the run says where the module stands.

A cached request is skipped for an output tree that is recorded, whatever place in the tree it asks
for. Two injectors that write into one tree, but want the module at different places, therefore get
it at one of them only (`Injector.exists_transform_without_module`). This is the one way in which an
injected reference can be left without its module.

Main statements:
* `Run.after_eq_serve`: a run after transformations is the run after their requests;
* `Injector.module_in_place_iff`: where the support module stands after a transformation.
-/

namespace Preload

/-! ## Diverted requests -/

/-- Whether a request is skipped although the support module is not where it wants it: an earlier
one had its output tree recorded, and none had the module written to this place. -/
def Request.Diverted (q : Request) (receipts : List Receipt) : Prop :=
  q.cache = true ∧
    (∃ e ∈ receipts, e.records = true ∧ e.root = q.placement.destRoot.components) ∧
    ∀ e ∈ receipts, e.wrote = true → e.place ≠ q.placement.destPath.components

/-- A request is not diverted where the cached ones for its output tree agree on the place. -/
theorem Request.not_diverted_of_agree {q : Request} {qs : List Request} {r : Run}
    (h : ∀ p ∈ qs, p.cache = true → p.placement.destRoot.components = q.placement.destRoot.components →
      p.placement.destPath.components = q.placement.destPath.components) :
    ¬q.Diverted (r.serve qs).1 := by
  -- the root was recorded by a cached request that wrote
  rintro ⟨-, ⟨e, he, hrecords, hroot⟩, hplace⟩
  obtain ⟨hcache, hwrote⟩ := Bool.and_eq_true_iff.1 hrecords
  have hrequest : e.request ∈ qs := by
    rw [← Run.map_request_serve qs r]
    -- which wants the same place, so it wrote there
    exact List.mem_map_of_mem he
  exact hplace e he hwrote (h e.request hrequest hcache hroot)

/-- Once a request was answered, the payload is where it wants it, unless it was diverted. -/
theorem Run.read?_step {r : Run} (hstart : r.store.writes = []) (hfresh : r.recorded = [])
    (qs : List Request) (q : Request) {wrote : Bool}
    (h : ((r.serve qs).2.step q).1.outcome = .ok wrote) :
    let read := ((r.serve qs).2.step q).2.store.read? q.placement.destPath
    (q.Diverted (r.serve qs).1 → read = none) ∧
      (¬q.Diverted (r.serve qs).1 → read = some r.payload) := by
  -- in a fresh run nothing is recorded but by earlier requests
  have hskip : ((r.serve qs).2.step q).1.outcome = .ok false ↔ q.cache = true ∧
      ∃ e ∈ (r.serve qs).1, e.records = true ∧ e.root = q.placement.destRoot.components := by
    rw [outcome_step_eq_ok_false_iff, isRecorded_serve_iff, isRecorded, hfresh]
    simp
  -- what is read is what was written last, and only receipts tell of writes
  obtain ⟨hwritten, hmissing⟩ := read?_serve hstart (qs ++ [q]) q.placement.destPath
  rw [serve_append] at hwritten hmissing
  refine ⟨fun hdiverted => hmissing ?_, fun hnot => hwritten ?_⟩
  · -- the request is skipped, and no earlier one had the module written there
    obtain ⟨hcache, hrecorded, hplaces⟩ := hdiverted
    rintro ⟨e, he, hwrote, hplace⟩
    -- an earlier request wrote elsewhere, and this one was skipped
    obtain he | he := List.mem_append.1 he
    · exact hplaces e he hwrote hplace
    · obtain rfl := List.mem_singleton.1 he
      rw [Receipt.wrote_iff, hskip.2 ⟨hcache, hrecorded⟩] at hwrote
      cases hwrote
  · cases wrote with
    | true =>
      -- the request is not diverted: it had the module written now, or it found it there
      exact ⟨_, List.mem_append_right _ (List.mem_singleton_self _), Receipt.wrote_iff.2 h, rfl⟩
    | false =>
      -- it was skipped, so its tree was recorded
      obtain ⟨hcache, hrecorded⟩ := hskip.1 h
      obtain ⟨e, he, hwrote, hplace⟩ : ∃ e ∈ (r.serve qs).1, e.wrote = true ∧
          -- were there no write to this place, the request would be diverted
          e.place = q.placement.destPath.components := by
        by_contra hnone
        exact hnot ⟨hcache, hrecorded, fun e he hwrote hplace => hnone ⟨e, he, hwrote, hplace⟩⟩
      exact ⟨e, List.mem_append_left _ he, hwrote, hplace⟩

/-! ## Transformations as requests -/

/-- A program that an injector transforms for a file. -/
structure Job where
  injector : Injector
  program : Program
  file : Path

/-- What a transformation asks its run for: nothing, unless the file is an entry. -/
def Injector.request? (i : Injector) (file : Path) : Option Request :=
  match i.placement file with
  | .ok (some p) => some ⟨p, i.layout.cache⟩
  | _ => none

namespace Run

/-- The run after some transformations in order. -/
def after (jobs : List Job) (r : Run) : Run :=
  jobs.foldl (fun r j => (j.injector.transform j.program j.file r).2) r

/-- What some transformations ask their run for. -/
def requests (jobs : List Job) : List Request :=
  jobs.filterMap fun j => j.injector.request? j.file

end Run

namespace Injector

/-- A transformation does to its run what its request does. -/
theorem snd_transform (i : Injector) (program : Program) (file : Path) (r : Run) :
    (i.transform program file r).2 = (r.serve (i.request? file).toList).2 := by
  -- the injection leaves the run as it was prepared
  rw [transform_eq_prepare]
  show (i.prepare file r).2 = _
  cases hplacement : i.placement file with
  | error e =>
    -- without a placement nothing is asked for, whether it is an error or no entry
    unfold prepare request?
    rw [hplacement]
    rfl
  | ok placement =>
    cases placement with
    | none =>
      unfold prepare request?
      rw [hplacement]
      rfl
    | some p =>
      -- with one, the request is for the placement, served alone
      rw [prepare_of_placement hplacement, request?, hplacement]
      rfl

/-- A transformation that gave a result had its request answered. -/
theorem exists_request_of_transform {i : Injector} {program : Program} {file : Path} {r r' : Run}
    {result : Option Program} (hentry : i.isEntry file = true)
    (h : i.transform program file r = (.ok result, r')) :
    ∃ placement wrote, i.placement file = .ok (some placement) ∧
      (r.step ⟨placement, i.layout.cache⟩).1.outcome = .ok wrote ∧
      (r.step ⟨placement, i.layout.cache⟩).2 = r' := by
  -- a result of an entry comes with a placement
  obtain ⟨p, hplacement, -⟩ := of_transform_eq_ok hentry h
  rw [transform_of_placement hplacement] at h
  have hresult := congrArg Prod.fst h
  have hrun : (r.materialize p i.layout.cache).2 = r' := congrArg Prod.snd h
  simp only at hresult
  cases hwritten : (r.materialize p i.layout.cache).1 with
  | error e =>
    -- a refused write would have been the outcome
    rw [hwritten] at hresult
    cases hresult
  -- a write that was made or skipped lets the transformation go on
  | ok wrote => exact ⟨p, wrote, hplacement, hwritten, hrun⟩

end Injector

/-- A run after transformations is the run after their requests. -/
theorem Run.after_eq_serve (jobs : List Job) (r : Run) :
    r.after jobs = (r.serve (requests jobs)).2 := by
  induction jobs generalizing r with
  | nil => rfl
  | cons j jobs ih =>
    -- a job has one request or none, which is served in front of the later ones
    rw [after, List.foldl_cons, Injector.snd_transform, requests, List.filterMap_cons]
    have hjobs := ih (r.serve (j.injector.request? j.file).toList).2
    rw [after] at hjobs
    rw [hjobs]
    cases j.injector.request? j.file <;> rfl

namespace Injector

/-- After a transformation of an entry that gave a result, the support module is where the placement
says, unless the request for it was diverted, and then no file is there; at most a directory is. No
request is diverted where the cached ones for one output tree agree on the place. -/
theorem module_in_place_iff {readOnly : List Path} {payload : String} {jobs : List Job}
    {i : Injector} {program : Program} {file : Path} {result : Option Program} {r' : Run}
    (hentry : i.isEntry file = true)
    (h : i.transform program file
      ((Run.fresh (FileStore.empty.withReadOnly readOnly) payload).after jobs) = (.ok result, r')) :
    ∃ placement, i.placement file = .ok (some placement) ∧
      let receipts :=
        ((Run.fresh (FileStore.empty.withReadOnly readOnly) payload).serve (Run.requests jobs)).1
      let q : Request := ⟨placement, i.layout.cache⟩
      (r'.store.read? placement.destPath = some payload ↔ ¬q.Diverted receipts) ∧
        (r'.store.read? placement.destPath = none ↔ q.Diverted receipts) ∧
        ((∀ p ∈ Run.requests jobs, p.cache = true →
          p.placement.destRoot.components = placement.destRoot.components →
          p.placement.destPath.components = placement.destPath.components) →
          r'.store.read? placement.destPath = some payload) := by
  -- the outcome is that of one more request behind all earlier ones
  obtain ⟨placement, wrote, hplacement, houtcome, rfl⟩ := exists_request_of_transform hentry h
  rw [Run.after_eq_serve] at houtcome ⊢
  refine ⟨placement, hplacement, ?_⟩
  intro receipts q
  -- nothing is written yet in a fresh store, whatever is read-only
  have hstart : (Run.fresh (FileStore.empty.withReadOnly readOnly) payload).store.writes = [] :=
    FileStore.writes_withReadOnly readOnly .empty
  obtain ⟨hdiverted, hplaced⟩ := Run.read?_step hstart rfl (Run.requests jobs) q houtcome
  refine ⟨⟨fun hread hq => ?_, hplaced⟩, ⟨fun hread => ?_, hdiverted⟩,
    fun hagree => hplaced (Request.not_diverted_of_agree hagree)⟩
  · -- the payload and nothing cannot both be read
    rw [hdiverted hq] at hread
    cases hread
  · -- without a diversion the payload is there
    by_contra hq
    rw [hplaced hq] at hread
    cases hread

/-- An injector without `cache` has the module written for itself, after one for another place. -/
theorem module_in_place_of_uncached :
    let first : Injector := ⟨{ Options.default with supportModulePath := ⟨"a.js"⟩ }, ⟨"/app"⟩⟩
    let second : Injector :=
      ⟨{ Options.default with supportModulePath := ⟨"b.js"⟩, cache := false }, ⟨"/app"⟩⟩
    let program : Program := ⟨none, [], []⟩
    let file : Path := ⟨"src/index.js"⟩
    let r := (Run.fresh (FileStore.empty.withReadOnly [⟨"/app/src"⟩]) "x").after [⟨first, program, file⟩]
    second.isEntry file = true ∧
      ∃ result r', second.transform program file r = (.ok result, r') ∧
        r'.store.read? ⟨"/app/build/b.js"⟩ = some "x" := by
  intro first second program file r
  let placement : Placement :=
    ⟨⟨"/app/src/index.js"⟩, ⟨"/app/build"⟩, ⟨"/app/build/b.js"⟩, "./b.js"⟩
  -- everything is for one file here, so placement and write are evaluated
  have hentry : second.isEntry file = true := by decide +kernel
  have hplacement : second.placement file = .ok (some placement) := by decide +kernel
  have hwritten : (r.materialize placement second.layout.cache).1 = .ok true := by decide +kernel
  have htransform : second.transform program file r =
      (.ok (some (program.prepend (second.injected "./b.js"))),
        (r.materialize placement second.layout.cache).2) :=
    transform_of_transformInPlace (transformInPlace_eq_ok hplacement hwritten rfl (by decide))
  refine ⟨hentry, _, _, htransform, ?_⟩
  obtain ⟨p, hp, hin, -⟩ := module_in_place_iff hentry htransform
  obtain rfl : placement = p := by
    rw [hplacement] at hp
    cases hp
    rfl
  -- it asks for no cache, and only cached requests are skipped
  refine hin.2 fun hdiverted => ?_
  cases hdiverted.1

/-- Of two injectors with `cache` that write into one output tree, only the first one has the module
written. The second one's statement refers to another place, and no file is there. -/
theorem exists_transform_without_module :
    let first : Injector := ⟨{ Options.default with supportModulePath := ⟨"a.js"⟩ }, ⟨"/app"⟩⟩
    let second : Injector := ⟨{ Options.default with supportModulePath := ⟨"b.js"⟩ }, ⟨"/app"⟩⟩
    let program : Program := ⟨none, [], []⟩
    let file : Path := ⟨"src/index.js"⟩
    let r := (Run.fresh .empty "x").after [⟨first, program, file⟩]
    second.isEntry file = true ∧
      ∃ placement r', second.placement file = .ok (some placement) ∧
        second.transform program file r =
          (.ok (some (program.prepend (second.injected "./b.js"))), r') ∧
        r'.store.read? placement.destPath = none := by
  -- the second request finds the tree recorded, and its own place empty
  intro first second program file r
  let placement : Placement :=
    ⟨⟨"/app/src/index.js"⟩, ⟨"/app/build"⟩, ⟨"/app/build/b.js"⟩, "./b.js"⟩
  have hplacement : second.placement file = .ok (some placement) := by decide +kernel
  have hskipped : (r.materialize placement second.layout.cache).1 = .ok false := by decide +kernel
  exact ⟨by decide +kernel, placement, _, hplacement,
    transform_of_transformInPlace (transformInPlace_eq_ok hplacement hskipped rfl (by decide)),
    by decide +kernel⟩

end Injector

end Preload
