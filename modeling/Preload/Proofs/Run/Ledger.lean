import Preload.Proofs.FileStore.Writing
import Preload.Run

/-!
# The ledger of a run

A run is asked for the support module again and again, for many placements, with and without
`cache`. The receipts of all requests, oldest first, account for everything in its state: which
output trees are recorded, what was written, and which requests were skipped.

Main statements:
* `Run.materialize_eq`: what comes of one request;
* `Run.recorded_serve` and `Run.writes_serve`: the records and the writes of a run, from its
  receipts;
* `Run.pairwise_serve`: no output tree is recorded twice;
* `Run.ledger_of_fresh`: the whole account for a run that starts without records.
-/

namespace Preload

/-- The support module is asked for. -/
structure Request where
  placement : Placement
  cache : Bool
  deriving DecidableEq, Repr

/-- A request and what came of it. -/
structure Receipt where
  request : Request
  outcome : Except InjectError Bool

namespace Receipt

/-- The output tree that the module was asked for. -/
def root (e : Receipt) : Place :=
  e.request.placement.destRoot.components

/-- The place that the module was asked for at. -/
def place (e : Receipt) : Place :=
  e.request.placement.destPath.components

/-- Whether the module was written. -/
def wrote (e : Receipt) : Bool :=
  match e.outcome with
  | .ok wrote => wrote
  | .error _ => false

/-- Whether the output tree was recorded. -/
def records (e : Receipt) : Bool :=
  e.request.cache && e.wrote

/-- The write that a request for `contents` asks for. -/
def write (contents : String) (e : Receipt) : Write :=
  ⟨e.place, contents⟩

theorem wrote_iff {e : Receipt} : e.wrote = true ↔ e.outcome = .ok true := by
  unfold wrote
  split
  · next h => rw [h]; simp
  · next h => rw [h]; simp

end Receipt

namespace Run

/-- Serves a request. -/
def step (q : Request) (r : Run) : Receipt × Run :=
  ((⟨q, (r.materialize q.placement q.cache).1⟩ : Receipt), (r.materialize q.placement q.cache).2)

/-- Serves requests in order. -/
def serve : List Request → Run → List Receipt × Run
  | [], r => ([], r)
  | q :: qs, r => ((r.step q).1 :: ((r.step q).2.serve qs).1, ((r.step q).2.serve qs).2)

/-! ## One request -/

theorem isRecorded_iff {r : Run} {root : Path} :
    r.isRecorded root = true ↔ ∃ p ∈ r.recorded, p.components = root.components := by
  simp [isRecorded]

theorem isRecorded_eq_false_iff {r : Run} {root : Path} :
    r.isRecorded root = false ↔ ∀ p ∈ r.recorded, p.components ≠ root.components := by
  simp [isRecorded]

/-- The support module is skipped for a recorded output tree, refused for a read-only path, and
written otherwise. -/
theorem materialize_eq (p : Placement) (cache : Bool) (r : Run) :
    r.materialize p cache =
      if cache && r.isRecorded p.destRoot then (.ok false, r)
      else if r.store.isReadOnly p.destPath then
        (.error (.store p.destPath (.readOnly (r.store.refusedPath p.destPath))),
          { r with store := r.store.withHolder p.destPath })
      else
        (.ok true,
          { r with
            store :=
              { r.store.withHolder p.destPath with
                writes := ⟨p.destPath.components, r.payload⟩ :: r.store.writes }
            recorded := if cache then r.recorded ++ [p.destRoot] else r.recorded }) := by
  unfold materialize
  -- the store writes or refuses as its path says
  rw [FileStore.writeWithParents_eq]
  by_cases hrecorded : cache && r.isRecorded p.destRoot
  · rw [if_pos hrecorded, if_pos hrecorded]
  · rw [if_neg hrecorded, if_neg hrecorded]
    by_cases hreadOnly : r.store.isReadOnly p.destPath
    · rw [if_pos hreadOnly, if_pos hreadOnly]
    · rw [if_neg hreadOnly, if_neg hreadOnly]

/-- Where the support module was written stands the payload. -/
theorem read?_of_materialize {placement : Placement} {cache : Bool} {r r' : Run}
    (h : r.materialize placement cache = (.ok true, r')) :
    r'.store.read? placement.destPath = some r.payload := by
  rw [materialize_eq] at h
  -- a request that is skipped or refused does not answer that it wrote
  split at h
  · cases h
  · split at h
    · cases h
    · cases h
      simp [FileStore.read?]

/-- The support module is only ever refused by the store. -/
theorem of_materialize_eq_error {placement : Placement} {cache : Bool} {r r' : Run}
    {e : InjectError} (h : r.materialize placement cache = (.error e, r')) :
    ∃ cause, e = .store placement.destPath cause := by
  rw [materialize_eq] at h
  split at h
  · cases h
  · -- the store refused; a skipped request is no error
    split at h
    · cases h
      exact ⟨_, rfl⟩
    · cases h

/-- A run that has the support module can be asked for it again. -/
theorem exists_materialize_again {placement : Placement} {cache : Bool} {r : Run} {wrote : Bool}
    (h : (r.materialize placement cache).1 = .ok wrote) :
    ∃ again, ((r.materialize placement cache).2.materialize placement cache).1 = .ok again := by
  have hwrite := materialize_eq placement cache r
  split at hwrite
  · -- nothing was done, so the second answer is the first one
    rw [show (r.materialize placement cache).2 = r from congrArg Prod.snd hwrite]
    exact ⟨wrote, h⟩
  · split at hwrite
    · rw [hwrite] at h
      cases h
    · -- the write was made, so the path is not read-only, and no write makes it so
      next hreadOnly =>
      have hroots : (r.materialize placement cache).2.store.readOnlyRoots = r.store.readOnlyRoots := by
        rw [hwrite]
        exact FileStore.readOnlyRoots_withHolder _ _
      rw [materialize_eq, FileStore.isReadOnly_congr hroots, if_neg hreadOnly]
      split
      · exact ⟨_, rfl⟩
      · exact ⟨_, rfl⟩

variable {q : Request} {r : Run}

/-- What one request can do. -/
theorem step_cases (q : Request) (r : Run) :
    (r.step q = (⟨q, .ok false⟩, r) ∧ q.cache = true ∧ r.isRecorded q.placement.destRoot = true) ∨
    (∃ e, r.step q = (⟨q, .error e⟩, { r with store := r.store.withHolder q.placement.destPath }) ∧
      ¬(q.cache = true ∧ r.isRecorded q.placement.destRoot = true)) ∨
    (r.step q = (⟨q, .ok true⟩,
        { r with
          store :=
            { r.store.withHolder q.placement.destPath with
              writes := ⟨q.placement.destPath.components, r.payload⟩ :: r.store.writes }
          recorded := if q.cache then r.recorded ++ [q.placement.destRoot] else r.recorded }) ∧
      ¬(q.cache = true ∧ r.isRecorded q.placement.destRoot = true)) := by
  -- the cases are those of the request: skipped, refused, written
  unfold step
  rw [materialize_eq]
  rw [← Bool.and_eq_true]
  split
  · next hskip => exact .inl ⟨rfl, by simpa using hskip⟩
  · next hskip =>
    split
    · exact .inr (.inl ⟨_, rfl, hskip⟩)
    · exact .inr (.inr ⟨rfl, hskip⟩)

/-- A request is skipped where its output tree is recorded, if it is cached. -/
theorem outcome_step_eq_ok_false_iff (q : Request) (r : Run) :
    (r.step q).1.outcome = .ok false ↔
      q.cache = true ∧ r.isRecorded q.placement.destRoot = true := by
  obtain ⟨hstep, hskip⟩ | ⟨e, hstep, hskip⟩ | ⟨hstep, hskip⟩ := step_cases q r
  · simp [hstep, hskip]
  · -- a refusal and a write are other outcomes
    simp [hstep, hskip]
  · simp [hstep, hskip]

@[simp] theorem request_step (q : Request) (r : Run) : (r.step q).1.request = q := rfl

@[simp] theorem payload_step (q : Request) (r : Run) : (r.step q).2.payload = r.payload := by
  obtain ⟨hstep, -⟩ | ⟨e, hstep, -⟩ | ⟨hstep, -⟩ := step_cases q r <;> rw [hstep]

@[simp] theorem readOnlyRoots_step (q : Request) (r : Run) :
    (r.step q).2.store.readOnlyRoots = r.store.readOnlyRoots := by
  obtain ⟨hstep, -⟩ | ⟨e, hstep, -⟩ | ⟨hstep, -⟩ := step_cases q r <;> simp [hstep]

/-- An output tree is recorded by a cached request that writes. -/
theorem recorded_step (q : Request) (r : Run) :
    (r.step q).2.recorded =
      r.recorded ++ if (r.step q).1.records then [q.placement.destRoot] else [] := by
  obtain ⟨hstep, -⟩ | ⟨e, hstep, -⟩ | ⟨hstep, -⟩ := step_cases q r
  · simp [hstep, Receipt.records, Receipt.wrote]
  · simp [hstep, Receipt.records, Receipt.wrote]
  · -- a write is recorded only with `cache`
    cases hcache : q.cache <;> simp [hstep, hcache, Receipt.records, Receipt.wrote]

theorem isRecorded_step (q : Request) (r : Run) (root : Path) :
    (r.step q).2.isRecorded root =
      (r.isRecorded root ||
        (r.step q).1.records && decide (q.placement.destRoot.components = root.components)) := by
  -- the record that is new is that of this request, if there is one
  rw [isRecorded, recorded_step, List.any_append]
  cases (r.step q).1.records <;> simp [isRecorded]

/-- An output tree that is recorded was not recorded before. -/
theorem isRecorded_of_records_step (h : (r.step q).1.records = true) :
    r.isRecorded q.placement.destRoot = false := by
  obtain ⟨hcache, hwrote⟩ := Bool.and_eq_true_iff.1 h
  rw [Receipt.wrote_iff] at hwrote
  refine Bool.eq_false_iff.2 fun hrecorded => ?_
  -- were the tree recorded, the request would be skipped
  rw [(outcome_step_eq_ok_false_iff q r).2 ⟨hcache, hrecorded⟩] at hwrote
  cases hwrote

/-- A request that writes adds one write of the payload. -/
theorem writes_step (q : Request) (r : Run) :
    (r.step q).2.store.writes =
      (if (r.step q).1.wrote then [(r.step q).1.write r.payload] else []) ++ r.store.writes := by
  -- only the third case writes
  obtain ⟨hstep, -⟩ | ⟨e, hstep, -⟩ | ⟨hstep, -⟩ := step_cases q r <;>
    simp [hstep, Receipt.wrote, Receipt.write, Receipt.place]

/-! ## All requests -/

theorem serve_cons (q : Request) (qs : List Request) (r : Run) :
    r.serve (q :: qs) =
      ((r.step q).1 :: ((r.step q).2.serve qs).1, ((r.step q).2.serve qs).2) := rfl

theorem serve_append (qs more : List Request) (r : Run) :
    r.serve (qs ++ more) =
      ((r.serve qs).1 ++ ((r.serve qs).2.serve more).1, ((r.serve qs).2.serve more).2) := by
  induction qs generalizing r with
  | nil => rfl
  | cons q qs ih =>
    rw [List.cons_append, serve_cons, ih]
    rfl

/-- There is one receipt for each request. -/
theorem map_request_serve (qs : List Request) (r : Run) :
    (r.serve qs).1.map (·.request) = qs := by
  induction qs generalizing r with
  | nil => rfl
  | cons q qs ih => rw [serve_cons, List.map_cons, ih, request_step]

@[simp] theorem payload_serve (qs : List Request) (r : Run) : (r.serve qs).2.payload = r.payload := by
  induction qs generalizing r with
  | nil => rfl
  | cons q qs ih => rw [serve_cons, ih, payload_step]

/-- The records are those that the receipts tell of. -/
theorem recorded_serve (qs : List Request) (r : Run) :
    (r.serve qs).2.recorded =
      r.recorded ++
        ((r.serve qs).1.filter Receipt.records).map (·.request.placement.destRoot) := by
  induction qs generalizing r with
  | nil => simp [serve]
  | cons q qs ih =>
    rw [serve_cons, ih, recorded_step, List.filter_cons]
    -- a request that records nothing is left out on both sides
    split <;> simp

/-- An output tree is recorded if it was from the start or if a receipt says so. -/
theorem isRecorded_serve_iff {qs : List Request} {root : Path} :
    (r.serve qs).2.isRecorded root = true ↔
      r.isRecorded root = true ∨
        ∃ e ∈ (r.serve qs).1, e.records = true ∧ e.root = root.components := by
  rw [isRecorded_iff, isRecorded_iff, recorded_serve]
  constructor
  · rintro ⟨p, hp, hroot⟩
    -- the record was there, or a receipt tells of it
    obtain hp | hp := List.mem_append.1 hp
    · exact .inl ⟨p, hp, hroot⟩
    · obtain ⟨e, he, rfl⟩ := List.mem_map.1 hp
      obtain ⟨he, hrecords⟩ := List.mem_filter.1 he
      exact .inr ⟨e, he, hrecords, hroot⟩
  · rintro (⟨p, hp, hroot⟩ | ⟨e, he, hrecords, hroot⟩)
    · exact ⟨p, List.mem_append_left _ hp, hroot⟩
    · -- a receipt that says so stands for one of the new records
      have hmem := List.mem_map_of_mem (f := (·.request.placement.destRoot))
        (List.mem_filter.2 ⟨he, hrecords⟩)
      exact ⟨_, List.mem_append_right _ hmem, hroot⟩

/-- The writes are those that the receipts tell of, the newest first. -/
theorem writes_serve (qs : List Request) (r : Run) :
    (r.serve qs).2.store.writes =
      (((r.serve qs).1.filter Receipt.wrote).map (·.write r.payload)).reverse ++ r.store.writes := by
  induction qs generalizing r with
  | nil => simp [serve]
  | cons q qs ih =>
    rw [serve_cons, ih, writes_step, payload_step, List.filter_cons]
    -- the newest write comes from the last receipt
    split <;> simp

/-- A run that starts without files has the payload where a receipt says that it was written, and
nothing anywhere else. -/
theorem read?_serve (hstart : r.store.writes = []) (qs : List Request) (path : Path) :
    let written := ∃ e ∈ (r.serve qs).1, e.wrote = true ∧ e.place = path.components
    (written → (r.serve qs).2.store.read? path = some r.payload) ∧
      (¬written → (r.serve qs).2.store.read? path = none) := by
  have hwrites := writes_serve qs r
  rw [hstart, List.append_nil] at hwrites
  -- every write has the same contents, so it does not matter which one is the newest
  have hsame : ∀ w ∈ (r.serve qs).2.store.writes, w.contents = r.payload := by
    intro w hw
    rw [hwrites, List.mem_reverse] at hw
    obtain ⟨e, -, rfl⟩ := List.mem_map.1 hw
    rfl
  refine ⟨fun hwritten => FileStore.read?_eq_some_of_forall hsame ?_, fun hnot => ?_⟩
  · -- the receipt tells of a write at this place, and all writes have the payload
    obtain ⟨e, he, hwrote, hplace⟩ := hwritten
    refine ⟨e.write r.payload, ?_, hplace⟩
    rw [hwrites, List.mem_reverse]
    exact List.mem_map_of_mem (List.mem_filter.2 ⟨he, hwrote⟩)
  · -- a write there would have its receipt
    refine FileStore.read?_eq_none_iff.2 fun w hw hplace => hnot ?_
    rw [hwrites, List.mem_reverse] at hw
    obtain ⟨e, he, rfl⟩ := List.mem_map.1 hw
    obtain ⟨he, hwrote⟩ := List.mem_filter.1 he
    exact ⟨e, he, hwrote, hplace⟩

/-- No output tree is recorded twice. -/
theorem pairwise_serve (qs : List Request) (r : Run) :
    (r.serve qs).1.Pairwise (fun d e => d.records = true → e.records = true → d.root ≠ e.root) ∧
      ∀ e ∈ (r.serve qs).1, e.records = true →
        r.isRecorded e.request.placement.destRoot = false := by
  induction qs generalizing r with
  | nil => exact ⟨.nil, by simp [serve]⟩
  | cons q qs ih =>
    obtain ⟨hpairwise, hnew⟩ := ih (r.step q).2
    rw [serve_cons, List.pairwise_cons, List.forall_mem_cons]
    refine ⟨⟨fun e he hfirst hrecords hroot => ?_, hpairwise⟩, isRecorded_of_records_step,
      fun e he hrecords => ?_⟩
    · -- the first request recorded the tree, so no later one does
      have hnot := isRecorded_eq_false_iff.1 (hnew e he hrecords) q.placement.destRoot
      rw [recorded_step, if_pos hfirst] at hnot
      exact hnot (by simp) hroot
    · -- what is not recorded later was not recorded before
      rw [isRecorded_eq_false_iff]
      intro p hp
      refine isRecorded_eq_false_iff.1 (hnew e he hrecords) p ?_
      rw [recorded_step]
      exact List.mem_append_left _ hp

/-- The account of a run that starts without records, and of one more request. Requests are skipped
just where an earlier receipt says that their output tree was recorded; the trees recorded are those
of the cached requests that wrote, each of them once; and what is written is the payload, once for
each request that says so. -/
theorem ledger_of_fresh (store : FileStore) (payload : String) (qs : List Request) (q : Request) :
    let receipts := ((fresh store payload).serve qs).1
    let r := ((fresh store payload).serve qs).2
    let e := (r.step q).1
    let r' := (r.step q).2
    (e.outcome = .ok false ↔ q.cache = true ∧ ∃ d ∈ receipts, d.records = true ∧ d.root = e.root) ∧
      receipts.Pairwise (fun d e => d.records = true → e.records = true → d.root ≠ e.root) ∧
      r.recorded = (receipts.filter Receipt.records).map (·.request.placement.destRoot) ∧
      r'.recorded = r.recorded ++ (if e.records then [q.placement.destRoot] else []) ∧
      r'.store.writes =
        (if e.wrote then [⟨q.placement.destPath.components, payload⟩] else []) ++ r.store.writes := by
  intro receipts r e r'
  -- at the start nothing is recorded, so only receipts count
  have hnone : (fresh store payload).isRecorded q.placement.destRoot = false := rfl
  refine ⟨?_, (pairwise_serve qs _).1, recorded_serve qs _, recorded_step q r, ?_⟩
  · rw [outcome_step_eq_ok_false_iff, isRecorded_serve_iff, hnone]
    simp only [Bool.false_eq_true, false_or]
    rfl
  · rw [writes_step q r, payload_serve]
    rfl

end Run

end Preload
