import Preload.Proofs.Injector.Support

/-!
# What a transformation can do

`Injector.transformInPlace` in terms of its parts: where the support module goes, whether it can be
written, and what `Injector.injectInPlace` does to the program. Nothing but an injection changes the
program, so `Injector.transform`, which gives it only if it was changed, says as much.

Main statements:
* `Injector.placement_eq_none_iff`: only files that are no entries have no placement;
* `Injector.injectInPlace_eq`: when a statement is injected, and which one;
* `Injector.program_of_transformInPlace`: a transformation that injects nothing leaves the program
  alone;
* `Injector.transform_of_placement`: the part of the run and the part of the program;
* `Injector.of_transform_eq_ok`: what a transformation did that gave a result.
-/

namespace Preload.Injector

/-- The statement that is injected for a specifier. -/
def injected (i : Injector) (specifier : String) : Statement :=
  ⟨.load i.layout.importStyle specifier, .dummy, .hoisted, none⟩

theorem placement_eq_none_iff {i : Injector} {file : Path} :
    i.placement file = .ok none ↔ i.isEntry file = false := by
  -- both ask the layout, and an entry has a placement or an error
  unfold placement isEntry Layout.isEntry
  simp only
  by_cases hentry : i.layout.hasEntry (file.absolutize i.layout.cwd)
  · rw [if_pos hentry, hentry]
    split <;> simp
  · rw [if_neg hentry]
    simpa using hentry

/-- The placement of an entry says where the support module goes and how the entry refers to it. -/
theorem exists_placement {i : Injector} {file : Path} (hentry : i.isEntry file = true)
    {specifier : String}
    (h : Path.moduleSpecifier? (i.layout.directoryOf (file.absolutize i.layout.cwd))
      i.layout.supportSourcePath = some specifier) :
    ∃ p, i.placement file = .ok (some p) ∧ p.destPath = i.layout.supportDestPath ∧
      p.specifier = specifier := by
  unfold placement
  unfold isEntry Layout.isEntry at hentry
  -- the layout is the same throughout, so it may be any
  generalize i.layout = l at hentry h ⊢
  simp only [if_pos hentry, h]
  exact ⟨_, rfl, rfl, rfl⟩

/-- A placement is for an entry, and says of the module what the layout says. -/
theorem of_placement_eq_some {i : Injector} {file : Path} {p : Placement}
    (h : i.placement file = .ok (some p)) :
    i.isEntry file = true ∧ p.destRoot = i.layout.destRoot ∧
      p.destPath = i.layout.supportDestPath := by
  unfold placement at h
  unfold isEntry Layout.isEntry
  generalize i.layout = l at h ⊢
  simp only at h
  -- without an entry there is no placement, and without a specifier there is an error
  split at h
  · next hentry =>
    split at h
    · cases h
      exact ⟨hentry, rfl, rfl⟩
    · cases h
  · cases h

/-- A statement is injected where it is not there yet and its code can be read. -/
theorem injectInPlace_eq (i : Injector) (p : Placement) (program : Program) :
    i.injectInPlace p program =
      if opensWith program.body p.specifier then (.ok false, program)
      else if '\n' ∈ p.specifier.toList then
        (.error (.template (i.layout.importStyle.render p.specifier)
          (.parse (.unclosed (byteLength i.layout.importStyle.keyword.toList + 1)))), program)
      else (.ok true, program.prepend (i.injected p.specifier)) := by
  unfold injectInPlace
  split
  · rfl
  · -- the code of the statement cannot be read just if its specifier breaks the line
    by_cases hfeed : '\n' ∈ p.specifier.toList
    · rw [if_pos hfeed, supportStatement_of_newline i hfeed]
    · rw [if_neg hfeed, supportStatement_of_no_newline i hfeed]
      rfl

/-- A program into which nothing is injected is left alone. -/
theorem program_of_injectInPlace {i : Injector} {p : Placement} {program : Program}
    (h : (i.injectInPlace p program).1 ≠ .ok true) : (i.injectInPlace p program).2 = program := by
  unfold injectInPlace at h ⊢
  -- only where the statement was read does the program change
  split
  · rfl
  · next hopens =>
    rw [if_neg hopens] at h
    split
    · rfl
    · next hread =>
      rw [hread] at h
      exact absurd rfl h

/-- The guard against a second injection looks at the first statement only. -/
theorem opensWith_iff {body : List Statement} {specifier : String} :
    opensWith body specifier ↔
      ∃ s ss, body = s :: ss ∧ s.hoist = .hoisted ∧ s.specifier? = some specifier := by
  cases body with
  | nil => simp [opensWith]
  | cons s ss => simp [opensWith, Statement.isHoisted]

theorem opensWith_of_standard {body : List Statement} (h : ∀ s ∈ body, s.hoist = .standard)
    (specifier : String) : opensWith body specifier = false := by
  cases body with
  | nil => rfl
  | cons s ss =>
    -- a standard statement was not injected
    rw [opensWith, Statement.isHoisted, h s List.mem_cons_self]
    rfl

/-! ## Whole transformations -/

section Parts

variable {α : Type} {i : Injector} {inject : Placement → α → Except InjectError Bool × α} {a : α}
  {file : Path} {r : Run}

/-- A transformation of a file that cannot be prepared fails, and leaves all else alone. -/
theorem transformWith_of_error {e : InjectError} (h : (i.prepare file r).1 = .error e) :
    i.transformWith inject a file r = (.error e, a, (i.prepare file r).2) := by
  unfold transformWith
  rw [← Prod.eta (i.prepare file r), h]

/-- A transformation of a file without a placement injects nothing. -/
theorem transformWith_of_none (h : (i.prepare file r).1 = .ok none) :
    i.transformWith inject a file r = (.ok false, a, (i.prepare file r).2) := by
  unfold transformWith
  rw [← Prod.eta (i.prepare file r), h]

/-- A transformation of a file that is prepared injects. -/
theorem transformWith_of_prepared {p : Placement} (h : (i.prepare file r).1 = .ok (some p)) :
    i.transformWith inject a file r = ((inject p a).1, (inject p a).2, (i.prepare file r).2) := by
  unfold transformWith
  rw [← Prod.eta (i.prepare file r), h]

/-- The run of a transformation is that of the preparation: what is injected has no part in it. -/
theorem run_of_transformWith : (i.transformWith inject a file r).2.2 = (i.prepare file r).2 := by
  cases hprepare : (i.prepare file r).1 with
  | error e => rw [transformWith_of_error hprepare]
  | ok placement =>
    cases placement with
    | none => rw [transformWith_of_none hprepare]
    | some p => rw [transformWith_of_prepared hprepare]

/-- A transformation that does not say that it changed anything has changed nothing, if the same is
true of what it injects with. -/
theorem eq_of_transformWith (hinject : ∀ p, (inject p a).1 ≠ .ok true → (inject p a).2 = a)
    (h : (i.transformWith inject a file r).1 ≠ .ok true) :
    (i.transformWith inject a file r).2.1 = a := by
  -- the answers are those of the preparation, until there is something to inject
  cases hprepare : (i.prepare file r).1 with
  | error e => rw [transformWith_of_error hprepare]
  | ok placement =>
    cases placement with
    | none => rw [transformWith_of_none hprepare]
    | some p =>
      rw [transformWith_of_prepared hprepare] at h ⊢
      exact hinject p h

end Parts

/-- Nothing but an injection changes a program: a transformation that fails, or that answers that
there is nothing to do, leaves it alone. -/
theorem program_of_transformInPlace {i : Injector} {program : Program} {file : Path} {r : Run}
    (h : (i.transformInPlace program file r).1 ≠ .ok true) :
    (i.transformInPlace program file r).2.1 = program :=
  eq_of_transformWith (fun _ => program_of_injectInPlace) h

/-- A transformation prepares its file and then looks at the program, if there is a placement. -/
theorem transform_eq_prepare (i : Injector) (program : Program) (file : Path) (r : Run) :
    i.transform program file r =
      ((i.prepare file r).1.bind fun p => p.elim (.ok none) fun p => made (i.injectInPlace p program),
        (i.prepare file r).2) := by
  -- the three answers of the preparation: an error, no placement, a placement
  unfold transform transformInPlace
  cases hprepare : (i.prepare file r).1 with
  | error e =>
    rw [transformWith_of_error hprepare]
    rfl
  | ok placement =>
    cases placement with
    | none =>
      rw [transformWith_of_none hprepare]
      rfl
    | some p =>
      rw [transformWith_of_prepared hprepare]
      rfl

theorem prepare_of_not_isEntry {i : Injector} {file : Path} (h : i.isEntry file = false) (r : Run) :
    i.prepare file r = (.ok none, r) := by
  unfold prepare
  rw [placement_eq_none_iff.2 h]

/-- To prepare a file with a placement is to ask its run for the support module. -/
theorem prepare_of_placement {i : Injector} {file : Path} {p : Placement}
    (h : i.placement file = .ok (some p)) (r : Run) :
    i.prepare file r =
      ((r.materialize p i.layout.cache).1.map fun _ => some p,
        (r.materialize p i.layout.cache).2) := by
  unfold prepare
  simp only [h]
  -- a write that was made and one that was skipped come to the same
  cases r.materialize p i.layout.cache with
  | mk outcome r' => cases outcome <;> rfl

/-- Where the support module cannot be written, a transformation fails and leaves the program
alone. -/
theorem transformInPlace_of_refused {i : Injector} {program : Program} {file : Path} {r : Run}
    {p : Placement} {e : InjectError} (hplacement : i.placement file = .ok (some p))
    (h : (r.materialize p i.layout.cache).1 = .error e) :
    i.transformInPlace program file r = (.error e, program, (r.materialize p i.layout.cache).2) := by
  -- the error of the write is that of the preparation
  have hprepare := prepare_of_placement hplacement r
  have hfailed : (i.prepare file r).1 = .error e := by
    rw [hprepare, h]
    rfl
  rw [transformInPlace, transformWith_of_error hfailed, hprepare]

/-- Where the support module is in place, a transformation injects into the program. -/
theorem transformInPlace_of_granted {i : Injector} {program : Program} {file : Path} {r : Run}
    {p : Placement} {wrote : Bool} (hplacement : i.placement file = .ok (some p))
    (h : (r.materialize p i.layout.cache).1 = .ok wrote) :
    i.transformInPlace program file r =
      ((i.injectInPlace p program).1, (i.injectInPlace p program).2,
        (r.materialize p i.layout.cache).2) := by
  -- whether the module was written does not matter any more
  have hprepare := prepare_of_placement hplacement r
  have hprepared : (i.prepare file r).1 = .ok (some p) := by
    rw [hprepare, h]
    rfl
  rw [transformInPlace, transformWith_of_prepared hprepared, hprepare]

/-- A transformation of a file that is no entry does nothing. -/
theorem transformInPlace_of_not_isEntry {i : Injector} {file : Path} (h : i.isEntry file = false)
    (program : Program) (r : Run) : i.transformInPlace program file r = (.ok false, program, r) := by
  -- nothing is prepared, so the run stays as it is
  have hprepare := prepare_of_not_isEntry h r
  rw [transformInPlace, transformWith_of_none (congrArg Prod.fst hprepare), hprepare]

/-- What a transformation makes is what it makes in place. -/
theorem transform_of_transformInPlace {i : Injector} {program q : Program} {file : Path} {r r' : Run}
    {answer : Except InjectError Bool} (h : i.transformInPlace program file r = (answer, q, r')) :
    i.transform program file r = (made (answer, q), r') := by
  unfold transform
  rw [h]

theorem transform_of_not_isEntry {i : Injector} {file : Path} (h : i.isEntry file = false)
    (program : Program) (r : Run) : i.transform program file r = (.ok none, r) :=
  transform_of_transformInPlace (transformInPlace_of_not_isEntry h program r)

/-- A transformation of a file with a placement asks its run for the support module, and then looks
at the program. -/
theorem transform_of_placement {i : Injector} {file : Path} {p : Placement}
    (h : i.placement file = .ok (some p)) (program : Program) (r : Run) :
    i.transform program file r =
      ((r.materialize p i.layout.cache).1.bind fun _ => made (i.injectInPlace p program),
        (r.materialize p i.layout.cache).2) := by
  rw [transform_eq_prepare, prepare_of_placement h]
  cases (r.materialize p i.layout.cache).1 <;> rfl

/-- A transformation of an entry injects the statement where it can write the support module, the
statement is not there yet, and its code can be read. -/
theorem transformInPlace_eq_ok {i : Injector} {program : Program} {file : Path} {r : Run} {p : Placement}
    {wrote : Bool} (hplacement : i.placement file = .ok (some p))
    (hwritten : (r.materialize p i.layout.cache).1 = .ok wrote)
    (hopens : opensWith program.body p.specifier = false) (hfeed : '\n' ∉ p.specifier.toList) :
    i.transformInPlace program file r =
      (.ok true, program.prepend (i.injected p.specifier), (r.materialize p i.layout.cache).2) := by
  -- neither of the two refusals applies
  rw [transformInPlace_of_granted hplacement hwritten, injectInPlace_eq,
    if_neg (ne_true_of_eq_false hopens), if_neg hfeed]

/-- With options that say nothing, the statement is injected into the entry file of a new build. -/
theorem exists_transformInPlace_index {program : Program} (h : ∀ s ∈ program.body, s.hoist = .standard) :
    let i : Injector := ⟨.default, ⟨"/app"⟩⟩
    ∃ r', i.transformInPlace program ⟨"src/index.js"⟩ (.fresh .empty "") = (.ok true, program.prepend
      (i.injected "./_build_modules/source-map-support-register.js"), r') := by
  intro i
  let placement : Placement :=
    ⟨⟨"/app/src/index.js"⟩, ⟨"/app/build"⟩,
      ⟨"/app/build/_build_modules/source-map-support-register.js"⟩,
      "./_build_modules/source-map-support-register.js"⟩
  have hplacement : i.placement ⟨"src/index.js"⟩ = .ok (some placement) := by decide +kernel
  have hwritten : ((Run.fresh .empty "").materialize placement i.layout.cache).1 = .ok true := by
    -- the write is made on an empty store, where nothing is in the way
    decide +kernel
  exact ⟨_, transformInPlace_eq_ok hplacement hwritten (opensWith_of_standard h _) (by decide)⟩

/-- An entry whose transformation gave an answer was prepared with its placement. -/
theorem exists_prepared {i : Injector} {program : Program} {file : Path} {r : Run} {changed : Bool}
    (hentry : i.isEntry file = true) (h : (i.transformInPlace program file r).1 = .ok changed) :
    ∃ p, i.placement file = .ok (some p) ∧ (i.prepare file r).1 = .ok (some p) := by
  -- an error of the preparation would have been passed on
  have hprepared (e : InjectError) : (i.prepare file r).1 ≠ .error e := by
    intro herror
    rw [transformInPlace, transformWith_of_error herror] at h
    cases h
  cases hplacement : i.placement file with
  | error e =>
    refine absurd ?_ (hprepared e)
    unfold prepare
    rw [hplacement]
  | ok placement =>
    cases placement with
    | none =>
      -- only files that are no entries have no placement
      rw [placement_eq_none_iff, hentry] at hplacement
      cases hplacement
    | some p =>
      rw [prepare_of_placement hplacement] at hprepared ⊢
      refine ⟨p, rfl, ?_⟩
      cases hwritten : (r.materialize p i.layout.cache).1 with
      | error e =>
        refine absurd ?_ (hprepared e)
        rw [hwritten]
        rfl
      | ok wrote => rfl

/-- A transformation of an entry that gave a result placed the support module and injected the
statement for it. -/
theorem of_transform_eq_ok {i : Injector} {program : Program} {file : Path} {r r' : Run}
    {result : Option Program} (hentry : i.isEntry file = true)
    (h : i.transform program file r = (.ok result, r')) :
    ∃ p, i.placement file = .ok (some p) ∧ made (i.injectInPlace p program) = .ok result := by
  have hresult : made ((i.transformInPlace program file r).1, (i.transformInPlace program file r).2.1) =
      .ok result := congrArg Prod.fst h
  cases hanswer : (i.transformInPlace program file r).1 with
  | error e =>
    rw [hanswer] at hresult
    cases hresult
  | ok changed =>
    -- the answer comes from the injection, so there was a placement
    obtain ⟨p, hplacement, hprepared⟩ := exists_prepared hentry hanswer
    rw [transformInPlace, transformWith_of_prepared hprepared] at hresult
    exact ⟨p, hplacement, hresult⟩

end Preload.Injector
