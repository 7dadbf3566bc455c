import Preload.Proofs.Injector.Reference

/-!
# What becomes of a transformation

In an absolute working directory a transformation of an entry fails in two ways only: the support
module has to be written and its path is read-only, or the specifier holds a line feed. Either way
the program stays as it is, and so do all files and records, but for the support module itself.

Main statements:
* `Run.materialize_cases`: what asking for the support module of a layout does to a run;
* `Injector.injectInPlace_cases`: what comes of a program once the module is in place;
* `Injector.transform_outcome`: what comes of a transformation in every case, and what it leaves
  behind.
-/

namespace Preload

/-! ## The support module -/

/-- Whether the support module of a layout still has to be written in a run. -/
def Run.needsModule (r : Run) (l : Layout) : Bool :=
  !(l.cache && r.isRecorded l.destRoot)

section Materialize

variable {p : Placement} {l : Layout} {r : Run}

/-- A support module that is not needed changes nothing. -/
theorem Run.materialize_of_not_needed (hroot : p.destRoot = l.destRoot)
    (hneeded : r.needsModule l = false) : r.materialize p l.cache = (.ok false, r) := by
  unfold needsModule at hneeded
  -- the placement has the output tree of the layout, which is recorded
  rw [← hroot, Bool.not_eq_false'] at hneeded
  rw [materialize_eq, if_pos hneeded]

/-- A support module that is needed at a read-only path is refused. -/
theorem Run.materialize_of_readOnly (hroot : p.destRoot = l.destRoot)
    (hpath : p.destPath = l.supportDestPath) (hneeded : r.needsModule l = true)
    (hreadOnly : r.store.isReadOnly l.supportDestPath = true) :
    r.materialize p l.cache =
      (.error (.store l.supportDestPath (.readOnly (r.store.refusedPath l.supportDestPath))),
        { r with store := r.store.withHolder l.supportDestPath }) := by
  unfold needsModule at hneeded
  rw [← hroot, Bool.not_eq_true'] at hneeded
  -- the check for a record lets the request through, the store does not
  rw [materialize_eq, hpath, if_neg (ne_true_of_eq_false hneeded), if_pos hreadOnly]

/-- A support module that is needed elsewhere is written. -/
theorem Run.materialize_of_writable (hroot : p.destRoot = l.destRoot)
    (hpath : p.destPath = l.supportDestPath) (hneeded : r.needsModule l = true)
    (hreadOnly : ¬r.store.isReadOnly l.supportDestPath = true) :
    r.materialize p l.cache =
      (.ok true,
        { r with
          store :=
            { r.store.withHolder l.supportDestPath with
              writes := ⟨l.supportDestPath.components, r.payload⟩ :: r.store.writes }
          recorded := if l.cache then r.recorded ++ [l.destRoot] else r.recorded }) := by
  unfold needsModule at hneeded
  rw [← hroot, Bool.not_eq_true'] at hneeded
  rw [materialize_eq, hpath, if_neg (ne_true_of_eq_false hneeded), if_neg hreadOnly, hroot]

/-- What asking for the support module of a layout does to a run. If it is needed and its path is
read-only, at most directories are new. Otherwise it is written just if it is needed. -/
theorem Run.materialize_cases (hroot : p.destRoot = l.destRoot)
    (hpath : p.destPath = l.supportDestPath) (r : Run) :
    let outcome := (r.materialize p l.cache).1
    let r' := (r.materialize p l.cache).2
    let blocked := r.needsModule l = true ∧ r.store.isReadOnly l.supportDestPath = true
    (blocked →
      (∃ refused, r.store.isReadOnly refused = true ∧
        outcome = .error (.store l.supportDestPath (.readOnly refused))) ∧
      r'.recorded = r.recorded ∧ r'.store.writes = r.store.writes ∧
        ∀ path, r'.store.read? path = r.store.read? path) ∧
      (¬blocked →
        (∃ wrote, outcome = .ok wrote) ∧
        (r.needsModule l = true →
          r'.store.writes = ⟨l.supportDestPath.components, r.payload⟩ :: r.store.writes ∧
          r'.recorded = if l.cache then r.recorded ++ [l.destRoot] else r.recorded) ∧
        (r.needsModule l = false → r' = r)) := by
  intro outcome r' blocked
  cases hneeded : r.needsModule l with
  | false =>
    -- nothing is written, so no path can stand in the way
    have hwrite := materialize_of_not_needed hroot hneeded
    constructor
    · intro hblocked
      exact absurd (hneeded.symm.trans hblocked.1) Bool.false_ne_true
    · intro _
      refine ⟨⟨_, congrArg Prod.fst hwrite⟩, ?_, ?_⟩
      · intro h
        exact absurd h Bool.false_ne_true
      · intro _
        exact congrArg Prod.snd hwrite
  | true =>
    by_cases hreadOnly : r.store.isReadOnly l.supportDestPath = true
    · -- at most the directory of the module is made, and that shows in no file
      have hwrite := materialize_of_readOnly hroot hpath hneeded hreadOnly
      have hrun : r' = { r with store := r.store.withHolder l.supportDestPath } :=
        congrArg Prod.snd hwrite
      have hrecorded : r'.recorded = r.recorded := by rw [hrun]
      have hwrites : r'.store.writes = r.store.writes := by
        rw [hrun]
        exact FileStore.writes_withHolder _ _
      have hrefused := FileStore.isReadOnly_refusedPath hreadOnly
      constructor
      · intro _
        exact ⟨⟨_, hrefused, congrArg Prod.fst hwrite⟩, hrecorded, hwrites,
          FileStore.read?_congr hwrites⟩
      · intro hfree
        exact absurd ⟨hneeded, hreadOnly⟩ hfree
    · -- the write is made, and with `cache` it is recorded
      have hwrite := materialize_of_writable hroot hpath hneeded hreadOnly
      have hrun : r' = _ := congrArg Prod.snd hwrite
      constructor
      · intro hblocked
        exact absurd hblocked.2 hreadOnly
      · intro _
        refine ⟨⟨_, congrArg Prod.fst hwrite⟩, ?_, ?_⟩
        · intro _
          rw [hrun]
          exact ⟨rfl, rfl⟩
        · intro h
          exact absurd h.symm Bool.false_ne_true

end Materialize

namespace Injector

variable {i : Injector} {file : Path} {p : Placement}

/-! ## The program -/

/-- What may come of a program once the support module is in place. -/
theorem injectInPlace_cases (i : Injector) (p : Placement) (program : Program) :
    let opens := ∃ s ss, program.body = s :: ss ∧ s.hoist = .hoisted ∧
      s.specifier? = some p.specifier
    let answer := (i.injectInPlace p program).1
    let program' := (i.injectInPlace p program).2
    (opens → answer = .ok false ∧ program' = program) ∧
      (¬opens → '\n' ∈ p.specifier.toList →
        (∃ fault, answer =
          .error (.template (i.layout.importStyle.render p.specifier) (.parse fault))) ∧
          program' = program) ∧
      (¬opens → '\n' ∉ p.specifier.toList → answer = .ok true ∧ program' =
        { program with
          body := ⟨.load i.layout.importStyle p.specifier, .dummy, .hoisted, none⟩ ::
            program.body }) := by
  intro opens answer program'
  have hinject := injectInPlace_eq i p program
  -- the guard is the condition of the first case
  have hguard : opensWith program.body p.specifier = true ↔ opens := opensWith_iff
  refine ⟨?_, ?_, ?_⟩
  · intro hopens
    rw [if_pos (hguard.2 hopens)] at hinject
    exact ⟨congrArg Prod.fst hinject, congrArg Prod.snd hinject⟩
  · intro hopens hfeed
    rw [if_neg (mt hguard.1 hopens), if_pos hfeed] at hinject
    -- what the reader of the code complains about is the line feed, whatever else it says
    exact ⟨⟨_, congrArg Prod.fst hinject⟩, congrArg Prod.snd hinject⟩
  · intro hopens hfeed
    rw [if_neg (mt hguard.1 hopens), if_neg hfeed] at hinject
    exact ⟨congrArg Prod.fst hinject, congrArg Prod.snd hinject⟩

/-- The only complaint about a program is that the code for its statement cannot be read. -/
theorem of_injectInPlace_eq_error {program : Program} {e : InjectError}
    (h : (i.injectInPlace p program).1 = .error e) :
    ∃ code fault, e = .template code (.parse fault) := by
  rw [injectInPlace_eq] at h
  split at h
  · cases h
  · split at h
    · cases h
      exact ⟨_, _, rfl⟩
    · -- a statement that was read is injected, so there is no error
      cases h

/-! ## Both together -/

/-- What comes of a transformation, and what it leaves behind. A file that is no entry is left
alone, and its run as well. For an entry the support module is written if it is needed, once and
nowhere else; if its path is read-only nothing is written or recorded, and the program is not looked
at. Then the statement that loads it is put in front of the program, unless it is there or no
literal can hold its specifier. There are no other errors: a specifier can always be found, and no
directory is missing. Where it fails, the program is left as it was. -/
theorem transform_outcome (hcwd : i.cwd.isAbsolute) (program : Program) (file : Path) (r : Run) :
    let l := i.layout
    let answer := (i.transformInPlace program file r).1
    let program' := (i.transformInPlace program file r).2.1
    let r' := (i.transformInPlace program file r).2.2
    let blocked := r.needsModule l = true ∧ r.store.isReadOnly l.supportDestPath = true
    (i.isEntry file = false → answer = .ok false ∧ program' = program ∧ r' = r) ∧
      (i.isEntry file = true → ∃ p, i.placement file = .ok (some p) ∧
        (blocked →
          (∃ refused, r.store.isReadOnly refused = true ∧
            answer = .error (.store l.supportDestPath (.readOnly refused))) ∧
          program' = program ∧ r'.recorded = r.recorded ∧ r'.store.writes = r.store.writes ∧
            ∀ path, r'.store.read? path = r.store.read? path) ∧
        (¬blocked →
          (r.needsModule l = true →
            r'.store.writes = ⟨l.supportDestPath.components, r.payload⟩ :: r.store.writes ∧
            r'.recorded = if l.cache then r.recorded ++ [l.destRoot] else r.recorded) ∧
          (r.needsModule l = false → r' = r) ∧
          let opens := ∃ s ss, program.body = s :: ss ∧ s.hoist = .hoisted ∧
            s.specifier? = some p.specifier
          (opens → answer = .ok false ∧ program' = program) ∧
            (¬opens → '\n' ∈ p.specifier.toList →
              (∃ fault, answer =
                .error (.template (l.importStyle.render p.specifier) (.parse fault))) ∧
                program' = program) ∧
            (¬opens → '\n' ∉ p.specifier.toList → answer = .ok true ∧ program' =
              { program with
                body := ⟨.load l.importStyle p.specifier, .dummy, .hoisted, none⟩ ::
                  program.body }))) ∧
      ∀ e, answer = .error e →
        program' = program ∧
          ((∃ refused, e = .store l.supportDestPath (.readOnly refused)) ∨
            ∃ code fault, e = .template code (.parse fault)) := by
  intro l answer program' r' blocked
  cases hentry : i.isEntry file with
  | false =>
    -- no entry: nothing is asked for
    have htransform := transformInPlace_of_not_isEntry hentry program r
    have hanswer : answer = .ok false := congrArg Prod.fst htransform
    have hprogram : program' = program := congrArg (·.2.1) htransform
    have hrun : r' = r := congrArg (·.2.2) htransform
    refine ⟨fun _ => ⟨hanswer, hprogram, hrun⟩, ?_, ?_⟩
    · intro h
      cases h
    · intro e he
      rw [hanswer] at he
      cases he
  | true =>
    -- every entry has a placement, so only the run and the program are left to be asked
    obtain ⟨p, hplacement⟩ := exists_placement_of_isAbsolute hcwd hentry
    obtain ⟨-, hroot, hpath⟩ := of_placement_eq_some hplacement
    obtain ⟨hblocked, hfree⟩ := Run.materialize_cases hroot hpath r
    by_cases h : blocked
    · -- the run refuses, and the program is not looked at
      obtain ⟨⟨refused, hrefused, houtcome⟩, hkept⟩ := hblocked h
      have htransform : i.transformInPlace program file r =
          (.error (.store l.supportDestPath (.readOnly refused)), program, _) :=
        transformInPlace_of_refused hplacement houtcome
      have hanswer : answer = .error (.store l.supportDestPath (.readOnly refused)) :=
        congrArg Prod.fst htransform
      have hprogram : program' = program := congrArg (·.2.1) htransform
      have hrun : r' = (r.materialize p l.cache).2 := congrArg (·.2.2) htransform
      refine ⟨?_, fun _ => ⟨p, hplacement, fun _ => ?_, fun hfree => absurd h hfree⟩, ?_⟩
      · intro h
        cases h
      · -- the refusal leaves the run as the store says
        rw [hrun]
        exact ⟨⟨refused, hrefused, hanswer⟩, hprogram, hkept⟩
      · intro e he
        rw [hanswer] at he
        cases he
        exact ⟨hprogram, .inl ⟨refused, rfl⟩⟩
    · -- the run agrees, so the program decides
      obtain ⟨⟨wrote, houtcome⟩, hwritten, hskipped⟩ := hfree h
      have htransform : i.transformInPlace program file r =
          ((i.injectInPlace p program).1, (i.injectInPlace p program).2, _) :=
        transformInPlace_of_granted hplacement houtcome
      have hanswer : answer = (i.injectInPlace p program).1 := congrArg Prod.fst htransform
      have hprogram : program' = (i.injectInPlace p program).2 := congrArg (·.2.1) htransform
      have hrun : r' = (r.materialize p l.cache).2 := congrArg (·.2.2) htransform
      refine ⟨?_, fun _ => ⟨p, hplacement, fun hblocked => absurd hblocked h, fun _ => ?_⟩, ?_⟩
      · intro h
        cases h
      · rw [hrun, hanswer, hprogram]
        -- the run is that of the request, and the rest is what the injection says
        exact ⟨hwritten, hskipped, injectInPlace_cases i p program⟩
      · intro e he
        rw [hanswer] at he
        -- an injection that fails leaves the program alone
        have hkept : (i.injectInPlace p program).2 = program := by
          apply program_of_injectInPlace
          rw [he]
          intro h
          cases h
        exact ⟨hprogram.trans hkept, .inr (of_injectInPlace_eq_error he)⟩

/-- A read-only output tree stops the module, and leaves nothing behind. A line feed in the place of
the module stops the statement only, once the module is written. -/
theorem transform_outcome_of_refusals :
    let file : Path := ⟨"src/index.js"⟩
    let program : Program := .ofBody [.ofKind (.other "f()") .dummy]
    let locked := Run.fresh (FileStore.empty.withReadOnly [⟨"/app/build"⟩]) "x"
    let free := Run.fresh .empty "x"
    let i : Injector := ⟨.default, ⟨"/app"⟩⟩
    let feeding : Injector :=
      ⟨{ Options.default with supportModulePath := ⟨"a\nb.js"⟩, cache := false }, ⟨"/app"⟩⟩
    (i.cwd.isAbsolute = true ∧ i.isEntry file = true ∧
      (∃ refused, (i.transformInPlace program file locked).1 =
        .error (.store i.layout.supportDestPath (.readOnly refused))) ∧
      (i.transformInPlace program file locked).2.1 = program ∧
      (i.transformInPlace program file locked).2.2.recorded = [] ∧
      (i.transformInPlace program file locked).2.2.store.writes = []) ∧
      feeding.isEntry file = true ∧
        (∃ fault, (feeding.transformInPlace program file free).1 =
          .error (.template "require('./a\nb.js')" (.parse fault))) ∧
        (feeding.transformInPlace program file free).2.1 = program ∧
        (feeding.transformInPlace program file free).2.2.store.writes =
          [⟨feeding.layout.supportDestPath.components, "x"⟩] := by
  intro file program locked free i feeding
  -- the locked tree stops the request for the module
  have hcwd : i.cwd.isAbsolute = true := by decide
  have hentry : i.isEntry file = true := by decide +kernel
  have hblocked : locked.needsModule i.layout = true ∧
      locked.store.isReadOnly i.layout.supportDestPath = true := by decide +kernel
  obtain ⟨-, hlocked, -⟩ := transform_outcome hcwd program file locked
  obtain ⟨p, -, hrefused, -⟩ := hlocked hentry
  obtain ⟨⟨refused, -, hanswer⟩, hkept, hrecorded, hwrites, -⟩ := hrefused hblocked
  refine ⟨⟨hcwd, hentry, ⟨refused, hanswer⟩, hkept, hrecorded, hwrites⟩, ?_⟩
  -- the other tree may be written to, so it is the program that is looked at
  have hentry : feeding.isEntry file = true := by decide +kernel
  have hneeded : free.needsModule feeding.layout = true := by decide +kernel
  have hfree : ¬(free.needsModule feeding.layout = true ∧
      free.store.isReadOnly feeding.layout.supportDestPath = true) := by decide +kernel
  obtain ⟨-, hwritable, -⟩ := transform_outcome (i := feeding) hcwd program file free
  obtain ⟨q, hplacement, -, hrest⟩ := hwritable hentry
  obtain ⟨hwritten, -, -, hfault, -⟩ := hrest hfree
  -- the specifier is the place of the module with its line feed
  have hspecifier : q.specifier = "./a\nb.js" := by
    have hknown : (feeding.placement file).toOption.map (·.map (·.specifier)) =
        some (some "./a\nb.js") := by decide +kernel
    rw [hplacement] at hknown
    exact Option.some.inj (Option.some.inj hknown)
  rw [hspecifier] at hfault
  -- the one statement of the program stands at its usual place
  have hopens : ¬∃ s ss, program.body = s :: ss ∧ s.hoist = .hoisted ∧
      s.specifier? = some "./a\nb.js" := by
    rintro ⟨s, ss, hbody, hhoisted, -⟩
    cases hbody
    cases hhoisted
  obtain ⟨hfeed, hkept⟩ := hfault hopens (by decide)
  exact ⟨hentry, hfeed, hkept, (hwritten hneeded).1⟩

end Injector

end Preload
