import Preload.Proofs.Injector.Transform
import Preload.Proofs.Program.Hoisting
import Preload.Proofs.Run.Ledger

/-!
# The injected statement stays

Once a file has been transformed, its program may be edited, hoisted and transformed again: the
statement that loads the support module stays in front, and no second one is injected.
`Injector.opensWith`, the guard that a transformation checks, is the invariant.

Main statements:
* `Injector.opensWith_apply`: one edit keeps the statement in front;
* `Injector.injected_stays_first`: so does any number of edits, and no transformation among them
  injects another one.
-/

namespace Preload

/-- An edit of a program that was transformed for a file. -/
inductive Edit where
  /-- Puts a statement at the end. -/
  | push (s : Statement)
  /-- Says where the statement at `index + 1` wants to be. -/
  | mark (index : Nat) (place : Hoist)
  /-- Sorts the statements by the places they want. -/
  | sort
  /-- Transforms the program for the same file again. -/
  | transform (r : Run)

/-- The program after an edit. -/
def Edit.apply (i : Injector) (file : Path) (p : Program) : Edit → Program
  | push s => p.push s
  | mark index place => { p with body := p.body.modify (index + 1) ({ · with hoist := place }) }
  | sort => p.hoist
  | transform r => (i.transformInPlace p file r).2.1

namespace Injector

variable {i : Injector} {file : Path} {placement : Placement} {p : Program}

/-- A program is injected into only once: then it opens with the statement. -/
theorem opensWith_of_injectInPlace {changed : Bool}
    (h : (i.injectInPlace placement p).1 = .ok changed) :
    opensWith (i.injectInPlace placement p).2.body placement.specifier := by
  -- where there is an answer, the statement was found in front or has been put there
  rw [injectInPlace_eq] at h ⊢
  split
  · next hopens => exact hopens
  · next hopens =>
    rw [if_neg hopens] at h
    split
    · next hfeed =>
      rw [if_pos hfeed] at h
      cases h
    · rw [opensWith_iff]
      exact ⟨_, _, rfl, rfl, rfl⟩

/-- A program that opens with the statement is left alone, and the answer says so, unless the
support module cannot be written. -/
theorem transformInPlace_of_opensWith (hplacement : i.placement file = .ok (some placement))
    (h : opensWith p.body placement.specifier) (r : Run) :
    (i.transformInPlace p file r).2.1 = p ∧
      ((i.transformInPlace p file r).1 = .ok false ∨
        ∃ cause, (i.transformInPlace p file r).1 = .error (.store placement.destPath cause)) := by
  cases hwritten : (r.materialize placement i.layout.cache).1 with
  | ok wrote =>
    -- the guard finds the statement
    rw [transformInPlace_of_granted hplacement hwritten, injectInPlace_eq, if_pos h]
    exact ⟨rfl, .inl rfl⟩
  | error e =>
    -- the run was refused, and then the program is not looked at
    obtain ⟨cause, rfl⟩ := Run.of_materialize_eq_error (Prod.ext hwritten rfl)
    rw [transformInPlace_of_refused hplacement hwritten]
    exact ⟨rfl, .inr ⟨cause, rfl⟩⟩

/-- One edit keeps the statement in front. -/
theorem opensWith_apply (hplacement : i.placement file = .ok (some placement))
    (h : opensWith p.body placement.specifier) (e : Edit) :
    opensWith (e.apply i file p).body placement.specifier := by
  -- the guard looks at the first statement only, so it is enough to say what that one is afterwards
  obtain ⟨s, ss, hbody, hs, hspecifier⟩ := opensWith_iff.1 h
  rw [opensWith_iff]
  cases e with
  | push t =>
    refine ⟨s, ss ++ [t], ?_, hs, hspecifier⟩
    show p.body ++ [t] = _
    rw [hbody, List.cons_append]
  | mark index place =>
    refine ⟨s, ss.modify index ({ · with hoist := place }), ?_, hs, hspecifier⟩
    show p.body.modify (index + 1) _ = _
    rw [hbody, List.modify_succ_cons]
  | sort =>
    -- what is hoisted and stands in front stays in front of all that is sorted
    obtain ⟨ss', hss'⟩ := Program.exists_body_hoist hbody hs
    exact ⟨s, ss', hss', hs, hspecifier⟩
  | transform r =>
    -- the guard finds the statement, so whatever the run says, the program stays
    have hsame : (Edit.transform r).apply i file p = p :=
      (transformInPlace_of_opensWith hplacement h r).1
    rw [hsame]
    exact ⟨s, ss, hbody, hs, hspecifier⟩

/-- Any number of edits keeps the statement in front. -/
theorem opensWith_foldl (hplacement : i.placement file = .ok (some placement))
    (h : opensWith p.body placement.specifier) (edits : List Edit) :
    opensWith (edits.foldl (Edit.apply i file) p).body placement.specifier := by
  -- the guard is the invariant: it holds at first, and each edit keeps it
  induction edits generalizing p with
  | nil => exact h
  | cons e edits ih => exact ih (opensWith_apply hplacement h e)

/-- After a transformation of an entry and any edits, the statement for the support module is in
front, and another transformation leaves the program alone, and says so unless the module cannot be
written. -/
theorem injected_stays_first {r : Run} {changed : Bool} (hentry : i.isEntry file = true)
    (h : (i.transformInPlace p file r).1 = .ok changed) (edits : List Edit) :
    ∃ placement, i.placement file = .ok (some placement) ∧
      let q := edits.foldl (Edit.apply i file) (i.transformInPlace p file r).2.1
      (∃ s ss, q.body = s :: ss ∧ s.hoist = .hoisted ∧
        s.specifier? = some placement.specifier) ∧
      ∀ again, (i.transformInPlace q file again).2.1 = q ∧
        ((i.transformInPlace q file again).1 = .ok false ∨
          ∃ cause, (i.transformInPlace q file again).1 = .error (.store placement.destPath cause)) := by
  obtain ⟨placement, hplacement, hprepared⟩ := exists_prepared hentry h
  have htransform : i.transformInPlace p file r = _ := transformWith_of_prepared hprepared
  rw [htransform] at h ⊢
  have hopens := opensWith_foldl hplacement (opensWith_of_injectInPlace h) edits
  exact ⟨placement, hplacement, opensWith_iff.1 hopens,
    transformInPlace_of_opensWith hplacement hopens⟩

/-- The statement stays in front of one that is hoisted as well. -/
theorem injected_stays_first_of_hoisted :
    let i : Injector := ⟨.default, ⟨"/app"⟩⟩
    let file : Path := ⟨"src/index.js"⟩
    let other : Statement := .ofKind (.other "f()") .dummy
    let edits : List Edit := [.push other, .mark 0 .hoisted, .sort, .transform (.fresh .empty "")]
    let r := Run.fresh .empty ""
    (i.transformInPlace (.ofBody []) file r).1 = .ok true ∧
      ∃ placement, i.placement file = .ok (some placement) ∧
        let q := edits.foldl (Edit.apply i file) (i.transformInPlace (.ofBody []) file r).2.1
        (∃ s ss, q.body = s :: ss ∧ s.hoist = .hoisted ∧
          s.specifier? = some placement.specifier) ∧
        ∀ again, (i.transformInPlace q file again).2.1 = q ∧
          ((i.transformInPlace q file again).1 = .ok false ∨
            ∃ cause, (i.transformInPlace q file again).1 =
              .error (.store placement.destPath cause)) := by
  intro i file other edits r
  have hentry : i.isEntry file = true := by decide +kernel
  have hempty : ∀ s ∈ (Program.ofBody []).body, s.hoist = .standard := by
    intro s hs
    cases hs
  obtain ⟨r', htransform⟩ := exists_transformInPlace_index hempty
  have hchanged : (i.transformInPlace (.ofBody []) file r).1 = .ok true := congrArg Prod.fst htransform
  exact ⟨hchanged, injected_stays_first hentry hchanged edits⟩

end Injector

end Preload
