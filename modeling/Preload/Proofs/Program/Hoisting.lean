import Preload.Program.Hoisting

/-!
# Hoisting and order

Hoisting sorts the body by rank, so it leaves a body that is in order alone, and a statement that
asks for the front and has it stays there.

Main statements:
* `Program.hoist_eq`: hoisting is sorting, also where no statement asks to move;
* `Program.hoist_of_pairwise`: a body in order stays as it is;
* `Program.exists_body_hoist`: a hoisted statement in front stays in front.
-/

namespace Preload

theorem Hoist.rank_le (h : Hoist) : h.rank ≤ Hoist.hoisted.rank := by
  cases h with
  | standard => decide
  | priority n =>
    have hn := n.toNat_lt
    -- a priority is a number of 32 bits, and the rank of what is hoisted is above all of those
    simp only [rank]
    omega
  | hoisted => exact Nat.le_refl _

namespace Program

theorem mayPrecede_iff {a b : Statement} : mayPrecede a b ↔ b.hoist.rank ≤ a.hoist.rank :=
  decide_eq_true_iff

theorem mayPrecede_trans (a b c : Statement) (hab : mayPrecede a b) (hbc : mayPrecede b c) :
    mayPrecede a c := by
  rw [mayPrecede_iff] at hab hbc ⊢
  omega

theorem mayPrecede_total (a b : Statement) : mayPrecede a b || mayPrecede b a := by
  rw [Bool.or_eq_true, mayPrecede_iff, mayPrecede_iff]
  omega

/-- What asks for the front may stand in front of anything. -/
theorem mayPrecede_of_hoisted {a : Statement} (h : a.hoist = .hoisted) (b : Statement) :
    mayPrecede a b := by
  rw [mayPrecede_iff, h]
  exact b.hoist.rank_le

/-- Statements that ask for no other place are in order. -/
theorem pairwise_of_standard {ss : List Statement} (h : ∀ s ∈ ss, s.hoist = .standard) :
    ss.Pairwise fun a b => mayPrecede a b := by
  refine List.pairwise_of_forall_mem_list fun a ha b hb => mayPrecede_iff.mpr (Nat.le_of_eq ?_)
  rw [h a ha, h b hb]

/-- A body in which no statement asks to move is sorted as it stands. -/
theorem hoist_eq (p : Program) : p.hoist = { p with body := p.body.mergeSort mayPrecede } := by
  unfold hoist
  split
  · next hall =>
    have hstandard : ∀ s ∈ p.body, s.hoist = .standard := by simpa using hall
    -- sorting would not move anything, so it does not matter that it is left out
    rw [List.mergeSort_of_pairwise (pairwise_of_standard hstandard)]
  · rfl

/-- A body in order stays as it is. -/
theorem hoist_of_pairwise {p : Program} (h : p.body.Pairwise fun a b => mayPrecede a b) :
    p.hoist = p := by
  rw [hoist_eq, List.mergeSort_of_pairwise h]

theorem hoist_of_standard {p : Program} (h : ∀ s ∈ p.body, s.hoist = .standard) : p.hoist = p :=
  hoist_of_pairwise (pairwise_of_standard h)

/-- A hoisted statement in front of such statements is in its place. -/
theorem hoist_prepend {p : Program} (h : ∀ s ∈ p.body, s.hoist = .standard) {s : Statement}
    (hs : s.hoist = .hoisted) : (p.prepend s).hoist = p.prepend s :=
  hoist_of_pairwise (List.pairwise_cons.2
    ⟨fun b _ => mayPrecede_of_hoisted hs b, pairwise_of_standard h⟩)

/-- A hoisted statement in front stays in front. -/
theorem exists_body_hoist {p : Program} {s : Statement} {ss : List Statement}
    (hbody : p.body = s :: ss) (hs : s.hoist = .hoisted) : ∃ ss', p.hoist.body = s :: ss' := by
  obtain ⟨before, after, hsort, -, hbefore⟩ :=
    List.mergeSort_cons mayPrecede_trans mayPrecede_total s ss
  rw [hoist_eq, hbody, hsort]
  -- nothing goes in front, since nothing outranks it
  cases before with
  | nil => exact ⟨after, rfl⟩
  | cons b before =>
    have hnot := hbefore b List.mem_cons_self
    rw [mayPrecede_of_hoisted hs b] at hnot
    cases hnot

end Program

end Preload
