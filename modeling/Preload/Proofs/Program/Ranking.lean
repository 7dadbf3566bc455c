import Preload.Proofs.Program.Hoisting

/-!
# Hoisting as a stable sort

Hoisting sorts the body by falling rank and keeps the order of statements of one rank. Only one
order of the statements does both (`StablyRanked.unique`). A hoisted statement has the highest rank
there is, but shares it with the statements of the highest priority: one of these stays in front of
any hoisted statement that it stood in front of.

Main statements:
* `Program.hoist_stable`: hoisting is the stable sort, also where no statement asks to move;
* `Program.hoistedFirst_hoist_iff`: when hoisting puts the hoisted statements in front of all
  others.
-/

namespace Preload

/-- Only the highest priority ranks as high as what is hoisted. -/
theorem Hoist.eq_of_rank_hoisted {h : Hoist} (hrank : Hoist.hoisted.rank ≤ h.rank) :
    h = .hoisted ∨ h = .priority 4294967295 := by
  cases h with
  | standard => exact absurd hrank (by decide)
  | priority n =>
    -- of all numbers of 32 bits only the greatest one reaches the top
    have hn := n.toNat_lt
    have hmax : n.toNat = (4294967295 : UInt32).toNat := by
      simp only [rank] at hrank
      show n.toNat = 4294967295
      omega
    exact .inr (congrArg priority (UInt32.toNat_inj.1 hmax))
  | hoisted => exact .inl rfl

theorem Statement.isHoisted_iff {s : Statement} : s.isHoisted ↔ s.hoist = .hoisted :=
  beq_iff_eq

/-! ## Statements at their old places -/

/-- Whether the statements of a body, each with its place in the body, are in falling rank, and in
their old order within each rank. -/
structure StablyRanked (body : List Statement) (placed : List (Statement × Nat)) : Prop where
  perm : placed.Perm body.zipIdx
  falling : placed.Pairwise fun a b => b.1.hoist.rank ≤ a.1.hoist.rank
  stable : placed.Pairwise fun a b => a.1.hoist.rank = b.1.hoist.rank → a.2 < b.2

namespace StablyRanked

variable {body : List Statement} {placed others : List (Statement × Nat)}

/-- There is only one such order. -/
theorem unique (h : StablyRanked body placed) (hothers : StablyRanked body others) :
    placed = others := by
  -- it is enough that two such orders of the same statements never contradict each other
  refine List.Perm.eq_of_pairwise ?_ (h.falling.and h.stable) (hothers.falling.and hothers.stable)
    (h.perm.trans hothers.perm.symm)
  -- no two statements stand each in front of the other
  rintro a b - - ⟨hba, hab⟩ ⟨hab', hba'⟩
  have hrank := Nat.le_antisymm hab' hba
  have hfront := hab hrank
  have hback := hba' hrank.symm
  omega

/-- What stands in front of a hoisted statement stood in front of it before. -/
theorem lt_of_hoisted (h : StablyRanked body placed) :
    placed.Pairwise fun a b => b.1.isHoisted → a.2 < b.2 := by
  refine (h.falling.and h.stable).imp ?_
  rintro a b ⟨hfalling, hstable⟩ hb
  rw [Statement.isHoisted_iff] at hb
  rw [hb] at hfalling hstable
  -- what is in front ranks as high at least, and nothing ranks higher than what is hoisted
  exact hstable (Nat.le_antisymm a.1.hoist.rank_le hfalling)

end StablyRanked

/-- Places in a body differ. -/
theorem pairwise_ne_zipIdx (body : List Statement) :
    body.zipIdx.Pairwise fun a b => a.2 ≠ b.2 := by
  have hnodup : (body.zipIdx.map Prod.snd).Nodup := by
    rw [List.zipIdx_map_snd]
    exact List.nodup_range'
  exact List.pairwise_map.1 hnodup

namespace Program

/-! ## The sort -/

/-- Sorting with ties decided by the places is what makes the sort stable. -/
theorem stablyRanked_mergeSort (body : List Statement) :
    StablyRanked body (body.zipIdx.mergeSort (List.zipIdxLE mayPrecede)) := by
  have hperm := List.mergeSort_perm body.zipIdx (List.zipIdxLE mayPrecede)
  have hsorted := List.pairwise_mergeSort (List.zipIdxLE_trans mayPrecede_trans)
    (List.zipIdxLE_total mayPrecede_total) body.zipIdx
  have hne := (pairwise_ne_zipIdx body).perm hperm.symm fun h => Ne.symm h
  refine ⟨hperm, hsorted.imp fun {a b} hab => ?_, (hsorted.and hne).imp ?_⟩
  · rw [List.zipIdxLE] at hab
    -- the sort compares places only where both statements may precede each other
    split at hab
    · next hle => exact mayPrecede_iff.1 hle
    · cases hab
  · rintro a b ⟨hab, hne⟩ hrank
    have hle : mayPrecede a.1 b.1 := mayPrecede_iff.2 (Nat.le_of_eq hrank.symm)
    have hge : mayPrecede b.1 a.1 := mayPrecede_iff.2 (Nat.le_of_eq hrank)
    rw [List.zipIdxLE, if_pos hle, if_pos hge, decide_eq_true_iff] at hab
    omega

theorem pairwise_hoist (p : Program) : p.hoist.body.Pairwise fun a b => mayPrecede a b := by
  rw [hoist_eq]
  exact List.pairwise_mergeSort mayPrecede_trans mayPrecede_total p.body

/-- Hoisting is the stable sort by falling rank, with or without the look whether any statement asks
to move. It changes nothing else, nothing is left to do for a second time, and no hoisted statement
ends up behind one that it stood in front of. -/
theorem hoist_stable (p : Program) :
    p.hoist = { p with body := p.body.mergeSort mayPrecede } ∧ p.hoist.hoist = p.hoist ∧
      p.hoist.body.Perm p.body ∧
      ∃ placed, StablyRanked p.body placed ∧ p.hoist.body = placed.map Prod.fst ∧
        (∀ others, StablyRanked p.body others → others = placed) ∧
        placed.Pairwise fun a b => b.1.isHoisted → a.2 < b.2 := by
  have hranked := stablyRanked_mergeSort p.body
  have hbody : p.hoist.body = p.body.mergeSort mayPrecede := by rw [hoist_eq]
  refine ⟨hoist_eq p, hoist_of_pairwise p.pairwise_hoist, ?_, _, hranked, ?_,
    fun others hothers => hothers.unique hranked, hranked.lt_of_hoisted⟩
  · rw [hbody]
    -- forgetting the places of the decorated sort gives the sort without places
    exact List.mergeSort_perm p.body mayPrecede
  · rw [hbody]
    exact List.mergeSort_zipIdx.symm

/-! ## What is hoisted -/

/-- Statements of one rank are the same ones in the same order. -/
theorem filter_rank_hoist (p : Program) (rank : Nat) :
    p.hoist.body.filter (·.hoist.rank = rank) = p.body.filter (·.hoist.rank = rank) := by
  have hsame : (p.body.filter (·.hoist.rank = rank)).Pairwise fun a b => mayPrecede a b := by
    refine List.pairwise_of_forall_mem_list fun a ha b hb => mayPrecede_iff.2 (Nat.le_of_eq ?_)
    rw [of_decide_eq_true (List.mem_filter.1 ha).2, of_decide_eq_true (List.mem_filter.1 hb).2]
  -- in order already, they are found one behind the other, and there are no others of their rank
  have hsub := (List.sublist_mergeSort mayPrecede_trans mayPrecede_total hsame
    List.filter_sublist).filter (·.hoist.rank = rank)
  rw [List.filter_filter] at hsub
  simp only [Bool.and_self] at hsub
  have hlength := ((List.mergeSort_perm p.body mayPrecede).filter (·.hoist.rank = rank)).length_eq
  rw [hoist_eq]
  exact (hsub.eq_of_length hlength.symm).symm

/-- Two statements of one rank stand in the same order before and after. -/
theorem pair_sublist_hoist_iff (p : Program) {a b : Statement} (h : a.hoist.rank = b.hoist.rank) :
    [a, b].Sublist p.hoist.body ↔ [a, b].Sublist p.body := by
  have hself : [a, b].filter (·.hoist.rank = b.hoist.rank) = [a, b] := by simp [h]
  have hfilter := p.filter_rank_hoist b.hoist.rank
  -- of two statements of one rank only those of this rank matter, and they are not moved
  constructor
  · intro hsub
    have hsub := hsub.filter (·.hoist.rank = b.hoist.rank)
    rw [hself, hfilter] at hsub
    exact hsub.trans List.filter_sublist
  · intro hsub
    have hsub := hsub.filter (·.hoist.rank = b.hoist.rank)
    rw [hself, ← hfilter] at hsub
    exact hsub.trans List.filter_sublist

/-- Whether every hoisted statement stands in front of every other statement. -/
def HoistedFirst (body : List Statement) : Prop :=
  body.Pairwise fun a b => b.isHoisted → a.isHoisted

/-- Hoisting puts the hoisted statements in front of all others just if none of them stood behind a
statement of the highest priority. -/
theorem hoistedFirst_hoist_iff (p : Program) :
    HoistedFirst p.hoist.body ↔
      p.body.Pairwise fun a b => b.isHoisted → a.hoist ≠ .priority 4294967295 := by
  have hsorted {a b : Statement} (hsub : [a, b].Sublist p.hoist.body) : mayPrecede a b :=
    List.pairwise_iff_forall_sublist.1 p.pairwise_hoist hsub
  have hrank {a b : Statement} (ha : a.hoist = .priority 4294967295) (hb : b.isHoisted) :
      a.hoist.rank = b.hoist.rank := by
    rw [ha, Statement.isHoisted_iff.1 hb]
    rfl
  rw [HoistedFirst, List.pairwise_iff_forall_sublist, List.pairwise_iff_forall_sublist]
  constructor
  · intro hfirst a b hsub hb ha
    have hhoisted := hfirst ((p.pair_sublist_hoist_iff (hrank ha hb)).2 hsub) hb
    rw [Statement.isHoisted_iff, ha] at hhoisted
    cases hhoisted
  · intro hnone a b hsub hb
    -- what stands in front of a hoisted statement ranks as high
    have hle := mayPrecede_iff.1 (hsorted hsub)
    rw [Statement.isHoisted_iff.1 hb] at hle
    obtain hhoisted | ha := Hoist.eq_of_rank_hoisted hle
    · exact Statement.isHoisted_iff.2 hhoisted
    · exact absurd ha (hnone ((p.pair_sublist_hoist_iff (hrank ha hb)).1 hsub) hb)

/-- A statement of the highest priority stays in front of a hoisted one. -/
theorem not_hoistedFirst_of_highest_priority :
    let highest : Statement := { Statement.ofKind (.other "a();") .dummy with
      hoist := .priority 4294967295 }
    let hoisted : Statement := { Statement.load .requireCall "./b.js" with hoist := .hoisted }
    (ofBody [highest, hoisted]).hoist.body = [highest, hoisted] ∧
      ¬HoistedFirst (ofBody [highest, hoisted]).hoist.body := by
  intro highest hoisted
  have hsorted : (ofBody [highest, hoisted]).hoist = ofBody [highest, hoisted] :=
    hoist_of_pairwise (List.pairwise_pair.2 (by decide))
  rw [hsorted]
  exact ⟨rfl, fun hfirst => absurd (List.pairwise_pair.1 hfirst) (by decide)⟩

end Program

end Preload
