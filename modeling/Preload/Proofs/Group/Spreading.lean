import Preload.Proofs.Group.Splitting

/-!
# Groups among their tokens

Groups are runs of the tokens that are split, in the same order, and only line breaks stand between
them. `Spread` says so of any lists in a list.

Main statements:
* `spread_split`: the groups are spread over the tokens that are split.
-/

namespace Preload

/-- Whether lists stand in a list one after the other, with nothing but fillers around them. -/
inductive Spread {α : Type} (isFiller : α → Prop) : List (List α) → List α → Prop
  | nil {xs : List α} (fillers : ∀ x ∈ xs, isFiller x) : Spread isFiller [] xs
  | cons {skipped part : List α} {parts : List (List α)} {xs : List α}
      (fillers : ∀ x ∈ skipped, isFiller x) (part_ne_nil : part ≠ [])
      (rest : Spread isFiller parts xs) : Spread isFiller (part :: parts) (skipped ++ (part ++ xs))

namespace Spread

variable {α : Type} {isFiller : α → Prop} {parts : List (List α)} {xs : List α}

/-- A part may stand in front. -/
theorem part_append {part : List α} (hpart : part ≠ []) (h : Spread isFiller parts xs) :
    Spread isFiller (part :: parts) (part ++ xs) := by
  have hnone : ∀ x ∈ ([] : List α), isFiller x := by simp
  exact .cons hnone hpart h

/-- A filler may stand in front. -/
theorem filler_cons {x : α} (hx : isFiller x) (h : Spread isFiller parts xs) :
    Spread isFiller parts (x :: xs) := by
  cases h with
  | nil fillers => exact .nil (List.forall_mem_cons.2 ⟨hx, fillers⟩)
  | cons fillers part_ne_nil rest =>
    exact .cons (List.forall_mem_cons.2 ⟨hx, fillers⟩) part_ne_nil rest

end Spread

namespace Group

/-- Behind what goes on, the groups are spread over the tokens that are left. -/
theorem exists_spread_cut (cursor : Cursor) (depth : Nat) (ts : List Token) :
    ∃ us, ts = (cut cursor depth ts).tail ++ us ∧
      Spread (·.kind = .newline) ((cut cursor depth ts).later.map tokens) us := by
  induction ts generalizing cursor depth with
  | nil => exact ⟨[], rfl, .nil (by simp)⟩
  | cons t ts ih =>
    by_cases hstops : Stops cursor depth t ts
    · rw [cut_of_stops hstops]
      -- from here on nothing but line breaks comes, and they are fillers
      have hall : ∀ u ∈ ts, u.kind = .newline := by simpa [allNewlines] using hstops.2.2.2
      exact ⟨t :: ts, rfl, .nil (List.forall_mem_cons.2 ⟨hstops.2.1, hall⟩)⟩
    · obtain ⟨us, hus, hspread⟩ :=
        ih (cursor.next (t.kind.depthAfter depth) t.kind) (t.kind.depthAfter depth)
      rw [cut_cons hstops]
      generalize hc : cut (cursor.next (t.kind.depthAfter depth) t.kind) (t.kind.depthAfter depth) ts
        = c at hus hspread ⊢
      cases haction : cursor.action (t.kind.depthAfter depth) t.kind with
      | join => exact ⟨us, congrArg (t :: ·) hus, hspread⟩
      | start =>
        refine ⟨t :: ts, rfl, ?_⟩
        -- a group opens here: it is the token and what goes on behind it
        rw [hus]
        exact hspread.part_append (List.cons_ne_nil t c.tail)
      | skip =>
        -- nothing goes on there, so the line break stands in front of the next group
        obtain ⟨-, hkind, -, hnext⟩ := Cursor.of_action_eq_skip haction
        have htail : c.tail = [] := by rw [← hc, hnext, tail_cut_between]
        rw [htail, List.nil_append] at hus
        subst hus
        exact ⟨t :: ts, rfl, hspread.filler_cons hkind⟩

/-- The groups are spread over the tokens that are split, with nothing but line breaks around
them. -/
theorem spread_split (ts : List Token) :
    Spread (·.kind = .newline) ((split ts).map tokens) ts := by
  obtain ⟨us, hus, hspread⟩ := exists_spread_cut .between 0 ts
  rw [tail_cut_between, List.nil_append] at hus
  subst hus
  exact hspread

end Group

end Preload
