import Mathlib.Data.List.Perm.Basic
import Preload.Json

/-!
# Members of objects

Where no key comes twice, what is looked up in a list of members depends neither on the order of the
members nor on members with other keys, and an object that is put together from such members keeps
them as they are.

Main statements:
* `Json.lookup_eq_some_iff_mem`: looking up a key finds its member;
* `Json.lookup_congr_of_perm`: neither the order nor other keys matter;
* `Json.ofMembers_of_nodup`: no member replaces another one.
-/

namespace Preload.Json

theorem sublist_map_fst_zip {κ α : Type} (keys : List κ) (as : List α) :
    ((keys.zip as).map Prod.fst).Sublist keys := by
  induction keys generalizing as with
  | nil => simp
  | cons key keys ih =>
    cases as with
    | nil => simp
    | cons a as => exact (ih as).cons_cons key

section Lookup

variable {κ α : Type} [BEq κ] [LawfulBEq κ]

/-- Where no key comes twice, looking up a key finds its member. -/
theorem lookup_eq_some_iff_mem {ms : List (κ × α)} (hnodup : (ms.map Prod.fst).Nodup) {key : κ}
    {a : α} : ms.lookup key = some a ↔ (key, a) ∈ ms := by
  induction ms with
  | nil => simp
  | cons m ms ih =>
    obtain ⟨k, b⟩ := m
    rw [List.map_cons, List.nodup_cons] at hnodup
    by_cases hk : key = k
    · subst hk
      -- the member in front has the key, so no other one does
      have hnot : (key, a) ∉ ms := fun hmem => hnodup.1 (List.mem_map.2 ⟨_, hmem, rfl⟩)
      simp [hnot, eq_comm]
    · -- another member is in front, which neither side looks at
      have hbeq : (key == k) = false := by simpa using hk
      simp [List.lookup_cons, hbeq, hk, ih hnodup.2]

theorem lookup_eq_none_iff_not_mem {ms : List (κ × α)} {key : κ} :
    ms.lookup key = none ↔ key ∉ ms.map Prod.fst := by
  rw [List.lookup_eq_none_iff]
  simp only [bne_iff_ne, ne_eq, List.mem_map, not_exists, not_and]
  exact ⟨fun h m hm heq => h m hm heq.symm, fun h m hm heq => h m hm heq.symm⟩

/-- Neither the order of the members nor those with other keys matter. -/
theorem lookup_congr_of_perm {ms ms' : List (κ × α)} {isKnown : κ → Bool}
    (hnodup : (ms.map Prod.fst).Nodup) (hnodup' : (ms'.map Prod.fst).Nodup)
    (hperm : (ms.filter fun m => isKnown m.1).Perm (ms'.filter fun m => isKnown m.1)) {key : κ}
    (h : isKnown key = true) : ms.lookup key = ms'.lookup key := by
  apply Option.ext
  intro a
  rw [lookup_eq_some_iff_mem hnodup, lookup_eq_some_iff_mem hnodup']
  -- only members with known keys are compared, and this key is one
  have hmem := hperm.mem_iff (a := (key, a))
  simpa [List.mem_filter, h] using hmem

/-- Keys may be spelled otherwise as long as different ones stay different. -/
theorem lookup_zip_map {ι : Type} [BEq ι] [LawfulBEq ι] {f : ι → κ}
    (hf : ∀ i j, f i = f j → i = j) (is : List ι) (as : List α) (i : ι) :
    ((is.map f).zip as).lookup (f i) = (is.zip as).lookup i := by
  induction is generalizing as with
  | nil => rfl
  | cons j is ih =>
    cases as with
    | nil => rfl
    | cons a as =>
      by_cases hij : i = j
      · subst hij
        simp
      · have hbeq : (i == j) = false := by simpa using hij
        -- the keys differ however they are spelled, so both lookups go on
        have hbeq' : (f i == f j) = false := by simpa using fun h => hij (hf i j h)
        simp [List.lookup_cons, hbeq, hbeq', ih]

end Lookup

/-! ## Objects from members -/

theorem setMember_of_not_mem {key : String} {value : Json} {ms : List (String × Json)}
    (h : key ∉ ms.map Prod.fst) : setMember key value ms = ms ++ [(key, value)] := by
  induction ms with
  | nil => rfl
  | cons m ms ih =>
    obtain ⟨k, v⟩ := m
    rw [List.map_cons, List.mem_cons, not_or] at h
    rw [setMember, if_neg (Ne.symm h.1), ih h.2, List.cons_append]

/-- Where no key comes twice, no member replaces another one. -/
theorem ofMembers_of_nodup {ms : List (String × Json)} (h : (ms.map Prod.fst).Nodup) :
    ofMembers ms = .object ms := by
  -- the members so far stay in front, and none of the keys ahead is among theirs
  suffices hfold : ∀ done : List (String × Json), ((done ++ ms).map Prod.fst).Nodup →
      ms.foldl (fun ms m => setMember m.1 m.2 ms) done = done ++ ms by
    exact congrArg Json.object (hfold [] h)
  clear h
  induction ms with
  | nil => simp
  | cons m ms ih =>
    intro done hnodup
    have hnot : m.1 ∉ done.map Prod.fst := by
      intro hmem
      rw [List.map_append, List.nodup_append] at hnodup
      exact hnodup.2.2 m.1 hmem m.1 (by simp) rfl
    rw [List.foldl_cons, setMember_of_not_mem hnot, ih]
    · simp
    · simpa using hnodup

end Preload.Json
