import Mathlib.Data.List.Induction
import Preload.Path.Relative
import Preload.Proofs.Path.Resolve

/-!
# Ways between directories

The way from one directory to a place leaves the directories that the two do not share and enters
those of the place. It depends on nothing above the directories they share, so it leads to the place
from any other copy of the base as well. A specifier shows the names that the way enters, and one
that is not UTF-8 is shown as another name. So it leads to the place as it is shown
(`Path.shownFrom`).

Main statements:
* `Path.prefix_sharedFront_iff`: what two directories share is the longest front of both;
* `Path.route_names` and `Path.wayBetween_append`: the way between any two directories, which is the
  same below any other one;
* `Path.shownFrom_eq_self_iff`: a place is shown as it is if all names that the way enters are
  UTF-8;
* `Path.moduleSpecifier?_ofNames` and `Path.joinUnder_specifierOf_wayBetween`: the specifier for a
  place, and where it leads from any copy of the base.
-/

namespace Preload.Path

/-! ## Ways -/

/-- What the directories have in common is skipped. -/
theorem route_append (shared base target : List Component) :
    route (shared ++ base) (shared ++ target) = route base target := by
  induction shared with
  | nil => rfl
  | cons c shared ih => rw [List.cons_append, List.cons_append, route, if_pos rfl, ih]

/-- Leaving some directories drops their names. -/
theorem follow_ups (names below : List OsString) (cs : List Component) :
    follow (names ++ below) (List.replicate below.length .up ++ cs) = follow names cs := by
  -- the last directory is left first
  induction below using List.reverseRecOn with
  | nil => rw [List.append_nil, List.length_nil, List.replicate_zero, List.nil_append]
  | append_singleton below s ih =>
    rw [List.length_append, List.length_singleton, List.replicate_succ, List.cons_append, follow,
      ← List.append_assoc, List.dropLast_concat, ih]

/-- The longest front that two lists of names share. -/
def sharedFront : List OsString → List OsString → List OsString
  | s :: ss, t :: ts => if s = t then s :: sharedFront ss ts else []
  | _, _ => []

/-- What is a front of both lists is a front of what they share. -/
theorem prefix_sharedFront_iff (base target front : List OsString) :
    front <+: sharedFront base target ↔ front <+: base ∧ front <+: target := by
  fun_induction sharedFront base target generalizing front with
  | case1 base t target ih =>
    cases front with
    | nil => simp
    | cons s front =>
      -- a front with one more name is one of both lists if it opens with the name they share
      simp only [List.cons_prefix_cons, ih]
      constructor
      · intro h
        exact ⟨⟨h.1, h.2.1⟩, h.1, h.2.2⟩
      · intro h
        exact ⟨h.1.1, h.1.2, h.2.2⟩
  | case2 b base t target hne =>
    cases front with
    | nil => simp
    | cons s front =>
      simp only [List.cons_prefix_cons, List.prefix_nil, List.cons_ne_nil, false_iff]
      -- both lists would open with the first name of the front, but they differ
      intro h
      exact hne (h.1.1.symm.trans h.2.1)
  | case3 base target hcons =>
    cases front with
    | nil => simp
    | cons s front =>
      -- one of the lists is empty, so no name is in front of both
      simp only [List.prefix_nil, List.cons_ne_nil, false_iff]
      intro h
      obtain ⟨⟨base, rfl⟩, ⟨target, rfl⟩⟩ := h
      exact hcons s (front ++ base) s (front ++ target) rfl rfl

/-- The names of the target that are not shared with the base. -/
def namesAhead (base target : List OsString) : List OsString :=
  target.drop (sharedFront base target).length

/-- The way between two directories: out of what they do not share, and along the rest of the
target. -/
def wayBetween (base target : List OsString) : List Component :=
  List.replicate (base.length - (sharedFront base target).length) .up ++
    (namesAhead base target).map .name

theorem sharedFront_append_namesAhead (base target : List OsString) :
    sharedFront base target ++ namesAhead base target = target := by
  obtain ⟨-, hfront⟩ := (prefix_sharedFront_iff base target (sharedFront base target)).1 List.prefix_rfl
  exact List.prefix_iff_eq_append.1 hfront

/-- Leaving what a base does not share with a target, and entering other names there. -/
theorem follow_ups_names (root base target entered : List OsString) :
    follow (root ++ base)
        (List.replicate (base.length - (sharedFront base target).length) .up ++ entered.map .name) =
      root ++ (sharedFront base target ++ entered) := by
  obtain ⟨⟨out, hbase⟩, -⟩ :=
    (prefix_sharedFront_iff base target (sharedFront base target)).1 List.prefix_rfl
  -- as many steps up as there are names of the base that are not shared
  have hlength : base.length - (sharedFront base target).length = out.length := by
    have hbaseLength := congrArg List.length hbase
    rw [List.length_append] at hbaseLength
    omega
  -- the way turns around in the directory that holds what is shared
  calc follow (root ++ base)
        (List.replicate (base.length - (sharedFront base target).length) .up ++ entered.map .name)
      = follow (root ++ sharedFront base target ++ out)
          (List.replicate out.length .up ++ entered.map .name) := by
        rw [hlength, List.append_assoc, hbase]
    _ = follow (root ++ sharedFront base target) (entered.map .name) := follow_ups _ _ _
    _ = root ++ sharedFront base target ++ entered := follow_names _ _
    _ = root ++ (sharedFront base target ++ entered) := List.append_assoc _ _ _

/-- Directories with nothing in common are apart. -/
theorem routeApart_names (base target : List OsString) :
    routeApart (base.map .name) (target.map .name) =
      some (List.replicate base.length .up ++ target.map .name) := by
  cases target with
  | nil => simp [routeApart, ← List.map_const']
  | cons t target =>
    -- without a base there is nothing to leave
    cases base with
    | nil => rfl
    | cons b base => simp [routeApart, List.replicate_succ, ← List.map_const']

/-- The way that is found between two directories. -/
theorem route_names (base target : List OsString) :
    route (base.map .name) (target.map .name) = some (wayBetween base target) := by
  fun_induction sharedFront base target with
  | case1 base t target ih =>
    -- a shared name is skipped by the way and dropped from both lists alike
    rw [List.map_cons, List.map_cons, route, if_pos rfl, ih]
    simp [wayBetween, namesAhead, sharedFront]
  | case2 b base t target hne =>
    -- at the first difference the way leaves the base
    have hname : Component.name t ≠ Component.name b := fun h => hne (Component.name.inj h).symm
    rw [List.map_cons, List.map_cons, route, if_neg hname]
    have happart := routeApart_names (b :: base) (t :: target)
    simpa [wayBetween, namesAhead, sharedFront, hne] using happart
  | case3 base target hcons =>
    -- one list has ended, so what is left of the other is left or entered as a whole
    cases base with
    | nil => cases target <;> simp [route, routeApart, wayBetween, namesAhead, sharedFront]
    | cons b base =>
      cases target with
      | nil => simpa [route, wayBetween, namesAhead, sharedFront] using routeApart_names (b :: base) []
      | cons t target => exact absurd rfl (hcons b base t target rfl)

/-- What both directories are below of does not matter. -/
theorem wayBetween_append (root base target : List OsString) :
    wayBetween (root ++ base) (root ++ target) = wayBetween base target := by
  -- the way is found between the directories below the root, and it is the only one
  have hroute := route_append (root.map .name) (base.map .name) (target.map .name)
  rw [← List.map_append, ← List.map_append, route_names, route_names] at hroute
  exact Option.some.inj hroute

theorem spellable_of_mem_wayBetween {base target : List OsString} (htarget : AreNames target)
    {c : Component} (hc : c ∈ wayBetween base target) : c.Spellable := by
  have hahead : AreNames (namesAhead base target) := fun s hs => htarget s (List.mem_of_mem_drop hs)
  -- a way is steps up and names of the target
  obtain hc | hc := List.mem_append.1 hc
  · rw [List.eq_of_mem_replicate hc]
    exact spellable_up
  · exact hahead.spellable c hc

/-! ## Names as they are shown -/

/-- The component as it is shown. -/
def Component.replaced : Component → Component
  | name s => name s.replaced
  | c => c

theorem Component.Spellable.replaced {c : Component} (h : c.Spellable) : c.replaced.Spellable := by
  -- replacing brings in no slash, and no dots that were not there
  cases c with
  | name s => exact spellable_name_iff.2 (spellable_name_iff.1 h).replaced
  | _ => exact h

theorem forall_mem_map_replaced {cs : List Component} (h : ∀ c ∈ cs, c.Spellable) :
    ∀ c ∈ cs.map Component.replaced, c.Spellable := by
  intro c hc
  obtain ⟨d, hd, rfl⟩ := List.mem_map.1 hc
  exact (h d hd).replaced

/-- A component as it is shown has the text that is shown. -/
theorem text_replaced (c : Component) : c.replaced.text = OsString.ofString c.text.lossy := by
  cases c with
  | name s => rfl
  -- steps without names have texts of ASCII
  | _ => exact (congrArg OsString.ofString (OsString.lossy_ofString _)).symm

/-- Only a step up is shown as two dots. -/
theorem lossy_text_eq_dots_iff {c : Component} (h : c.Spellable) : c.text.lossy = ".." ↔ c = .up := by
  constructor
  · intro hlossy
    -- two dots are read as a step up, and what is shown is read as the component shown
    have hstep := h.replaced.2
    have hdots : (OsString.ofString "..").bytes = [dot, dot] := by decide
    have hup : stepOf? [dot, dot] = some .up := rfl
    rw [text_replaced, hlossy, hdots, hup] at hstep
    cases c with
    | up => rfl
    | _ => cases hstep
  · rintro rfl
    exact OsString.lossy_ofString ".."

/-- The place that a target is shown as on the way to it. -/
def shownFrom (base target : List OsString) : List OsString :=
  sharedFront base target ++ (namesAhead base target).map OsString.replaced

/-- A target is shown as it is if all names that the way to it enters are UTF-8. -/
theorem shownFrom_eq_self_iff {base target : List OsString} :
    shownFrom base target = target ↔ ∀ s ∈ namesAhead base target, ∃ t : String, s = t := by
  have hsame : shownFrom base target = target ↔
      (namesAhead base target).map OsString.replaced = (namesAhead base target).map id := by
    -- the shared front is the same on both sides
    conv_lhs => rhs; rw [← sharedFront_append_namesAhead base target]
    rw [shownFrom, List.append_cancel_left_eq, List.map_id]
  -- names are shown as they are if they are UTF-8, one by one
  rw [hsame, List.map_inj_left]
  simp only [id, OsString.replaced_eq_self_iff]

theorem areNames_shownFrom {base target : List OsString} (htarget : AreNames target) :
    AreNames (shownFrom base target) := by
  -- the shared names are names of the target, and those ahead are shown as names
  rw [← sharedFront_append_namesAhead base target] at htarget
  obtain ⟨hshared, hahead⟩ := List.forall_mem_append.1 htarget
  refine List.forall_mem_append.2 ⟨hshared, fun s hs => ?_⟩
  obtain ⟨t, ht, rfl⟩ := List.mem_map.1 hs
  exact (hahead t ht).replaced

/-- The way as it is shown leads to the target as it is shown. -/
theorem follow_map_replaced_wayBetween (root base target : List OsString) :
    follow (root ++ base) ((wayBetween base target).map Component.replaced) =
      root ++ shownFrom base target := by
  -- only names have anything to replace
  have hnames : ((namesAhead base target).map Component.name).map Component.replaced =
      ((namesAhead base target).map OsString.replaced).map Component.name := by
    rw [List.map_map, List.map_map]
    rfl
  rw [wayBetween, List.map_append, List.map_replicate, hnames]
  exact follow_ups_names root base target _

/-! ## Specifiers -/

/-- The joined text of some components is that of the components as they are shown. -/
theorem bytes_intercalate_lossy (way : List Component) :
    (OsString.ofString (String.intercalate "/" (way.map (·.text.lossy)))).bytes =
      [slash].intercalate ((way.map Component.replaced).map (·.text.bytes)) := by
  have htexts : (way.map (·.text.lossy)).map OsString.ofString =
      (way.map Component.replaced).map Component.text := by
    rw [List.map_map, List.map_map]
    exact List.map_congr_left fun c _ => (text_replaced c).symm
  rw [OsString.ofString_intercalate, htexts, bytes_intercalate_texts]

theorem head?_map_lossy_eq_dots_iff {way : List Component} (h : ∀ c ∈ way, c.Spellable) :
    (way.map (·.text.lossy)).head? = some ".." ↔ way.head? = some .up := by
  cases way with
  | nil => simp
  | cons c way =>
    -- the first text decides, and only a step up is shown as two dots
    rw [List.map_cons, List.head?_cons, List.head?_cons, Option.some.injEq, Option.some.injEq]
    exact lossy_text_eq_dots_iff (h c List.mem_cons_self)

/-- The segments of the text of a way are those of its steps as they are shown, behind a dot unless
the way leads up. -/
theorem segments_specifierOf {way : List Component} (h : ∀ c ∈ way, c.Spellable) :
    segments ⟨specifierOf way⟩ =
      if way.head? = some .up then (way.map Component.replaced).map (·.text.bytes)
      else [dot] :: splitSlashes ([slash].intercalate ((way.map Component.replaced).map (·.text.bytes))) := by
  rw [segments, specifierOf, filter_isStep_of_spellable h]
  simp only [head?_map_lossy_eq_dots_iff h]
  by_cases hup : way.head? = some .up
  · -- the text splits at the slashes between its steps
    have hne : way.map Component.replaced ≠ [] := by
      intro hnil
      rw [List.map_eq_nil_iff.1 hnil] at hup
      cases hup
    rw [if_pos hup, if_pos hup, bytes_intercalate_lossy, splitSlashes_texts (forall_mem_map_replaced h) hne]
  · -- the dot in front is a segment of its own
    have hdot : (OsString.ofString "./").bytes = [dot] ++ [slash] := by decide
    rw [if_neg hup, if_neg hup, OsString.ofString_append, OsString.bytes_append, hdot,
      bytes_intercalate_lossy, List.append_assoc, List.singleton_append (x := slash),
      splitSlashes_append_slash (by decide)]

/-- The text of a way spells its steps as they are shown. -/
theorem steps_specifierOf {way : List Component} (h : ∀ c ∈ way, c.Spellable) :
    (⟨specifierOf way⟩ : Path).steps = way.map Component.replaced := by
  rw [steps, segments_specifierOf h]
  split
  · exact filterMap_stepOf?_texts (forall_mem_map_replaced h)
  · -- the dot in front stands for no step
    rw [List.filterMap_cons]
    exact filterMap_stepOf?_splitSlashes (forall_mem_map_replaced h)

/-- Between two places there is a specifier, the text of the way between them. -/
theorem moduleSpecifier?_ofNames {base target : List OsString} (hbase : AreNames base)
    (htarget : AreNames target) :
    moduleSpecifier? (ofNames base) (ofNames target) = some (specifierOf (wayBetween base target)) := by
  rw [moduleSpecifier?, isAbsolute_ofNames, isAbsolute_ofNames, if_pos rfl, components_ofNames hbase,
    components_ofNames htarget, route, if_pos rfl, route_names]
  rfl

/-- The specifier leads from the one place to the other one as it is shown, below any directory. -/
theorem joinUnder_specifierOf_wayBetween {root base target : List OsString}
    (hbase : AreNames (root ++ base)) (htarget : AreNames target) :
    (ofNames (root ++ base)).joinUnder ⟨specifierOf (wayBetween base target)⟩ =
      ofNames (root ++ shownFrom base target) := by
  rw [joinUnder_ofNames hbase, steps_specifierOf fun c hc => spellable_of_mem_wayBetween htarget hc,
    follow_map_replaced_wayBetween]

end Preload.Path
