import Preload.Proofs.Path.Segments

/-!
# Parents

The parent of a path is spelled as the path is, up to its last component. So however the path is
spelled, its parent is the place right above it.

Main statements:
* `Path.components_eq_nil_iff`: only the path without text has no components;
* `Path.exists_components_of_parent?`: a path has one component more than its parent.
-/

namespace Preload.Path

/-! ## Segments that say nothing -/

theorem stepOf?_of_isBlankSegment {segment : List UInt8} (h : isBlankSegment segment = true) :
    stepOf? segment = none := by
  rw [stepOf?, if_pos h]

theorem exists_stepOf? {segment : List UInt8} (h : isBlankSegment segment = false) :
    ∃ c, stepOf? segment = some c := by
  rw [stepOf?, h, if_neg (by simp)]
  split <;> exact ⟨_, rfl⟩

/-- Only the path without text has no components. -/
theorem components_eq_nil_iff {p : Path} : p.components = [] ↔ p.isEmpty = true := by
  -- a path is empty just if it has no bytes
  have hempty : p.isEmpty = true ↔ p.spelling.bytes = [] := by
    simp [isEmpty]
  rw [hempty, components_eq, steps, segments]
  -- without bytes there is one blank segment; with bytes, a lead or a first step
  cases p.spelling.bytes with
  | nil => decide
  | cons c cs =>
    refine ⟨fun hnil => ?_, fun hcons => absurd hcons (List.cons_ne_nil c cs)⟩
    obtain ⟨hlead, hsteps⟩ := List.append_eq_nil_iff.1 hnil
    obtain ⟨s, ss, hcs⟩ := List.exists_cons_of_ne_nil (splitSlashes_ne_nil cs)
    -- a slash in front is a lead
    by_cases hc : c = slash
    · rw [splitSlashes, if_pos hc, hcs] at hlead
      cases hlead
    · rw [splitSlashes_cons_of_ne hc hcs] at hlead hsteps
      -- a dot alone is a lead too
      by_cases hdot : c :: s = [dot]
      · rw [hdot] at hlead
        cases hlead
      · -- a first segment with text that is no dot is a step
        have hblank : isBlankSegment (c :: s) = false := by simpa [isBlankSegment] using hdot
        obtain ⟨step, hstep⟩ := exists_stepOf? hblank
        rw [List.filterMap_cons, hstep] at hsteps
        cases hsteps

/-- Segments at the end that say nothing stand for no steps. -/
theorem filterMap_stepOf?_dropWhile (segments : List (List UInt8)) :
    (segments.dropWhile isBlankSegment).reverse.filterMap stepOf? =
      segments.reverse.filterMap stepOf? := by
  -- dropping goes from the front of the reversed list, so the induction adds segments at the end
  induction segments with
  | nil => rfl
  | cons s ss ih =>
    by_cases hs : isBlankSegment s
    · rw [List.dropWhile_cons_of_pos hs, ih, List.reverse_cons, List.filterMap_append,
        List.filterMap_cons, stepOf?_of_isBlankSegment hs]
      simp
    · rw [List.dropWhile_cons_of_neg hs]

/-! ## Paths with a lead -/

/-- Joining segments and splitting the text again changes no steps. -/
theorem filterMap_stepOf?_intercalate {segments : List (List UInt8)}
    (h : ∀ segment ∈ segments, slash ∉ segment) :
    (splitSlashes ([slash].intercalate segments)).filterMap stepOf? = segments.filterMap stepOf? := by
  by_cases hne : segments = []
  · subst hne
    decide
  · rw [splitSlashes_intercalate hne h]

/-- Segments with others behind them have no lead of their own if all of them together have none. -/
theorem lead?_of_append {segments others : List (List UInt8)} (hne : others ≠ [])
    (h : lead? (segments ++ others) = none) : lead? segments = none := by
  -- a lead is the first of two segments or more, so what comes behind can make one but not lose one
  obtain ⟨t, ts, rfl⟩ := List.exists_cons_of_ne_nil hne
  unfold lead?
  split
  · cases h
  · cases h
  · rfl

theorem components_withLead_root {segments : List (List UInt8)}
    (h : ∀ segment ∈ segments, slash ∉ segment) :
    (withLead (some .root) segments).components = .root :: segments.filterMap stepOf? := by
  obtain ⟨s, ss, hjoined⟩ := List.exists_cons_of_ne_nil
    (splitSlashes_ne_nil ([slash].intercalate segments))
  have hsplit : splitSlashes (slash :: [slash].intercalate segments) = [] :: s :: ss := by
    rw [splitSlashes, if_pos rfl, hjoined]
  rw [components_eq, steps, Path.segments, withLead, hsplit, ← filterMap_stepOf?_intercalate h, hjoined]
  rfl

theorem components_withLead_here {segments : List (List UInt8)}
    (h : ∀ segment ∈ segments, slash ∉ segment) :
    (withLead (some .here) segments).components = .here :: segments.filterMap stepOf? := by
  cases segments with
  | nil => decide
  | cons s ss =>
    have hbytes : (withLead (some .here) (s :: ss)).spelling.bytes =
        [dot] ++ slash :: [slash].intercalate (s :: ss) := rfl
    rw [components_eq, steps, Path.segments, hbytes, splitSlashes_append_slash (by decide),
      List.filterMap_cons, filterMap_stepOf?_intercalate h]
    rfl

theorem components_withLead_none {segments : List (List UInt8)}
    (h : ∀ segment ∈ segments, slash ∉ segment) (hlead : lead? segments = none) :
    (withLead none segments).components = segments.filterMap stepOf? := by
  have hbytes : (withLead none segments).spelling.bytes = [slash].intercalate segments := rfl
  rw [components_eq, steps, Path.segments, hbytes, filterMap_stepOf?_intercalate h]
  by_cases hne : segments = []
  · subst hne
    rfl
  · rw [splitSlashes_intercalate hne h, hlead]
    rfl

/-- A path has the components of its lead and the steps of its segments. -/
theorem components_withLead {whole segments : List (List UInt8)}
    (h : ∀ segment ∈ segments, slash ∉ segment)
    (hlead : lead? whole = none → lead? segments = none) :
    (withLead (lead? whole) segments).components =
      (lead? whole).toList ++ segments.filterMap stepOf? := by
  -- each lead is spelled in its own way
  have hroot := components_withLead_root h
  have hhere := components_withLead_here h
  have hnone := components_withLead_none h
  revert hlead
  fun_cases lead? whole with
  | case1 => exact fun _ => hroot
  | case2 => exact fun _ => hhere
  | case3 => exact fun hlead => hnone (hlead rfl)

/-! ## The parent of a path -/

/-- The segments of a path behind its lead. -/
def bodySegments (p : Path) : List (List UInt8) :=
  if (lead? p.segments).isSome then p.segments.drop 1 else p.segments

theorem parent?_eq (p : Path) :
    p.parent? =
      match p.bodySegments.reverse.dropWhile isBlankSegment, lead? p.segments with
      | _ :: before, lead => some (withLead lead (before.dropWhile isBlankSegment).reverse)
      | [], some .here => some ⟨""⟩
      | [], _ => none := rfl

theorem not_mem_of_mem_bodySegments {p : Path} {segment : List UInt8}
    (h : segment ∈ p.bodySegments) : slash ∉ segment := by
  unfold bodySegments at h
  split at h
  · exact not_mem_of_mem_splitSlashes (List.mem_of_mem_drop h)
  · exact not_mem_of_mem_splitSlashes h

/-- The lead of a path stands for no step. -/
theorem filterMap_stepOf?_bodySegments (p : Path) :
    p.bodySegments.filterMap stepOf? = p.steps := by
  rw [bodySegments, steps]
  -- a lead is the first segment, and it says nothing or is a dot
  unfold lead?
  split
  · next hsegments => rw [hsegments]; rfl
  · next hsegments => rw [hsegments]; rfl
  · rfl

/-- The last segment that says something stands for the last step. -/
theorem exists_filterMap_stepOf?_eq {body before : List (List UInt8)} {last : List UInt8}
    (h : body.reverse.dropWhile isBlankSegment = last :: before) :
    ∃ c, body.filterMap stepOf? =
      (before.dropWhile isBlankSegment).reverse.filterMap stepOf? ++ [c] := by
  -- the walk over blank segments stops at one that says something
  have hlast : isBlankSegment last = false := by
    have hnot := List.head?_dropWhile_not isBlankSegment body.reverse
    rw [h] at hnot
    simpa using hnot
  obtain ⟨c, hc⟩ := exists_stepOf? hlast
  refine ⟨c, ?_⟩
  calc body.filterMap stepOf?
      = (last :: before).reverse.filterMap stepOf? := by
        rw [← h, filterMap_stepOf?_dropWhile, List.reverse_reverse]
    _ = before.reverse.filterMap stepOf? ++ [c] := by
        rw [List.reverse_cons, List.filterMap_append, List.filterMap_cons, hc, List.filterMap_nil]
    _ = (before.dropWhile isBlankSegment).reverse.filterMap stepOf? ++ [c] := by
        rw [filterMap_stepOf?_dropWhile]

/-- What is left in front of the last segment is the front of all segments. -/
theorem exists_append_of_dropWhile {body before : List (List UInt8)} {last : List UInt8}
    (h : body.reverse.dropWhile isBlankSegment = last :: before) :
    ∃ others, others ≠ [] ∧ body = (before.dropWhile isBlankSegment).reverse ++ others := by
  obtain ⟨blanks, hblanks⟩ := List.dropWhile_suffix isBlankSegment (l := body.reverse)
  obtain ⟨more, hmore⟩ := List.dropWhile_suffix isBlankSegment (l := before)
  refine ⟨more.reverse ++ last :: blanks.reverse, by simp, ?_⟩
  rw [← List.reverse_reverse body, ← hblanks, h, ← List.append_assoc, ← List.reverse_append, hmore]
  simp

/-- A path has one component more than its parent. -/
theorem exists_components_of_parent? {p q : Path} (h : p.parent? = some q) :
    ∃ c, p.components = q.components ++ [c] := by
  -- the steps of the path are those of its segments without the lead
  have hsteps := filterMap_stepOf?_bodySegments p
  rw [parent?_eq] at h
  split at h
  · next last before hreverse =>
    cases h
    obtain ⟨c, hc⟩ := exists_filterMap_stepOf?_eq hreverse
    obtain ⟨others, hne, hothers⟩ := exists_append_of_dropWhile hreverse
    -- the segments of the parent are segments of the path
    have hslash : ∀ segment ∈ (before.dropWhile isBlankSegment).reverse, slash ∉ segment := by
      intro segment hsegment
      refine not_mem_of_mem_bodySegments (p := p) ?_
      rw [hothers]
      exact List.mem_append_left others hsegment
    refine ⟨c, ?_⟩
    rw [components_withLead hslash, components_eq, ← hsteps, hc, List.append_assoc]
    -- without a lead, the segments of the parent are the front of those of the path
    intro hnone
    rw [bodySegments, hnone] at hothers
    refine lead?_of_append hne ?_
    rw [← hothers]
    exact hnone
  · next hreverse hlead =>
    -- there is nothing but a dot
    cases h
    have hnil := filterMap_stepOf?_dropWhile p.bodySegments.reverse
    rw [hreverse, List.reverse_reverse, hsteps] at hnil
    rw [components_eq, hlead, ← hnil]
    exact ⟨.here, rfl⟩
  · cases h

end Preload.Path
