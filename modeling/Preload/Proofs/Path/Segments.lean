import Preload.Path
import Preload.Proofs.Text.OsString

/-!
# Components and their spelling

The steps of a path are what its segments stand for. Written with slashes in between, they are the
segments of the text again, so a path can be taken apart into its steps and put together from them.

Main statements:
* `Path.splitSlashes_intercalate`: joining with slashes and splitting at them;
* `Path.spellable_of_mem_steps`: the steps of a path can be spelled;
* `Path.components_ofComponents`: an absolute path has the components it was made of;
* `Path.parent?_ofComponents`: its parent has all of them but the last.
-/

namespace Preload.Path

theorem isEmpty_iff {p : Path} : p.isEmpty = true ↔ p = ⟨""⟩ := by
  have hempty : (OsString.ofString "").bytes = [] := rfl
  rw [isEmpty, beq_iff_eq, Path.ext_iff, OsString.ext_iff, hempty]

/-! ## Segments -/

/-- Splitting at slashes is splitting at one character. -/
theorem splitSlashes_eq_splitOn (cs : List UInt8) : splitSlashes cs = cs.splitOn slash := by
  -- at a slash a segment ends, and any other byte goes to the front of the next one
  induction cs with
  | nil => rfl
  | cons c cs ih =>
    rw [splitSlashes, ih, List.splitOn_cons_eq_if_modifyHead]
    by_cases hc : c = slash
    · simp [hc]
    · obtain ⟨s, ss, hcs⟩ := List.exists_cons_of_ne_nil (List.splitOn_ne_nil slash cs)
      simp [hc, hcs]

theorem splitSlashes_ne_nil (cs : List UInt8) : splitSlashes cs ≠ [] := by
  rw [splitSlashes_eq_splitOn]
  exact List.splitOn_ne_nil slash cs

theorem splitSlashes_cons_of_ne {c : UInt8} (h : c ≠ slash) {cs s : List UInt8} {ss : List (List UInt8)}
    (hcs : splitSlashes cs = s :: ss) : splitSlashes (c :: cs) = (c :: s) :: ss := by
  rw [splitSlashes, if_neg h, hcs]

theorem not_mem_of_mem_splitSlashes {cs segment : List UInt8} (h : segment ∈ splitSlashes cs) :
    slash ∉ segment := by
  induction cs generalizing segment with
  | nil =>
    rw [splitSlashes, List.mem_singleton] at h
    simp [h]
  | cons c cs ih =>
    -- a slash is in no segment: it ends one
    by_cases hc : c = slash
    · rw [splitSlashes, if_pos hc] at h
      obtain rfl | h := List.mem_cons.1 h
      · simp
      · exact ih h
    · obtain ⟨s, ss, hcs⟩ := List.exists_cons_of_ne_nil (splitSlashes_ne_nil cs)
      rw [splitSlashes_cons_of_ne hc hcs] at h
      rw [hcs] at ih
      obtain rfl | h := List.mem_cons.1 h
      · -- the first segment gets one byte more, and that is no slash
        have hs : slash ∉ s := ih List.mem_cons_self
        simp [Ne.symm hc, hs]
      · exact ih (List.mem_cons_of_mem s h)

theorem splitSlashes_of_not_mem {segment : List UInt8} (h : slash ∉ segment) :
    splitSlashes segment = [segment] := by
  rw [splitSlashes_eq_splitOn, List.splitOn_eq_singleton h]

theorem splitSlashes_append (cs ds : List UInt8) :
    splitSlashes (cs ++ slash :: ds) = splitSlashes cs ++ splitSlashes ds := by
  rw [splitSlashes_eq_splitOn, splitSlashes_eq_splitOn, splitSlashes_eq_splitOn]
  exact List.splitOnP_append_cons cs ds rfl

theorem splitSlashes_append_slash {segment : List UInt8} (h : slash ∉ segment) (cs : List UInt8) :
    splitSlashes (segment ++ slash :: cs) = segment :: splitSlashes cs := by
  rw [splitSlashes_append, splitSlashes_of_not_mem h, List.singleton_append]

/-- What stands in front of the first slash is in front of the first segment. -/
theorem splitSlashes_append_of_not_mem {front : List UInt8} (h : slash ∉ front) {cs s : List UInt8}
    {ss : List (List UInt8)} (hcs : splitSlashes cs = s :: ss) :
    splitSlashes (front ++ cs) = (front ++ s) :: ss := by
  -- the bytes in front go to the first segment one by one
  induction front with
  | nil => exact hcs
  | cons c front ih =>
    rw [List.mem_cons, not_or] at h
    exact splitSlashes_cons_of_ne (Ne.symm h.1) (ih h.2)

/-- The segments of a text are texts: no character but the slash has the byte of one. -/
theorem exists_eq_utf8_of_mem_splitSlashes {cs : List Char} {segment : List UInt8}
    (h : segment ∈ splitSlashes (utf8 cs)) : ∃ ds, segment = utf8 ds := by
  induction cs generalizing segment with
  | nil => exact ⟨[], List.mem_singleton.1 h⟩
  | cons c cs ih =>
    rw [utf8_cons] at h
    by_cases hslash : slash ∈ String.utf8EncodeChar c
    · -- a character with this byte is the slash itself
      rw [utf8EncodeChar_eq_of_mem hslash (by decide), List.singleton_append, splitSlashes,
        if_pos rfl] at h
      obtain rfl | h := List.mem_cons.1 h
      · exact ⟨[], rfl⟩
      · exact ih h
    · -- the character is put in front of the first segment of the rest
      obtain ⟨s, ss, hcs⟩ := List.exists_cons_of_ne_nil (splitSlashes_ne_nil (utf8 cs))
      rw [splitSlashes_append_of_not_mem hslash hcs] at h
      rw [hcs] at ih
      obtain rfl | h := List.mem_cons.1 h
      · obtain ⟨ds, rfl⟩ := ih List.mem_cons_self
        exact ⟨c :: ds, (utf8_cons c ds).symm⟩
      · exact ih (List.mem_cons_of_mem s h)

/-- Segments joined by slashes are split again. -/
theorem splitSlashes_intercalate {segments : List (List UInt8)} (hne : segments ≠ [])
    (h : ∀ segment ∈ segments, slash ∉ segment) :
    splitSlashes ([slash].intercalate segments) = segments := by
  rw [splitSlashes_eq_splitOn, List.splitOn_intercalate slash h hne]

/-- Segments of a text are joined again. -/
theorem intercalate_splitSlashes (cs : List UInt8) : [slash].intercalate (splitSlashes cs) = cs := by
  rw [splitSlashes_eq_splitOn, List.intercalate_splitOn]

/-! ## Steps -/

/-- Whether the text of a component, as a segment, stands for it. -/
def Component.Spellable (c : Component) : Prop :=
  slash ∉ c.text.bytes ∧ stepOf? c.text.bytes = some c

theorem spellable_up : Component.up.Spellable :=
  ⟨by decide, by decide⟩

theorem spellable_of_stepOf? {segment : List UInt8} (hslash : slash ∉ segment) {c : Component}
    (h : stepOf? segment = some c) : c.Spellable := by
  have hstep := h
  unfold stepOf? at h
  split at h
  · -- no blank segment stands for a component
    cases h
  · split at h
    · -- a step up is spelled by its dots, and any other segment is a name
      cases h
      exact spellable_up
    · cases h
      simpa [Component.Spellable, Component.text, hslash] using hstep

/-- Whether a segment is the name of a file or a directory. -/
def IsName (s : OsString) : Prop :=
  s.bytes ≠ [] ∧ s.bytes ≠ [dot] ∧ s.bytes ≠ [dot, dot] ∧ slash ∉ s.bytes

instance (s : OsString) : Decidable (IsName s) :=
  inferInstanceAs (Decidable (s.bytes ≠ [] ∧ s.bytes ≠ [dot] ∧ s.bytes ≠ [dot, dot] ∧ slash ∉ s.bytes))

/-- What can be spelled as a segment of its own is a name. -/
theorem spellable_name_iff {s : OsString} : (Component.name s).Spellable ↔ IsName s := by
  unfold Component.Spellable IsName stepOf? isBlankSegment
  rw [Component.text]
  constructor
  · -- the three segments that are no names stand for other steps or for none
    rintro ⟨hslash, hstep⟩
    refine ⟨?_, ?_, ?_, hslash⟩ <;> intro hbytes <;> rw [hbytes] at hstep <;> cases hstep
  · rintro ⟨hempty, hdot, hup, hslash⟩
    simp [hempty, hdot, hup, hslash]

/-- A name is still one when it is shown. -/
theorem IsName.replaced {s : OsString} (h : IsName s) : IsName s.replaced := by
  obtain ⟨hempty, hdot, hup, hslash⟩ := h
  -- without a byte of a replacement character, nothing was replaced
  have hsame {bytes : List UInt8} (hbytes : s.replaced.bytes = bytes) (hnot : 0xEF ∉ bytes) :
      s.bytes = bytes := by
    rw [← hbytes] at hnot ⊢
    rw [OsString.replaced_eq_self_of_not_mem hnot]
  -- the three segments that are no names are ASCII, so they are shown only if they are there
  refine ⟨fun h => hempty (hsame h (by decide)), fun h => hdot (hsame h (by decide)),
    fun h => hup (hsame h (by decide)), fun hmem => ?_⟩
  obtain hmem | hmem := OsString.mem_of_mem_replaced hmem
  · exact absurd hmem (by decide)
  · exact hslash hmem

/-- What the segments of a path stand for, one after the other. -/
def steps (p : Path) : List Component :=
  p.segments.filterMap stepOf?

/-- The steps of a path can be spelled. -/
theorem spellable_of_mem_steps {p : Path} {c : Component} (h : c ∈ p.steps) : c.Spellable := by
  -- each step comes from a segment, in which no slash is
  obtain ⟨segment, hsegment, hstep⟩ := List.mem_filterMap.1 h
  exact spellable_of_stepOf? (not_mem_of_mem_splitSlashes hsegment) hstep

/-- The names on a path that is spelled by a text are texts. -/
theorem exists_string_of_mem_steps {p : Path} {t : String} (hp : p = ⟨t⟩) {s : OsString}
    (h : Component.name s ∈ p.steps) : ∃ u : String, s = u := by
  obtain ⟨segment, hsegment, hstep⟩ := List.mem_filterMap.1 h
  -- the name comes from a segment of a text
  rw [hp, segments, OsString.bytes_ofString] at hsegment
  obtain ⟨cs, rfl⟩ := exists_eq_utf8_of_mem_splitSlashes hsegment
  refine ⟨String.ofList cs, ?_⟩
  -- a name is the segment that it stands for
  unfold stepOf? at hstep
  split at hstep
  · cases hstep
  · split at hstep
    · cases hstep
    · rw [← Component.name.inj (Option.some.inj hstep)]
      ext1
      rw [OsString.bytes_ofString, String.toList_ofList]

theorem isStep_of_spellable {c : Component} (h : c.Spellable) : c.isStep := by
  cases c with
  | root => exact absurd h.2 (by decide)
  | here => exact absurd h.2 (by decide)
  | up => rfl
  | name s => rfl

theorem filter_isStep_of_spellable {cs : List Component} (h : ∀ c ∈ cs, c.Spellable) :
    cs.filter Component.isStep = cs :=
  List.filter_eq_self.2 fun c hc => isStep_of_spellable (h c hc)

theorem ne_root_of_spellable {c : Component} (h : c.Spellable) : c ≠ .root := by
  rintro rfl
  cases isStep_of_spellable h

theorem components_eq (p : Path) : p.components = (lead? p.segments).toList ++ p.steps := rfl

theorem components_of_isAbsolute {p : Path} (h : p.isAbsolute) :
    p.components = .root :: p.steps := by
  -- the lead says whether the path is absolute
  have hlead : lead? p.segments = some .root := by simpa [isAbsolute] using h
  rw [components_eq, hlead]
  rfl

/-- In front of a relative path stands a dot, or nothing. -/
theorem components_of_not_isAbsolute {p : Path} (h : ¬p.isAbsolute) :
    p.components = p.steps ∨ p.components = .here :: p.steps := by
  rw [components_eq]
  unfold isAbsolute at h
  unfold lead? at h ⊢
  split at h
  · -- the first segment is empty only in an absolute path
    exact absurd rfl h
  · exact .inr rfl
  · exact .inl rfl

/-- What leads to another place are the steps. -/
theorem filter_isStep_components (p : Path) : p.components.filter Component.isStep = p.steps := by
  have hsteps : p.steps.filter Component.isStep = p.steps :=
    filter_isStep_of_spellable fun c hc => spellable_of_mem_steps hc
  -- a root and a dot in front are no steps
  have hlead : (lead? p.segments).toList.filter Component.isStep = [] := by
    unfold lead?
    split <;> rfl
  rw [components_eq, List.filter_append, hlead, hsteps, List.nil_append]

theorem filterMap_stepOf?_texts {cs : List Component} (h : ∀ c ∈ cs, c.Spellable) :
    (cs.map (·.text.bytes)).filterMap stepOf? = cs := by
  induction cs with
  | nil => rfl
  | cons c cs ih =>
    rw [List.forall_mem_cons] at h
    -- each text is read as the component that it is the text of
    rw [List.map_cons, List.filterMap_cons, h.1.2, ih h.2]

theorem splitSlashes_texts {cs : List Component} (h : ∀ c ∈ cs, c.Spellable) (hne : cs ≠ []) :
    splitSlashes ([slash].intercalate (cs.map (·.text.bytes))) = cs.map (·.text.bytes) := by
  refine splitSlashes_intercalate (by simpa using hne) fun segment hsegment => ?_
  -- no text of a component holds a slash
  obtain ⟨c, hc, rfl⟩ := List.mem_map.1 hsegment
  exact (h c hc).1

/-- The segments of a text stand for the components it was joined from. -/
theorem filterMap_stepOf?_splitSlashes {cs : List Component} (h : ∀ c ∈ cs, c.Spellable) :
    (splitSlashes ([slash].intercalate (cs.map (·.text.bytes)))).filterMap stepOf? = cs := by
  by_cases hne : cs = []
  · -- no components have no text, and no text has no steps
    subst hne
    decide
  · rw [splitSlashes_texts h hne, filterMap_stepOf?_texts h]

@[simp] theorem bytes_slash : (OsString.ofString "/").bytes = [slash] := by
  decide

/-- The bytes of components with slashes in between. -/
theorem bytes_intercalate_texts (cs : List Component) :
    (OsString.intercalate "/" (cs.map Component.text)).bytes =
      [slash].intercalate (cs.map (·.text.bytes)) := by
  rw [OsString.intercalate, bytes_slash, List.map_map]
  rfl

/-! ## Absolute paths -/

theorem bytes_ofComponents (cs : List Component) :
    (ofComponents (.root :: cs)).spelling.bytes =
      slash :: [slash].intercalate (cs.map (·.text.bytes)) := by
  rw [ofComponents, OsString.bytes_append, bytes_slash, bytes_intercalate_texts, List.singleton_append]

theorem segments_ofComponents (cs : List Component) :
    (ofComponents (.root :: cs)).segments =
      [] :: splitSlashes ([slash].intercalate (cs.map (·.text.bytes))) := by
  rw [segments, bytes_ofComponents, splitSlashes, if_pos rfl]

theorem lead?_ofComponents (cs : List Component) :
    lead? (ofComponents (.root :: cs)).segments = some .root := by
  obtain ⟨s, ss, hsegments⟩ := List.exists_cons_of_ne_nil
    (splitSlashes_ne_nil ([slash].intercalate (cs.map (·.text.bytes))))
  -- the text starts with the slash of the root, and something is behind it, be it empty
  rw [segments_ofComponents, hsegments]
  rfl

theorem isAbsolute_ofComponents (cs : List Component) :
    (ofComponents (.root :: cs)).isAbsolute := by
  rw [isAbsolute, lead?_ofComponents]
  rfl

/-- An absolute path has the components it was made of. -/
theorem components_ofComponents {cs : List Component} (h : ∀ c ∈ cs, c.Spellable) :
    (ofComponents (.root :: cs)).components = .root :: cs := by
  rw [components_of_isAbsolute (isAbsolute_ofComponents cs), steps, segments_ofComponents,
    List.filterMap_cons]
  -- behind the root are the segments of the texts
  exact congrArg _ (filterMap_stepOf?_splitSlashes h)

theorem isBlankSegment_text {c : Component} (h : c.Spellable) :
    isBlankSegment c.text.bytes = false := by
  have hstep := h.2
  unfold stepOf? at hstep
  split at hstep
  · -- a blank segment stands for no component
    cases hstep
  · next hblank => simpa using hblank

theorem dropWhile_isBlankSegment {segments : List (List UInt8)}
    (h : ∀ segment ∈ segments, isBlankSegment segment = false) :
    segments.dropWhile isBlankSegment = segments := by
  cases segments with
  | nil => rfl
  | cons s ss => rw [List.dropWhile_cons_of_neg (by simp [h s List.mem_cons_self])]

theorem withLead_root (cs : List Component) :
    withLead (some .root) (cs.map (·.text.bytes)) = ofComponents (.root :: cs) := by
  rw [withLead, ← bytes_ofComponents]

/-- The parent of an absolute path has all its components but the last one. -/
theorem parent?_ofComponents {cs : List Component} {c : Component}
    (h : ∀ d ∈ cs ++ [c], d.Spellable) :
    (ofComponents (.root :: (cs ++ [c]))).parent? = some (ofComponents (.root :: cs)) := by
  have hlead := lead?_ofComponents (cs ++ [c])
  have hsegments := segments_ofComponents (cs ++ [c])
  rw [splitSlashes_texts h (by simp)] at hsegments
  rw [hsegments] at hlead
  have hblank : ∀ segment ∈ (cs.map (·.text.bytes)).reverse, isBlankSegment segment = false := by
    intro segment hsegment
    obtain ⟨d, hd, rfl⟩ := List.mem_map.1 (List.mem_reverse.1 hsegment)
    exact isBlankSegment_text (h d (List.mem_append_left [c] hd))
  -- the last segment is that of `c`, and the one before it is not blank either
  have hlast : ((cs ++ [c]).map (·.text.bytes)).reverse.dropWhile isBlankSegment =
      c.text.bytes :: (cs.map (·.text.bytes)).reverse := by
    have hc : isBlankSegment c.text.bytes = false := isBlankSegment_text (h c (by simp))
    simp [hc]
  -- the last name is dropped from the body, and the lead stays in front
  unfold parent?
  simp only [hsegments, hlead, Option.isSome_some, if_true,
    List.drop_succ_cons, List.drop_zero, hlast, dropWhile_isBlankSegment hblank,
    List.reverse_reverse, withLead_root]

end Preload.Path
