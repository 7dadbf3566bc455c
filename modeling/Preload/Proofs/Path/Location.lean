import Preload.Proofs.Path.Resolve

/-!
# Locations

The segments of a path, read one after the other, are orders to a stack of names: a name goes on
top, `..` takes the top one off, a dot and an empty segment do nothing. What is on the stack in the
end is the location of the path. A resolved path is the one spelling of its location, so all paths
that lead to one place are resolved to one path.

Main statements:
* `Path.absolutize_eq_ofNames_locate`: resolving a path is spelling its location;
* `Path.absolutize_eq_iff`: paths are resolved to one path just if they have one location;
* `Path.Detour.locate_eq`: a detour that leads nowhere keeps the location.
-/

namespace Preload.Path

/-! ## The stack of names -/

/-- What a segment does to the names of a location. -/
def visit (names : List OsString) (segment : List UInt8) : List OsString :=
  if segment = [] ∨ segment = [dot] then names
  else if segment = [dot, dot] then names.dropLast
  else names ++ [⟨segment⟩]

/-- The names of the location that a path denotes. A relative path starts in `cwd`. -/
def locate (cwd p : Path) : List OsString :=
  p.segments.foldl visit (if p.isAbsolute then [] else cwd.segments.foldl visit [])

theorem visit_nil (names : List OsString) : visit names [] = names :=
  if_pos (.inl rfl)

theorem visit_dot (names : List OsString) : visit names [dot] = names :=
  if_pos (.inr rfl)

theorem visit_up (names : List OsString) : visit names [dot, dot] = names.dropLast :=
  rfl

theorem visit_name {s : OsString} (h : IsName s) (names : List OsString) :
    visit names s.bytes = names ++ [s] := by
  -- a name is none of the three segments with a meaning of their own
  obtain ⟨hempty, hdot, hup, -⟩ := h
  rw [visit, if_neg (not_or.2 ⟨hempty, hdot⟩), if_neg hup]

/-- A walk along the steps of some segments visits the segments. -/
theorem follow_filterMap_stepOf? (names : List OsString) (segments : List (List UInt8)) :
    follow names (segments.filterMap stepOf?) = segments.foldl visit names := by
  induction segments generalizing names with
  | nil => rfl
  | cons s ss ih =>
    rw [List.filterMap_cons, List.foldl_cons, ← ih]
    unfold stepOf? visit isBlankSegment
    -- three cases on both sides: nothing, one directory up, or one more name
    by_cases hblank : s = [] ∨ s = [dot]
    · simp [hblank]
    · rw [if_neg hblank, if_neg (by simpa using hblank)]
      by_cases hup : s = [dot, dot]
      · rw [if_pos hup, if_pos hup]
        rfl
      · rw [if_neg hup, if_neg hup]
        rfl

theorem follow_steps (names : List OsString) (p : Path) :
    follow names p.steps = p.segments.foldl visit names :=
  follow_filterMap_stepOf? names p.segments

/-! ## Resolved paths -/

/-- Resolving a path is spelling its location. -/
theorem absolutize_eq_ofNames_locate {cwd : Path} (hcwd : cwd.isAbsolute) (p : Path) :
    p.absolutize cwd = ofNames (locate cwd p) := by
  -- a walk along steps and a visit of segments lead to the same names
  rw [absolutize_eq hcwd, locate, ← follow_steps [] cwd, ← follow_steps]

theorem areNames_locate (cwd p : Path) : AreNames (locate cwd p) := by
  rw [locate, ← follow_steps [] cwd, ← follow_steps]
  -- each name was entered at some step, and steps are spelled by segments
  refine AreNames.follow ?_ fun c hc => spellable_of_mem_steps hc
  split
  · exact areNames_nil
  · exact areNames_nil.follow fun c hc => spellable_of_mem_steps hc

theorem isName_of_mem_locate {cwd p : Path} {s : OsString} (h : s ∈ locate cwd p) : IsName s :=
  spellable_name_iff.1 (areNames_locate cwd p s h)

/-- Names are spelled with a slash in front of each. Only the root is spelled with one behind. -/
theorem spelling_ofNames (names : List OsString) :
    (ofNames names).spelling = "/" ++ OsString.intercalate "/" names := by
  -- the text of a name is the name
  have htexts : (names.map Component.name).map Component.text = names := by
    rw [List.map_map]
    exact List.map_id names
  rw [ofNames, ofComponents, htexts]

/-- The segments of a resolved path are its names, behind the slash of the root. -/
theorem segments_ofNames {names : List OsString} (h : AreNames names) (hne : names ≠ []) :
    (ofNames names).segments = [] :: names.map OsString.bytes := by
  -- no name holds a slash, so splitting finds each of them again
  rw [ofNames, segments_ofComponents, splitSlashes_texts h.spellable (by simpa using hne), List.map_map]
  rfl

/-- What is found below a resolved path has the names of that path in front. -/
theorem eq_append_of_components {names root below : List OsString} (hnames : AreNames names)
    (hroot : AreNames root)
    (h : (ofNames names).components = (ofNames root).components ++ below.map .name) :
    names = root ++ below := by
  -- the slash is in front of both, and behind it are the names
  rw [components_ofNames hnames, components_ofNames hroot, List.cons_append, List.cons_inj_right,
    ← List.map_append] at h
  exact List.map_injective_iff.2 (fun _ _ => Component.name.inj) h

/-- There is one resolved path for each location. -/
theorem ofNames_injective {names others : List OsString} (hnames : AreNames names)
    (hothers : AreNames others) (h : (ofNames names).components = (ofNames others).components) :
    names = others := by
  have hbelow : (ofNames names).components =
      (ofNames others).components ++ ([] : List OsString).map .name := by
    rw [h, List.map_nil, List.append_nil]
  rw [eq_append_of_components hnames hothers hbelow, List.append_nil]

/-- A resolved path has the location that it spells. -/
theorem locate_ofNames {names : List OsString} (h : AreNames names) (cwd : Path) :
    locate cwd (ofNames names) = names := by
  -- the steps of the path are its names, since the root is no step
  have hsteps : (ofNames names).steps = names.map .name := by
    have hcomponents := components_ofNames h
    rw [components_of_isAbsolute (isAbsolute_ofNames names), List.cons_inj_right] at hcomponents
    exact hcomponents
  rw [locate, if_pos (isAbsolute_ofNames names), ← follow_steps, hsteps, follow_names,
    List.nil_append]

/-- What is resolved already stays as it is. -/
theorem absolutize_absolutize {cwd : Path} (hcwd : cwd.isAbsolute) (p other : Path) :
    (p.absolutize cwd).absolutize other = p.absolutize cwd := by
  -- resolving again walks along names only, which changes nothing
  have hnames := areNames_locate cwd p
  have hroot : ∀ c ∈ (locate cwd p).map Component.name, c ≠ .root :=
    fun c hc => ne_root_of_spellable (hnames.spellable c hc)
  rw [absolutize_eq_ofNames_locate hcwd, absolutize, if_pos (isAbsolute_ofNames _),
    components_ofNames hnames, clean_root hroot, follow_names, List.nil_append]

/-- Two paths are resolved to one path just if they have one location. -/
theorem absolutize_eq_iff {cwd : Path} (hcwd : cwd.isAbsolute) (p q : Path) :
    p.absolutize cwd = q.absolutize cwd ↔ locate cwd p = locate cwd q := by
  -- resolved paths are spelled from their locations alone
  rw [absolutize_eq_ofNames_locate hcwd, absolutize_eq_ofNames_locate hcwd]
  refine ⟨fun h => ?_, congrArg ofNames⟩
  exact ofNames_injective (areNames_locate cwd p) (areNames_locate cwd q) (congrArg components h)

/-! ## Slashes within paths -/

theorem segments_append_slash (a b : OsString) :
    segments ⟨a ++ "/" ++ b⟩ = segments ⟨a⟩ ++ segments ⟨b⟩ := by
  -- a slash is one byte, so the two texts split apart at it
  have hbytes : (a ++ "/" ++ b).bytes = a.bytes ++ slash :: b.bytes := by
    simp
  rw [segments, hbytes, splitSlashes_append]
  rfl

theorem segments_of_isName {s : OsString} (h : IsName s) : segments ⟨s⟩ = [s.bytes] :=
  splitSlashes_of_not_mem h.2.2.2

/-- A path is absolute if its text starts with a slash. -/
theorem isAbsolute_iff {p : Path} : p.isAbsolute = true ↔ p.spelling.bytes.head? = some slash := by
  unfold isAbsolute segments
  cases p.spelling.bytes with
  | nil => decide
  | cons c cs =>
    -- the first segment ends at the first slash: in front of it there is nothing, or a byte
    obtain ⟨s, ss, hcs⟩ := List.exists_cons_of_ne_nil (splitSlashes_ne_nil cs)
    by_cases hc : c = slash
    · rw [splitSlashes, if_pos hc, hcs, hc]
      simp [lead?]
    · rw [splitSlashes_cons_of_ne hc hcs]
      -- a first segment with a byte in it is no root
      have hlead : lead? ((c :: s) :: ss) ≠ some .root := by
        unfold lead?
        split <;> simp_all
      simpa [hc] using hlead

/-- What stands behind a slash does not make a path absolute. -/
theorem isAbsolute_append_slash (a b c : OsString) :
    isAbsolute ⟨a ++ "/" ++ b⟩ = isAbsolute ⟨a ++ "/" ++ c⟩ := by
  rw [Bool.eq_iff_iff, isAbsolute_iff, isAbsolute_iff]
  -- if the first text is empty, the slash itself is in front
  cases ha : a.bytes with
  | nil => simp [ha]
  | cons d ds => simp [ha]

/-! ## Below a resolved path -/

/-- The path without the slashes that it starts with. -/
def withoutRoot (p : Path) : Path :=
  ⟨⟨p.spelling.bytes.dropWhile (· = slash)⟩⟩

/-- Slashes in front stand for no step. -/
theorem steps_withoutRoot (p : Path) : p.withoutRoot.steps = p.steps := by
  -- each slash in front gives one more segment, and an empty one
  have hsteps (cs : List UInt8) : (splitSlashes (cs.dropWhile (· = slash))).filterMap stepOf? =
      (splitSlashes cs).filterMap stepOf? := by
    induction cs with
    | nil => rfl
    | cons c cs ih =>
      by_cases hc : c = slash
      · rw [List.dropWhile_cons_of_pos (by simpa using hc), ih, splitSlashes, if_pos hc]
        rfl
      · rw [List.dropWhile_cons_of_neg (by simpa using hc)]
  rw [steps, segments, withoutRoot, hsteps]
  rfl

/-- What stands behind a resolved path goes on from its location. -/
theorem locate_below {names : List OsString} (h : AreNames names) (cwd p : Path) :
    locate cwd ⟨(ofNames names).spelling ++ "/" ++ p.withoutRoot.spelling⟩ = follow names p.steps := by
  -- the text opens with the slash of the root, so the walk starts there
  have habsolute : isAbsolute ⟨(ofNames names).spelling ++ "/" ++ p.withoutRoot.spelling⟩ = true := by
    rw [isAbsolute_iff, spelling_ofNames]
    simp
  -- up to the slash in between the walk leads to the names
  have hnames : (ofNames names).segments.foldl visit [] = names := by
    have hlocate := locate_ofNames h cwd
    rwa [locate, if_pos (isAbsolute_ofNames names)] at hlocate
  rw [locate, if_pos habsolute, segments_append_slash, List.foldl_append]
  show p.withoutRoot.segments.foldl visit ((ofNames names).segments.foldl visit []) = _
  rw [hnames, ← follow_steps, steps_withoutRoot]

/-! ## Detours -/

/-- The second path is the first one with a detour at one of its slashes that leads nowhere. -/
inductive Detour : Path → Path → Prop
  | slash (a b : OsString) : Detour ⟨a ++ "/" ++ b⟩ ⟨a ++ "//" ++ b⟩
  | dot (a b : OsString) : Detour ⟨a ++ "/" ++ b⟩ ⟨a ++ "/./" ++ b⟩
  | name (a b : OsString) {x : OsString} (h : IsName x) :
    Detour ⟨a ++ "/" ++ b⟩ ⟨a ++ "/" ++ x ++ "/../" ++ b⟩

/-- Segments behind a slash that do nothing keep the location. -/
theorem locate_append_slash {a b more : OsString} (cwd : Path)
    (h : ∀ names, (segments ⟨more⟩).foldl visit names = (segments ⟨b⟩).foldl visit names) :
    locate cwd ⟨a ++ "/" ++ more⟩ = locate cwd ⟨a ++ "/" ++ b⟩ := by
  -- up to the slash the walks agree; behind it the segments do the same
  rw [locate, locate, isAbsolute_append_slash a more b, segments_append_slash, segments_append_slash,
    List.foldl_append, List.foldl_append, h]

/-- A detour that leads nowhere keeps the location. -/
theorem Detour.locate_eq {p q : Path} (h : Detour p q) (cwd : Path) : locate cwd q = locate cwd p := by
  cases h with
  | slash a b =>
    -- an empty segment is visited in between
    have hslashes : (OsString.ofString "//").bytes = [Path.slash, Path.slash] := by decide
    have hempty : (OsString.ofString "").bytes = [] := rfl
    have htext : a ++ "//" ++ b = a ++ "/" ++ ("" ++ "/" ++ b) := by
      ext1
      simp [hslashes, hempty]
    rw [htext]
    refine locate_append_slash cwd fun names => ?_
    rw [segments_append_slash, List.foldl_append]
    show (segments ⟨b⟩).foldl visit (visit names []) = _
    rw [visit_nil]
  | dot a b =>
    -- a dot is visited in between
    have hdotted : (OsString.ofString "/./").bytes = [Path.slash, Path.dot, Path.slash] := by decide
    have hdot : (OsString.ofString ".").bytes = [Path.dot] := by decide
    have htext : a ++ "/./" ++ b = a ++ "/" ++ ("." ++ "/" ++ b) := by
      ext1
      simp [hdotted, hdot]
    rw [htext]
    refine locate_append_slash cwd fun names => ?_
    rw [segments_append_slash, List.foldl_append]
    show (segments ⟨b⟩).foldl visit (visit names [Path.dot]) = _
    rw [visit_dot]
  | @name a b x hx =>
    have hback : (OsString.ofString "/../").bytes = [Path.slash, Path.dot, Path.dot, Path.slash] := by
      decide
    have hup : (OsString.ofString "..").bytes = [Path.dot, Path.dot] := by decide
    have htext : a ++ "/" ++ x ++ "/../" ++ b = a ++ "/" ++ (x ++ "/" ++ (".." ++ "/" ++ b)) := by
      ext1
      simp [hback, hup]
    rw [htext]
    refine locate_append_slash cwd fun names => ?_
    -- the name is entered and left again
    rw [segments_append_slash, segments_append_slash, segments_of_isName hx, List.foldl_append,
      List.foldl_append]
    show (segments ⟨b⟩).foldl visit (visit (visit names x.bytes) [Path.dot, Path.dot]) = _
    rw [visit_name hx, visit_up, List.dropLast_concat]

end Preload.Path
