import Preload.Proofs.Path.Location
import Preload.Proofs.Path.Relative

/-!
# Specifiers between clean paths

A clean path is spelled with names only. The specifier of one clean path for another leaves the
names that they do not share and enters those of the target as they are shown. So it says no more
than it has to, and joining it to the first path gives the second one unless a name that it enters
is not UTF-8.

Main statements:
* `Path.IsClean.eq_ofNames`: a clean path is the one spelling of its names;
* `Path.isClean_absolutize`: resolved paths are clean;
* `Path.specifierOf_wayBetween`: the text of the way between two directories;
* `Path.moduleSpecifier?_of_isClean`: the specifier between clean paths, and where it leads.
-/

namespace Preload.Path

/-! ## Clean paths -/

/-- Whether a path is absolute and no segment behind its first slash is empty, a dot or two dots.
The root has no segment there. -/
def IsClean (p : Path) : Prop :=
  p.isAbsolute ∧
    (p.spelling = "/" ∨ ∀ segment ∈ p.segments.tail, segment ∉ [[], [dot], [dot, dot]])

instance (p : Path) : Decidable p.IsClean :=
  inferInstanceAs (Decidable (_ ∧ (_ ∨ _)))

/-- The segments of a path that are not empty. -/
def names (p : Path) : List OsString :=
  (p.segments.filter (· ≠ [])).map OsString.mk

theorem areNames_of_segments {segments : List (List UInt8)} (hslash : ∀ s ∈ segments, slash ∉ s)
    (h : ∀ s ∈ segments, s ∉ [[], [dot], [dot, dot]]) : AreNames (segments.map OsString.mk) := by
  intro s hs
  obtain ⟨segment, hsegment, rfl⟩ := List.mem_map.1 hs
  -- the three segments that are no names are left out, and a slash is in none
  have hne := h segment hsegment
  simp only [List.mem_cons, List.not_mem_nil, or_false, not_or] at hne
  exact spellable_name_iff.2 ⟨hne.1, hne.2.1, hne.2.2, hslash segment hsegment⟩

/-- A text that opens with a slash is the path of what stands between its slashes. -/
theorem eq_ofNames_of_spelling {p : Path} {bs : List UInt8} (hbs : p.spelling.bytes = slash :: bs) :
    p = ofNames ((splitSlashes bs).map OsString.mk) := by
  have htexts : (((splitSlashes bs).map OsString.mk).map Component.name).map (·.text.bytes) =
      splitSlashes bs := by
    -- splitting at slashes is undone by joining with slashes
    simp [Component.text, Function.comp_def]
  rw [ofNames, ← withLead_root, htexts, withLead, intercalate_splitSlashes, ← hbs]

/-- A clean path is the one spelling of its names. -/
theorem IsClean.eq_ofNames {p : Path} (h : p.IsClean) : AreNames p.names ∧ p = ofNames p.names := by
  obtain ⟨habsolute, hsegments⟩ := h
  obtain ⟨cs, hcs⟩ := List.head?_eq_some_iff.1 (isAbsolute_iff.1 habsolute)
  have hsplit : p.segments = [] :: splitSlashes cs := by
    rw [segments, hcs, splitSlashes, if_pos rfl]
  obtain hroot | htail := hsegments
  · -- the one empty segment behind the slash of the root is no name
    obtain rfl : p = ⟨"/"⟩ := by
      cases p
      exact congrArg mk hroot
    exact ⟨areNames_nil, rfl⟩
  · rw [hsplit, List.tail_cons] at htail
    have hnames : p.names = (splitSlashes cs).map OsString.mk := by
      -- no segment but the first one is empty, so all others are names
      rw [names, hsplit, List.filter_cons_of_neg (by simp), List.filter_eq_self.2]
      intro segment hsegment
      have hne := htail segment hsegment
      simp only [List.mem_cons, not_or] at hne
      simpa using hne.1
    rw [hnames]
    constructor
    · exact areNames_of_segments (fun s hs => not_mem_of_mem_splitSlashes hs) htail
    · exact eq_ofNames_of_spelling hcs

/-- The path of some names is clean. -/
theorem isClean_ofNames {names : List OsString} (h : AreNames names) : (ofNames names).IsClean := by
  refine ⟨isAbsolute_ofNames names, ?_⟩
  by_cases hne : names = []
  · -- without names it is the root, which is clean by definition
    left
    rw [hne]
    rfl
  · right
    intro segment hsegment
    -- otherwise the segments behind the root are the names
    rw [segments_ofNames h hne, List.tail_cons] at hsegment
    obtain ⟨s, hs, rfl⟩ := List.mem_map.1 hsegment
    obtain ⟨hempty, hdot, hup, -⟩ := spellable_name_iff.1 (h s hs)
    simp only [List.mem_cons, List.not_mem_nil, or_false, not_or]
    exact ⟨hempty, hdot, hup⟩

/-- What is resolved is clean. -/
theorem isClean_absolutize {cwd : Path} (hcwd : cwd.isAbsolute) (p : Path) :
    (p.absolutize cwd).IsClean := by
  rw [absolutize_eq_ofNames_locate hcwd]
  exact isClean_ofNames (areNames_locate cwd p)

/-! ## Specifiers -/

/-- The text of a way names what it leaves, and what it enters as it is shown. -/
theorem specifierOf_wayBetween (base : List OsString) {target : List OsString}
    (htarget : AreNames target) :
    let ups := base.length - (sharedFront base target).length
    specifierOf (wayBetween base target) =
      (if ups = 0 then "./" else "") ++
        String.intercalate "/" (List.replicate ups ".." ++ (namesAhead base target).map OsString.lossy) := by
  intro ups
  -- the way is made of steps up and names, all of which a segment can spell
  have hspellable : ∀ c ∈ wayBetween base target, c.Spellable :=
    fun c hc => spellable_of_mem_wayBetween htarget hc
  have hway : wayBetween base target = List.replicate ups .up ++ (namesAhead base target).map .name := rfl
  have htexts : (wayBetween base target).map (·.text.lossy) =
      List.replicate ups ".." ++ (namesAhead base target).map OsString.lossy := by
    have hup : (Component.up.text).lossy = ".." := OsString.lossy_ofString ".."
    rw [hway, List.map_append, List.map_replicate, List.map_map, hup]
    rfl
  -- the first text is two dots only if the way starts with a step up, since no name is `..`
  have hhead : ((wayBetween base target).map (·.text.lossy)).head? = some ".." ↔ ups ≠ 0 := by
    rw [head?_map_lossy_eq_dots_iff hspellable, hway]
    cases ups with
    | zero => cases namesAhead base target <;> simp
    | succ n => simp [List.replicate_succ]
  rw [htexts] at hhead
  rw [specifierOf, filter_isStep_of_spellable hspellable, htexts]
  by_cases hups : ups = 0
  · -- a way that starts with a name gets a dot in front
    rw [if_neg (fun hup => hhead.1 hup hups), if_pos hups]
  · -- a way that leads up is relative as it is
    rw [if_pos (hhead.2 hups), if_neg hups, String.empty_append]

/-- Between clean paths there is a specifier. It leaves what the first path does not share with the
second one, and enters the rest of the second one as it is shown. Joined to the first path it gives
the second one just if all names that it enters are UTF-8. -/
theorem moduleSpecifier?_of_isClean {base target : Path} (hbase : base.IsClean)
    (htarget : target.IsClean) :
    let shared := sharedFront base.names target.names
    let ups := base.names.length - shared.length
    let ahead := target.names.drop shared.length
    let specifier := (if ups = 0 then "./" else "") ++
      String.intercalate "/" (List.replicate ups ".." ++ ahead.map OsString.lossy)
    (∀ front, front <+: shared ↔ front <+: base.names ∧ front <+: target.names) ∧
      moduleSpecifier? base target = some specifier ∧
      (base.joinUnder ⟨specifier⟩ = target ↔ ∀ s ∈ ahead, ∃ t : String, s = t) ∧
      ((segments ⟨specifier⟩).head? = some [dot] ∨
        (segments ⟨specifier⟩).head? = some [dot, dot]) := by
  intro shared ups ahead specifier
  -- both paths are walks of names, so what is known of such walks applies
  obtain ⟨hbaseNames, hbase⟩ := hbase.eq_ofNames
  obtain ⟨htargetNames, htarget⟩ := htarget.eq_ofNames
  have hspecifier : specifierOf (wayBetween base.names target.names) = specifier :=
    specifierOf_wayBetween base.names htargetNames
  refine ⟨prefix_sharedFront_iff base.names target.names, ?_, ?_, ?_⟩
  · have hfound := moduleSpecifier?_ofNames hbaseNames htargetNames
    rwa [← hbase, ← htarget, hspecifier] at hfound
  · -- what it leads to is the target as it is shown
    have hjoin : base.joinUnder ⟨specifier⟩ = ofNames (shownFrom base.names target.names) := by
      have hway := @joinUnder_specifierOf_wayBetween [] base.names target.names hbaseNames htargetNames
      rwa [List.nil_append, List.nil_append, ← hbase, hspecifier] at hway
    have hshown : shownFrom base.names target.names = target.names ↔ ∀ s ∈ ahead, ∃ t : String, s = t :=
      shownFrom_eq_self_iff
    rw [hjoin, ← hshown]
    constructor
    · intro h
      -- paths of the same names are the same, and only they are
      exact ofNames_injective (areNames_shownFrom htargetNames) htargetNames
        (congrArg components (h.trans htarget))
    · intro h
      rw [h, ← htarget]
  · rw [← hspecifier, segments_specifierOf fun c hc => spellable_of_mem_wayBetween htargetNames hc]
    -- the first step leads up, or there is a dot in front of it
    split
    · next hup =>
      rw [List.head?_map, List.head?_map, hup]
      exact .inr rfl
    · exact .inl rfl

/-- Names that open with dots are no steps up or in place. -/
theorem moduleSpecifier?_of_dotted_names :
    let base : Path := ⟨"/app/src/..a"⟩
    let target : Path := ⟨"/app/.b/x"⟩
    base.IsClean ∧ target.IsClean ∧ moduleSpecifier? base target = some "../../.b/x" ∧
      base.joinUnder ⟨"../../.b/x"⟩ = target := by
  intro base target
  have hbase : base.IsClean := by decide +kernel
  have htarget : target.IsClean := by decide +kernel
  have hspecifier : moduleSpecifier? base target = some "../../.b/x" := by decide +kernel
  have hahead : target.names.drop (sharedFront base.names target.names).length =
      [(".b" : OsString), "x"] := by decide +kernel
  obtain ⟨-, hfound, hjoin, -⟩ := moduleSpecifier?_of_isClean hbase htarget
  rw [hspecifier] at hfound
  rw [← Option.some.inj hfound, hahead] at hjoin
  refine ⟨hbase, htarget, hspecifier, hjoin.2 fun s hs => ?_⟩
  -- both names that the way enters are texts
  obtain rfl | rfl : s = (".b" : String) ∨ s = ("x" : String) := by simpa using hs
  · exact ⟨".b", rfl⟩
  · exact ⟨"x", rfl⟩

/-- A name that is not UTF-8 is shown with a replacement character, and the specifier leads to the
file that has this name. -/
theorem joinUnder_moduleSpecifier?_of_broken_name :
    let base : Path := ⟨"/a"⟩
    let target : Path := ⟨"/a/" ++ ⟨[0xFF]⟩ ++ ".js"⟩
    base.IsClean ∧ target.IsClean ∧ moduleSpecifier? base target = some "./\uFFFD.js" ∧
      base.joinUnder ⟨"./\uFFFD.js"⟩ = ⟨"/a/\uFFFD.js"⟩ ∧ base.joinUnder ⟨"./\uFFFD.js"⟩ ≠ target := by
  -- the whole is evaluated: one name, one byte, and what it is shown as
  refine ⟨?_, ?_, ?_, ?_, ?_⟩ <;> decide +kernel

end Preload.Path
