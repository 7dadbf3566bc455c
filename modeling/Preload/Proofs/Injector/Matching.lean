import Preload.Proofs.Injector.Reference
import Preload.Proofs.Path.Location

/-!
# Matching entries by location

A file is an entry by its location alone. The host may spell it as it likes: with slashes twice,
dots, or ways into a directory and out again. No spelling makes an entry miss its injection.

Main statements:
* `Injector.isEntry_iff`: a file is an entry if it has the location of one;
* `Injector.placement_congr` and `Injector.transformInPlace_congr`: all else follows from the
  location as well;
* `Injector.isEntry_by_location`: resolved paths, entries and detours together.
-/

namespace Preload.Injector

open Preload.Path

variable {i : Injector} {file other : Path}

/-! ## Entries -/

theorem layout_entries (i : Injector) :
    i.layout.entries = i.options.entries.map i.layout.srcRoot.joinUnder := by
  simp only [layout, Layout.ofOptions]

/-- The entries are looked for by their components. -/
theorem isEntry_iff_components :
    i.isEntry file = true ↔ ∃ e ∈ i.options.entries,
      (i.layout.srcRoot.joinUnder e).components = (file.absolutize i.cwd).components := by
  -- entries are kept as they were resolved, and paths are compared by their components
  rw [isEntry, Layout.isEntry, Layout.hasEntry, layout_cwd, layout_entries]
  simp

/-- A file is an entry if its location is that of an entry below the source tree. -/
theorem isEntry_iff (hcwd : i.cwd.isAbsolute) :
    i.isEntry file = true ↔ ∃ e ∈ i.options.entries, locate i.cwd file =
      locate i.cwd ⟨i.layout.srcRoot.spelling ++ "/" ++ e.withoutRoot.spelling⟩ := by
  obtain ⟨src, hsrc, hsrcRoot⟩ := exists_absolutize_eq_ofNames hcwd i.options.src
  rw [isEntry_iff_components]
  refine exists_congr fun e => and_congr_right fun _ => ?_
  -- below the source tree the entry is found by its steps, and slashes in front of it are none
  have hentry : AreNames (follow src e.steps) := hsrc.follow fun c hc => spellable_of_mem_steps hc
  rw [layout_srcRoot, hsrcRoot, locate_below hsrc, joinUnder_ofNames hsrc,
    absolutize_eq_ofNames_locate hcwd]
  constructor
  · intro h
    -- the resolved paths have one list of components, and each name is one of them
    exact (ofNames_injective hentry (areNames_locate _ _) h).symm
  · intro h
    rw [h]

/-! ## What follows from the location -/

theorem isEntry_congr (h : file.absolutize i.cwd = other.absolutize i.cwd) :
    i.isEntry file = i.isEntry other := by
  rw [isEntry, isEntry, Layout.isEntry, Layout.isEntry, layout_cwd, h]

theorem placement_congr (h : file.absolutize i.cwd = other.absolutize i.cwd) :
    i.placement file = i.placement other := by
  unfold placement
  simp only [layout_cwd, h]

theorem transformInPlace_congr (h : file.absolutize i.cwd = other.absolutize i.cwd) (program : Program)
    (r : Run) : i.transformInPlace program file r = i.transformInPlace program other r := by
  have hprepare : i.prepare file r = i.prepare other r := by
    unfold prepare
    rw [placement_congr h]
  unfold transformInPlace transformWith
  rw [hprepare]

/-- In an absolute working directory, a path is resolved to the one spelling of its location: a
slash in front of each of its names, and nothing else. So paths are resolved to one path just if
they have one location. A file is an entry if it has the location of one, and a detour that leads
nowhere does not show in anything that becomes of the file. -/
theorem isEntry_by_location {cwd : Path} (hcwd : cwd.isAbsolute) (options : Options) :
    let i : Injector := ⟨options, cwd⟩
    (∀ p : Path,
      let resolved := p.absolutize cwd
      let names := locate cwd p
      resolved.isAbsolute = true ∧ resolved.spelling = "/" ++ OsString.intercalate "/" names ∧
        (∀ s ∈ names, IsName s) ∧
        (names ≠ [] → resolved.segments = [] :: names.map OsString.bytes) ∧
        resolved.absolutize cwd = resolved) ∧
      (∀ p q : Path, p.absolutize cwd = q.absolutize cwd ↔ locate cwd p = locate cwd q) ∧
      (∀ file, i.isEntry file = true ↔ ∃ e ∈ options.entries, locate cwd file =
        locate cwd ⟨i.layout.srcRoot.spelling ++ "/" ++ e.withoutRoot.spelling⟩) ∧
      ∀ file other, Detour file other → i.isEntry other = i.isEntry file ∧
        i.placement other = i.placement file ∧
        ∀ program r, i.transformInPlace program other r = i.transformInPlace program file r := by
  intro i
  refine ⟨?_, absolutize_eq_iff hcwd, fun file => isEntry_iff hcwd, ?_⟩
  · intro p resolved names
    have hnames : AreNames names := areNames_locate cwd p
    -- all that is said of the resolved path holds because it is spelled by its names
    have hresolved : resolved = ofNames names := absolutize_eq_ofNames_locate hcwd p
    refine ⟨?_, ?_, ?_, ?_, absolutize_absolutize hcwd p cwd⟩
    · rw [hresolved]
      exact isAbsolute_ofNames names
    · rw [hresolved]
      exact spelling_ofNames names
    · intro s hs
      exact isName_of_mem_locate hs
    · intro hne
      rw [hresolved]
      exact segments_ofNames hnames hne
  · -- both are resolved to one path, and nothing else is asked of them
    intro file other hdetour
    have hsame : other.absolutize cwd = file.absolutize cwd :=
      (absolutize_eq_iff hcwd other file).2 (hdetour.locate_eq cwd)
    exact ⟨isEntry_congr (i := i) hsame, placement_congr (i := i) hsame,
      transformInPlace_congr (i := i) hsame⟩

/-- An entry that is configured with slashes in front is found over a detour. -/
theorem isEntry_by_location_of_detour :
    let options : Options := { Options.default with entries := [⟨"//lib/run.js"⟩] }
    let i : Injector := ⟨options, ⟨"/app/web/.."⟩⟩
    let file : Path := ⟨"src/lib/run.js"⟩
    let other : Path := ⟨"src/cli/../lib/run.js"⟩
    Path.isAbsolute ⟨"/app/web/.."⟩ = true ∧ i.isEntry file = true ∧ Detour file other ∧
      i.isEntry other = i.isEntry file ∧ i.placement other = i.placement file ∧
      ∀ program r, i.transformInPlace program other r = i.transformInPlace program file r := by
  intro options i file other
  have hcwd : Path.isAbsolute ⟨"/app/web/.."⟩ = true := by decide
  -- the second file leads into another directory and out again
  have hfile : file = ⟨"src" ++ "/" ++ "lib/run.js"⟩ := by decide +kernel
  have hother : other = ⟨"src" ++ "/" ++ "cli" ++ "/../" ++ "lib/run.js"⟩ := by decide +kernel
  have hdetour : Detour file other := by
    rw [hfile, hother]
    exact .name "src" "lib/run.js" (by decide)
  obtain ⟨-, -, hmatching, hdetours⟩ := isEntry_by_location hcwd options
  refine ⟨hcwd, (hmatching file).2 ⟨⟨"//lib/run.js"⟩, by simp [options], by decide +kernel⟩, hdetour,
    hdetours file other hdetour⟩

end Preload.Injector
