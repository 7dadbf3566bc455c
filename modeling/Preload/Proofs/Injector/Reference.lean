import Preload.Proofs.Injector.Transform
import Preload.Proofs.Path.Location
import Preload.Proofs.Path.Relative
import Preload.Proofs.Run.Ledger

/-!
# Where the injected reference leads

The specifier for an entry is computed in the source tree, from the directory of the entry to the
place that the support module would have there. It is used in the output tree, where the compiled
entry and the module stand at the same places below another root. Since the way between them leaves
neither tree, it leads to the module there as well, unless it enters a name that is not UTF-8: such
a name is shown with a replacement character.

Main statements:
* `Injector.exists_placement_of_isAbsolute`: in an absolute working directory every entry has a
  placement;
* `Injector.specifier_reaches_support_module`: when its specifier leads to the file that is written;
* `Injector.specifier_misses_support_module_of_broken_name`: a place of the module that no specifier
  shows.
-/

namespace Preload

namespace Injector

open Preload.Path

/-! ## The layout -/

theorem layout_cwd (i : Injector) : i.layout.cwd = i.cwd := by
  simp only [layout, Layout.ofOptions]

theorem layout_srcRoot (i : Injector) : i.layout.srcRoot = i.options.src.absolutize i.cwd := by
  simp only [layout, Layout.ofOptions]

theorem layout_destRoot (i : Injector) : i.layout.destRoot = i.options.dest.absolutize i.cwd := by
  simp only [layout, Layout.ofOptions]

theorem layout_supportSourcePath (i : Injector) :
    i.layout.supportSourcePath = i.layout.srcRoot.joinUnder i.options.supportModulePath := by
  simp only [layout, Layout.ofOptions]

theorem layout_supportDestPath (i : Injector) :
    i.layout.supportDestPath = i.layout.destRoot.joinUnder i.options.supportModulePath := by
  simp only [layout, Layout.ofOptions]

/-- The names of the support module below either tree. -/
def moduleNames (i : Injector) : List OsString :=
  follow [] i.options.supportModulePath.steps

theorem areNames_moduleNames (i : Injector) : AreNames i.moduleNames :=
  areNames_nil.follow fun _ hc => spellable_of_mem_steps hc

/-- The names of a module whose place is spelled by a text are texts. -/
theorem exists_string_of_mem_moduleNames {i : Injector}
    (h : ∃ t : String, i.options.supportModulePath = ⟨t⟩) {s : OsString} (hs : s ∈ i.moduleNames) :
    ∃ t : String, s = t := by
  obtain ⟨t, ht⟩ := h
  -- a name of the walk was entered at some step, and the steps come from the text
  obtain hmem | hmem := mem_of_mem_follow hs
  · cases hmem
  · exact exists_string_of_mem_steps ht hmem

/-- Both trees are made of names, and the support module has the same place in both. -/
theorem exists_layout {i : Injector} (hcwd : i.cwd.isAbsolute)
    (hmodule : staysWithin 0 i.options.supportModulePath.steps) :
    ∃ src dest, AreNames src ∧ AreNames dest ∧
      i.layout.srcRoot = ofNames src ∧ i.layout.destRoot = ofNames dest ∧
      i.layout.supportSourcePath = ofNames (src ++ i.moduleNames) ∧
      i.layout.supportDestPath = ofNames (dest ++ i.moduleNames) := by
  -- relative roots are resolved from the working directory, which is made of names itself
  obtain ⟨src, hsrc, hsrcRoot⟩ := exists_absolutize_eq_ofNames hcwd i.options.src
  obtain ⟨dest, hdest, hdestRoot⟩ := exists_absolutize_eq_ofNames hcwd i.options.dest
  have hjoin {names : List OsString} (hnames : AreNames names) :
      (ofNames names).joinUnder i.options.supportModulePath = ofNames (names ++ i.moduleNames) := by
    -- a walk that never leaves its start is the same below either root
    have hfollow := follow_append_of_staysWithin names [] hmodule
    rw [List.append_nil] at hfollow
    rw [joinUnder_ofNames hnames, hfollow, moduleNames]
  rw [← layout_srcRoot] at hsrcRoot
  rw [← layout_destRoot] at hdestRoot
  refine ⟨src, dest, hsrc, hdest, hsrcRoot, hdestRoot, ?_, ?_⟩
  · rw [layout_supportSourcePath, hsrcRoot, hjoin hsrc]
  · rw [layout_supportDestPath, hdestRoot, hjoin hdest]

/-- An entry refers to modules from a directory made of names: the one that it is in, or the source
tree if it is the root itself. -/
theorem exists_directoryOf {i : Injector} (hcwd : i.cwd.isAbsolute) (file : Path) :
    ∃ names, AreNames names ∧
      i.layout.directoryOf (file.absolutize i.layout.cwd) = ofNames names := by
  rw [layout_cwd]
  obtain ⟨entry, hentry, hpath⟩ := exists_absolutize_eq_ofNames hcwd file
  rw [hpath, Layout.directoryOf]
  -- the root has no parent, and then the source tree stands in for it
  obtain rfl | ⟨directory, name, rfl⟩ := List.eq_nil_or_concat' entry
  · obtain ⟨src, hsrc, hsrcRoot⟩ := exists_absolutize_eq_ofNames hcwd i.options.src
    have hroot : (ofNames []).parent? = none := by decide +kernel
    rw [hroot, layout_srcRoot]
    exact ⟨src, hsrc, hsrcRoot⟩
  · rw [parent?_ofNames hentry]
    exact ⟨directory, fun s hs => hentry s (List.mem_append_left [name] hs), rfl⟩

/-- In an absolute working directory every entry has a placement. -/
theorem exists_placement_of_isAbsolute {i : Injector} (hcwd : i.cwd.isAbsolute) {file : Path}
    (hentry : i.isEntry file = true) : ∃ p, i.placement file = .ok (some p) := by
  -- the base is made of names and so is the target, so there is a way between them
  obtain ⟨base, hbase, hdirectory⟩ := exists_directoryOf hcwd file
  obtain ⟨src, hsrc, hsrcRoot⟩ := exists_absolutize_eq_ofNames hcwd i.options.src
  have htarget : AreNames (follow src i.options.supportModulePath.steps) :=
    hsrc.follow fun c hc => spellable_of_mem_steps hc
  have hsource : i.layout.supportSourcePath =
      ofNames (follow src i.options.supportModulePath.steps) := by
    rw [layout_supportSourcePath, layout_srcRoot, hsrcRoot, joinUnder_ofNames hsrc]
  have hspecifier := moduleSpecifier?_ofNames hbase htarget
  rw [← hdirectory, ← hsource] at hspecifier
  obtain ⟨p, hplacement, -⟩ := exists_placement hentry hspecifier
  exact ⟨p, hplacement⟩

/-- From the compiled file of an entry, the specifier leads to the support module in the output
tree, which is the file that receives the payload, just if all names of the module that it enters
are UTF-8. They are where the place of the module is spelled by a text. -/
theorem specifier_reaches_support_module {i : Injector} {file : Path} {below : List OsString}
    (hcwd : i.cwd.isAbsolute) (hmodule : staysWithin 0 i.options.supportModulePath.steps)
    (hentry : i.isEntry file = true) (hbelow : below ≠ [])
    (hfile : (file.absolutize i.cwd).components =
      i.layout.srcRoot.components ++ below.map .name) :
    ∃ placement directory, i.placement file = .ok (some placement) ∧
      (ofComponents (i.layout.destRoot.components ++ below.map .name)).parent? = some directory ∧
      (directory.joinUnder ⟨placement.specifier⟩ = placement.destPath ↔
        ∀ s ∈ namesAhead below.dropLast i.moduleNames, ∃ t : String, s = t) ∧
      ((∃ t : String, i.options.supportModulePath = ⟨t⟩) →
        directory.joinUnder ⟨placement.specifier⟩ = placement.destPath) ∧
      placement.destPath = i.layout.supportDestPath ∧
      ∀ r r' : Run, r.materialize placement i.layout.cache = (.ok true, r') →
        r'.store.read? placement.destPath = some r.payload := by
  obtain ⟨src, dest, hsrc, hdest, hsrcRoot, hdestRoot, hsource, htarget⟩ := exists_layout hcwd hmodule
  have hplace : AreNames i.moduleNames := areNames_moduleNames i
  obtain ⟨entry, hentryNames, hentryPath⟩ := exists_absolutize_eq_ofNames hcwd file
  -- the entry is in the source tree, in the directory that all but its last name say
  obtain ⟨directory, name, rfl⟩ := (List.eq_nil_or_concat' below).resolve_left hbelow
  have hnames : entry = src ++ directory ++ [name] := by
    rw [hentryPath, hsrcRoot] at hfile
    rw [eq_append_of_components hentryNames hsrc hfile, List.append_assoc]
  subst hnames
  have hdirectory : i.layout.directoryOf (file.absolutize i.layout.cwd) =
      ofNames (src ++ directory) := by
    rw [Layout.directoryOf, layout_cwd, hentryPath, parent?_ofNames hentryNames]
    rfl
  -- the way to the module needs nothing above the source tree
  have hbase : AreNames (src ++ directory) :=
    fun s hs => hentryNames s (List.mem_append_left [name] hs)
  have hmodulePath : AreNames (src ++ i.moduleNames) := List.forall_mem_append.2 ⟨hsrc, hplace⟩
  have hspecifier := moduleSpecifier?_ofNames hbase hmodulePath
  rw [wayBetween_append, ← hdirectory, ← hsource] at hspecifier
  -- the placement has the text of this way as its specifier
  obtain ⟨placement, hplacement, hdestPath, hway⟩ := exists_placement hentry hspecifier
  -- in the output tree the same way starts in the directory of the compiled file
  have hcompiled : AreNames (dest ++ directory ++ [name]) := by
    rw [List.append_assoc] at hentryNames ⊢
    exact List.forall_mem_append.2 ⟨hdest, (List.forall_mem_append.1 hentryNames).2⟩
  have hcompiledBase : AreNames (dest ++ directory) :=
    fun s hs => hcompiled s (List.mem_append_left [name] hs)
  have hreaches : (ofNames (dest ++ directory)).joinUnder ⟨placement.specifier⟩ = placement.destPath ↔
      ∀ s ∈ namesAhead directory i.moduleNames, ∃ t : String, s = t := by
    rw [hway, joinUnder_specifierOf_wayBetween hcompiledBase hplace, hdestPath, htarget,
      ← shownFrom_eq_self_iff]
    -- what is shown is joined to the same directory, so only what is below it matters
    refine ⟨fun h => ?_, fun h => by rw [h]⟩
    -- the front of both paths is the output tree, which is cancelled
    have hshown := ofNames_injective (List.forall_mem_append.2 ⟨hdest, areNames_shownFrom hplace⟩)
      (List.forall_mem_append.2 ⟨hdest, hplace⟩) (congrArg components h)
    exact List.append_cancel_left hshown
  refine ⟨placement, ofNames (dest ++ directory), hplacement, ?_, ?_, ?_, hdestPath, ?_⟩
  · rw [hdestRoot, components_ofNames hdest, List.cons_append, ← List.map_append,
      ← List.append_assoc]
    exact parent?_ofNames hcompiled
  · rwa [List.dropLast_concat]
  · intro hutf8
    exact hreaches.2 fun s hs => exists_string_of_mem_moduleNames hutf8 (List.mem_of_mem_drop hs)
  · -- a write that was made can be read back
    intro r r' hwrite
    exact Run.read?_of_materialize hwrite

/-- The module is reached from two directories further down, over a `..` in its own place. -/
theorem specifier_reaches_support_module_of_nested :
    let options : Options :=
      { Options.default with
        entries := [⟨"lib/cli/run.js"⟩]
        supportModulePath := ⟨"lib/../support.js"⟩ }
    let i : Injector := ⟨options, ⟨"/app"⟩⟩
    ∃ placement directory, i.placement ⟨"src/lib//cli/./run.js"⟩ = .ok (some placement) ∧
      (ofComponents (i.layout.destRoot.components ++
        [("lib" : OsString), "cli", "run.js"].map .name)).parent? = some directory ∧
      directory.joinUnder ⟨placement.specifier⟩ = placement.destPath ∧
      placement.destPath = i.layout.supportDestPath ∧
      ∀ r r' : Run, r.materialize placement i.layout.cache = (.ok true, r') →
        r'.store.read? placement.destPath = some r.payload := by
  intro options i
  -- all hypotheses are about fixed paths
  have hcwd : i.cwd.isAbsolute := by decide
  have hmodule : staysWithin 0 i.options.supportModulePath.steps := by decide
  have hentry : i.isEntry ⟨"src/lib//cli/./run.js"⟩ = true := by decide +kernel
  have hfile : ((⟨"src/lib//cli/./run.js"⟩ : Path).absolutize i.cwd).components =
      i.layout.srcRoot.components ++ [("lib" : OsString), "cli", "run.js"].map .name := by decide +kernel
  obtain ⟨placement, directory, hplacement, hdirectory, -, hreaches, hdestPath, hwrite⟩ :=
    specifier_reaches_support_module hcwd hmodule hentry (by simp) hfile
  -- the module's place is a text, and then the names of the way do not matter
  exact ⟨placement, directory, hplacement, hdirectory, hreaches ⟨"lib/../support.js", rfl⟩, hdestPath,
    hwrite⟩

/-- A place of the module that is not UTF-8 is shown with a replacement character, and what the
specifier leads to is not the file that receives the payload. -/
theorem specifier_misses_support_module_of_broken_name :
    let options : Options := { Options.default with supportModulePath := ⟨⟨[0xFF]⟩ ++ ".js"⟩ }
    let i : Injector := ⟨options, ⟨"/app"⟩⟩
    let file : Path := ⟨"/app/src/index.js"⟩
    i.cwd.isAbsolute ∧ staysWithin 0 i.options.supportModulePath.steps ∧ i.isEntry file = true ∧
      (file.absolutize i.cwd).components =
        i.layout.srcRoot.components ++ [("index.js" : OsString)].map .name ∧
      (ofComponents (i.layout.destRoot.components ++ [("index.js" : OsString)].map .name)).parent? =
        some ⟨"/app/build"⟩ ∧
      i.placement file =
        .ok (some ⟨file, ⟨"/app/build"⟩, ⟨"/app/build/" ++ ⟨[0xFF]⟩ ++ ".js"⟩, "./\uFFFD.js"⟩) ∧
      joinUnder ⟨"/app/build"⟩ ⟨"./\uFFFD.js"⟩ = ⟨"/app/build/\uFFFD.js"⟩ ∧
      joinUnder ⟨"/app/build"⟩ ⟨"./\uFFFD.js"⟩ ≠ ⟨"/app/build/" ++ ⟨[0xFF]⟩ ++ ".js"⟩ := by
  refine ⟨?_, ?_, ?_, ?_, ?_, ?_, ?_, ?_⟩ <;> decide +kernel

end Injector

end Preload
