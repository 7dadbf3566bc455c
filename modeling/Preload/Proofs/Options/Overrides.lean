import Preload.Proofs.Json.Members
import Preload.Proofs.Options.Values
import Preload.Proofs.Path.Segments

/-!
# Options that override the default

Options are the default with other values for the keys that are given (`Options.Overrides`). Whether
a JSON value gives options, and which, depends on what it gives for each key and on nothing else: an
object and the array of the same values come out alike.

Main statements:
* `Options.read_object_eq_ok_iff` and `Options.read_array_eq_ok_iff`: what is read from an object
  and from an array;
* `Options.ofJson_overrides_default`: the account for all objects, for arrays, and for options
  written as JSON.
-/

namespace Preload.Options

/-- Whether options have the values that are given, and those of the default where none is given. -/
def Overrides (given? : Field → Option Json) (o : Options) : Prop :=
  ∀ field,
    match given? field with
    | some json => field.Denotes json (o.get field)
    | none => o.get field = default.get field

theorem overrides_iff {given? : Field → Option Json} {o : Options} :
    o.Overrides given? ↔
      (∀ field json, given? field = some json → field.Denotes json (o.get field)) ∧
        ∀ field, given? field = none → o.get field = default.get field := by
  unfold Overrides
  rw [← forall_and]
  apply forall_congr'
  intro field
  -- with a value only the first part says something, without one only the second
  cases given? field with
  | some json => simp
  | none => simp

/-- Whether an object has a key of this name for an option. -/
def isKey (name : String) : Bool :=
  (Field.ofKey? name).isSome

@[simp] theorem isKey_key (field : Field) : isKey field.key = true := by
  simp [isKey]

/-- Setting the options of a list turns the default into options that override it. -/
theorem setFields_default_eq_ok_iff {pairs : List (Field × Json)} {o : Options}
    (hnodup : (pairs.map Prod.fst).Nodup) :
    default.setFields pairs = .ok o ↔ o.Overrides (pairs.lookup ·) := by
  -- with each option given once, what is set is what is looked up
  simp only [setFields_eq_ok_iff hnodup, overrides_iff, Json.lookup_eq_some_iff_mem hnodup,
    Json.lookup_eq_none_iff_not_mem]

/-! ## Objects -/

theorem map_fst_named (json : Json) :
    (named json).map Prod.fst = Field.sorted.filter fun field => (json.field? field.key).isSome := by
  unfold named
  -- the named options are the sorted ones whose key is there
  induction Field.sorted with
  | nil => rfl
  | cons field fields ih =>
    cases hvalue : json.field? field.key with
    | none => simp [hvalue, ih]
    | some value => simp [hvalue, ih]

theorem nodup_named (json : Json) : ((named json).map Prod.fst).Nodup := by
  rw [map_fst_named]
  -- no option is sorted in twice
  exact List.filter_sublist.nodup (by decide)

theorem lookup_named (json : Json) (field : Field) :
    (named json).lookup field = json.field? field.key := by
  apply Option.ext
  intro value
  -- every option is among the sorted ones
  have hsorted : field ∈ Field.sorted := by cases field <;> decide
  rw [Json.lookup_eq_some_iff_mem (nodup_named json), named, List.mem_filterMap]
  constructor
  · -- the value is found under the key of the option that it is named with
    rintro ⟨other, -, h⟩
    obtain ⟨found, hfound, heq⟩ := Option.map_eq_some_iff.1 h
    cases heq
    exact hfound
  · intro h
    exact ⟨field, hsorted, by rw [h, Option.map_some]⟩

/-- An object gives an option the value of its key. -/
theorem read_object_eq_ok_iff {members : List (String × Json)} {o : Options} :
    read (.object members) = .ok o ↔ o.Overrides fun field => members.lookup field.key := by
  -- an object is read through the options that it names
  rw [read, setFields_default_eq_ok_iff (nodup_named _)]
  simp only [lookup_named]
  rfl

/-- Objects that give the same for each option come out alike, refused or not. -/
theorem ofJson_object_congr {members members' : List (String × Json)}
    (h : ∀ field : Field, members.lookup field.key = members'.lookup field.key) :
    ofJson (.object members) = ofJson (.object members') := by
  -- reading looks at members only by key
  have hnamed : named (.object members) = named (.object members') := by
    simp only [named, Json.field?, h]
  simp only [ofJson, read, hnamed]

/-! ## Arrays -/

/-- An array gives the options its items in turn, and no more than there are options. -/
theorem read_array_eq_ok_iff {items : List Json} {o : Options} :
    read (.array items) = .ok o ↔
      items.length ≤ Field.all.length ∧ o.Overrides ((Field.all.zip items).lookup ·) := by
  -- the items of an array are taken in the order of the options
  have hnodup : ((Field.all.zip items).map Prod.fst).Nodup :=
    (Json.sublist_map_fst_zip _ _).nodup Field.nodup_all
  simp only [read, bind_eq_ok_iff, setFields_default_eq_ok_iff hnodup]
  constructor
  · -- more items than options are refused after all options are set
    rintro ⟨found, hfound, h⟩
    split at h
    · next hlength =>
      cases h
      exact ⟨hlength, hfound⟩
    · cases h
  · rintro ⟨hlength, ho⟩
    exact ⟨o, ho, by rw [if_pos hlength]⟩

/-- An array of no more values than there are options is read as the object with their keys. -/
theorem read_array_eq_ok_iff_object {items : List Json} (hlength : items.length ≤ Field.all.length)
    {o : Options} :
    read (.array items) = .ok o ↔ read (.object ((Field.all.map Field.key).zip items)) = .ok o := by
  -- both give the option the item at its place
  rw [read_array_eq_ok_iff, and_iff_right hlength, read_object_eq_ok_iff]
  simp only [Json.lookup_zip_map fun _ _ => Field.key_injective]

/-! ## Options as JSON -/

/-- Options can be stored just if all their paths are spelled by texts. -/
theorem isSome_toJson?_iff {o : Options} :
    o.toJson?.isSome = true ↔ ∀ path ∈ o.paths, ∃ s : String, path = ⟨s⟩ := by
  -- a path that denotes a string is written as this string
  have hstring (path : Path) : path.toString?.isSome = true ↔ ∃ s : String, path = ⟨s⟩ := by
    simp only [Option.isSome_iff_exists, Path.toString?, OsString.toString?_eq_some_iff, Path.ext_iff]
  simp [toJson?, hstring]

/-- A path is the one that is read from its text if this spells it. -/
theorem denotesPath_text {path : Path} (h : ∃ s : String, path = ⟨s⟩) :
    Field.DenotesPath (.string path.text) path := by
  obtain ⟨s, rfl⟩ := h
  exact ⟨s, congrArg Json.string (OsString.lossy_ofString s), rfl⟩

/-- What is written of options overrides the default with all of them. -/
theorem read_of_toJson? {o : Options} {json : Json} (h : o.toJson? = some json) :
    read json = .ok o := by
  -- all paths are texts, so each is read as it was written
  have hpaths := isSome_toJson?_iff.1 (Option.isSome_of_eq_some h)
  have hjson : o.toJson = json := by
    unfold toJson? at h
    split at h
    · exact Option.some.inj h
    · cases h
  rw [← hjson, toJson, read_object_eq_ok_iff]
  simp only [paths, List.forall_mem_cons] at hpaths
  obtain ⟨hsrc, hdest, hplace, hentries⟩ := hpaths
  -- the values are compared option by option
  intro field
  cases field with
  | src => exact denotesPath_text hsrc
  | dest => exact denotesPath_text hdest
  | supportModulePath => exact denotesPath_text hplace
  | entries =>
    -- the entries are written in order, and read in this order
    refine ⟨_, rfl, List.forall₂_map_left_iff.2 (List.forall₂_same.2 fun path hpath => ?_)⟩
    exact denotesPath_text (hentries path hpath)
  | cache => rfl
  | importStyle => exact .inl rfl

/-! ## The account -/

theorem exists_overrides_iff {given? : Field → Option Json} :
    (∃ o, Overrides given? o) ↔
      ∀ field json, given? field = some json → ∃ v, field.Denotes json v := by
  constructor
  · -- options that override are evidence for each value
    rintro ⟨o, ho⟩ field json hgiven
    have hfield := ho field
    rw [hgiven] at hfield
    exact ⟨_, hfield⟩
  · intro h
    -- the options are put together value by value
    have hvalue (field : Field) : ∃ v : field.Value,
        match given? field with
        | some json => field.Denotes json v
        | none => v = default.get field := by
      cases hgiven : given? field with
      | some json => exact h field json hgiven
      | none => exact ⟨_, rfl⟩
    choose value hvalue using hvalue
    refine ⟨⟨value .src, value .dest, value .entries, value .supportModulePath, value .cache,
      value .importStyle⟩, fun field => ?_⟩
    cases field <;> exact hvalue _

/-- Options from JSON are the default, overridden key by key. An object gives options just when the
value of each known key that it has stands for a value of that option, and these options have the
values that are given and those of the default elsewhere, an empty place for the support module
aside. Other keys and the order of the keys do not matter. An array of no more values than there are
options gives what the object gives that has them under their keys. Options are written as JSON if
all their paths are spelled by texts, and are read from it again. -/
theorem ofJson_overrides_default :
    (∀ members : List (String × Json),
      ((∃ o, ofJson (.object members) = .ok o) ↔
        ∀ (field : Field) (json : Json), members.lookup field.key = some json →
          ∃ v, field.Denotes json v) ∧
      ∀ o, ofJson (.object members) = .ok o ↔
        ∃ given : Options,
          (∀ field : Field,
            match members.lookup field.key with
            | some json => field.Denotes json (given.get field)
            | none => given.get field = default.get field) ∧
          o = if given.supportModulePath = ⟨""⟩ then
              { given with supportModulePath := default.supportModulePath }
            else given) ∧
    (∀ members members' : List (String × Json), (members.map Prod.fst).Nodup →
      (members'.map Prod.fst).Nodup →
      (members.filter fun m => isKey m.1).Perm (members'.filter fun m => isKey m.1) →
        ofJson (.object members) = ofJson (.object members')) ∧
    (∀ items : List Json, items.length ≤ 6 → ∀ o,
      ofJson (.array items) = .ok o ↔
        ofJson (.object ((Field.all.map Field.key).zip items)) = .ok o) ∧
    ∀ o : Options,
      (o.toJson?.isSome = true ↔ ∀ path ∈ o.paths, ∃ s : String, path = ⟨s⟩) ∧
        ∀ json, o.toJson? = some json → ofJson json = .ok o.normalized := by
  have hofJson {json : Json} {o : Options} :
      ofJson json = .ok o ↔ ∃ given, read json = .ok given ∧ given.normalized = o :=
    map_eq_ok_iff
  have hnormalized (o : Options) : o.normalized =
      if o.supportModulePath = ⟨""⟩ then
        { o with supportModulePath := default.supportModulePath }
      else o := by
    simp only [normalized, Path.isEmpty_iff]
    rfl
  -- the two parts of the claim on objects: when options come out, and which
  refine ⟨fun members => ⟨?_, fun o => ?_⟩, ?_, ?_, ?_⟩
  · rw [← exists_overrides_iff]
    simp only [hofJson, read_object_eq_ok_iff]
    exact ⟨fun ⟨_, given, h, _⟩ => ⟨given, h⟩, fun ⟨given, h⟩ => ⟨_, given, h, rfl⟩⟩
  · simp only [hofJson, read_object_eq_ok_iff, hnormalized, eq_comm (b := o)]
    rfl
  · -- members that no option has are not looked up
    intro members members' hnodup hnodup' hperm
    apply ofJson_object_congr
    intro field
    exact Json.lookup_congr_of_perm hnodup hnodup' hperm (isKey_key field)
  · -- an array is read as the object with the keys, and both are then normalized
    intro items hlength o
    simp only [hofJson, read_array_eq_ok_iff_object hlength]
  · -- what is written holds all options, so nothing of the default is left but by an empty place
    intro o
    refine ⟨isSome_toJson?_iff, fun json hjson => ?_⟩
    rw [hofJson]
    exact ⟨o, read_of_toJson? hjson, rfl⟩

/-- An import style by its object form, an unknown key, an empty place for the support module, and a
list of entries in place of the default one. -/
theorem ofJson_overrides_default_of_style_object :
    let style : String × Json := ("importStyle", .object [("import", .null)])
    let entries : String × Json := ("entries", .array [.string "main.js"])
    let place : String × Json := ("supportModulePath", .string "")
    let members := [entries, ("plugins", .array []), place, style]
    let o : Options := { default with entries := [⟨"main.js"⟩], importStyle := .importDecl }
    ofJson (.object members) = ofJson (.object [style, entries, place]) ∧
      ofJson (.object members) = .ok o ∧
      (¬∃ o, ofJson (.object [("cache", .null)]) = .ok o) ∧
      ofJson (.array [.string "lib"]) = .ok { default with src := ⟨"lib"⟩ } := by
  intro style entries place members o
  obtain ⟨hobject, hperm, harray, -⟩ := ofJson_overrides_default
  refine ⟨?_, ?_, ?_, ?_⟩
  · -- the known members, in two orders
    apply hperm _ _ (by decide) (by decide)
    have hkeys : isKey entries.1 ∧ isKey place.1 ∧ isKey style.1 ∧ ¬isKey "plugins" := by decide
    obtain ⟨hentries, hplace, hstyle, hplugins⟩ := hkeys
    have hfront : [entries, place, style].Perm [style, entries, place] :=
      ((List.Perm.swap style place []).cons entries).trans (List.Perm.swap style entries [place])
    simpa [members, hentries, hplace, hstyle, hplugins] using hfront
  · rw [(hobject members).2 o]
    -- the empty place is given, and normalizing puts the default there
    refine ⟨{ o with supportModulePath := ⟨""⟩ }, fun field => ?_, rfl⟩
    cases field with
    | importStyle => exact .inr rfl
    | entries => exact ⟨_, rfl, .cons ⟨"main.js", rfl, rfl⟩ .nil⟩
    | supportModulePath => exact ⟨"", rfl, rfl⟩
    | _ => rfl
  · rw [(hobject _).1]
    intro h
    -- `null` is no truth value
    obtain ⟨v, hv⟩ := h .cache .null rfl
    cases hv
  · rw [harray [.string "lib"] (by decide), (hobject _).2]
    -- the one item is the source tree, which comes first
    refine ⟨{ default with src := ⟨"lib"⟩ }, fun field => ?_, rfl⟩
    cases field with
    | src => exact ⟨"lib", rfl, rfl⟩
    | _ => rfl

end Preload.Options
