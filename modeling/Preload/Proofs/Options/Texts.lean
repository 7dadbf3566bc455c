import Mathlib.Data.List.Nodup
import Preload.Options.OfText
import Preload.Proofs.Json.Documents
import Preload.Proofs.Options.Overrides

/-!
# Two ways to options

Options can be read straight from a text, from left to right and with unknown values only skipped,
or from the value that the text is read as. Where no object repeats a key, both ways give the same:
each reader for a document gives what the reader for its value gives, and the order in which options
are set does not matter.

Main statements:
* `Options.setDoc_eq_ok_iff`: an option is set to the same from a document as from its value;
* `Options.setMembers_eq_ok_iff`: the same for all members of an object;
* `Options.toOption_ofText`: both ways give the same options, or none.
-/

namespace Preload.Options

open Json (Doc Fault Key Reading)

theorem TextError.stopAt_eq_ok_iff {fault : Option Fault} {u : Unit} :
    stopAt fault = .ok u ↔ fault = none := by
  cases fault <;> simp [stopAt]

theorem matched_eq_ok_iff {ε α : Type} {x : Except ε α} {a : α} : matched x = .ok a ↔ x = .ok a :=
  mapError_eq_ok_iff

/-! ## Readers of documents -/

section Readers

variable {d : Doc} {json : Json}

theorem pathOfDoc_eq_ok_iff (h : d.ReadAs json) {path : Path} :
    pathOfDoc d = .ok path ↔ pathOf json = .ok path := by
  -- a string is a path, and nothing else is
  cases h with
  | string => simp [pathOfDoc, pathOf]
  | plain hplain => cases json <;> simp_all [pathOfDoc, pathOf, Json.IsPlain]
  | array => simp [pathOfDoc, pathOf]
  | object => simp [pathOfDoc, pathOf, Json.ofMembers]

theorem entriesOfDoc_eq_ok_iff (h : d.ReadAs json) {paths : List Path} :
    entriesOfDoc d = .ok paths ↔ entriesOf json = .ok paths := by
  cases h with
  | string => simp [entriesOfDoc, entriesOf]
  | plain hplain => cases json <;> simp_all [entriesOfDoc, entriesOf, Json.IsPlain]
  | @array items jsons hsound hread =>
    -- the items are read one by one, each as its value
    have hpaths := forall₂_congr_of_forall₂ hread (fun item hitem json hjson path =>
      show pathOfDoc item = .ok path ↔ pathOf json = .ok path from
        pathOfDoc_eq_ok_iff ((hsound item hitem).readAs hjson)) paths
    simp only [entriesOfDoc, entriesOf, bind_eq_ok_iff, TextError.stopAt_eq_ok_iff, mapM_eq_ok_iff]
    rw [← hpaths]
    constructor
    · -- an array of paths has nothing behind it to stop at
      rintro ⟨found, hfound, -, -, h⟩
      cases h
      exact hfound
    · intro hfound
      exact ⟨paths, hfound, (), trivial, rfl⟩
  | object => simp [entriesOfDoc, entriesOf, Json.ofMembers]

theorem cacheOfDoc_eq_ok_iff (h : d.ReadAs json) {b : Bool} :
    cacheOfDoc d = .ok b ↔ cacheOf json = .ok b := by
  cases h with
  | string => simp [cacheOfDoc, cacheOf]
  | plain hplain => cases json <;> simp_all [cacheOfDoc, cacheOf, Json.IsPlain]
  | array => simp [cacheOfDoc, cacheOf]
  | object => simp [cacheOfDoc, cacheOf, Json.ofMembers]

theorem unitOfDoc_eq_ok_iff (h : d.ReadAs json) {u : Unit} :
    unitOfDoc d = .ok u ↔ json = .null := by
  cases h with
  | string => simp [unitOfDoc]
  | plain hplain => cases json <;> simp_all [unitOfDoc, Json.IsPlain]
  | array => simp [unitOfDoc]
  | object => simp [unitOfDoc, Json.ofMembers]

theorem styleOfKey_eq_ok_iff {key : Key} {name : String} (h : key.read = .ok name)
    {style : ImportStyle} : styleOfKey key = .ok style ↔ name = style.keyword := by
  cases key with
  | other => cases h
  | name reading =>
    -- a key that names something has its name as its value
    have hvalue : reading.value = .ok name := h
    simp only [styleOfKey, TextError.ofReading, hvalue]
    exact matched_eq_ok_iff.trans styleNamed_eq_ok_iff

/-- In an object that names a style there is one key, so it must not come twice. -/
theorem styleOfDoc_eq_ok_iff (h : d.ReadAs json) (hdistinct : d.keysDistinct = true)
    {style : ImportStyle} : styleOfDoc d = .ok style ↔ styleOf json = .ok style := by
  rw [styleOf_eq_ok_iff]
  cases h with
  | string s =>
    -- the short form is a name alone
    simp only [Json.string.injEq, reduceCtorEq, or_false]
    exact matched_eq_ok_iff.trans styleNamed_eq_ok_iff
  | plain hplain => cases json <;> simp_all [styleOfDoc, Json.IsPlain]
  | array => simp [styleOfDoc]
  | @object members ms hsound hread =>
    obtain ⟨hnodup, -⟩ := Doc.keysDistinct_object_iff.1 hdistinct
    rw [Doc.keys_eq_of_isRead hread] at hnodup
    rw [Json.ofMembers_of_nodup hnodup]
    -- an object without members names no style
    cases hread with
    | nil => simp [styleOfDoc]
    | @cons member named members ms hmember hmembers =>
      -- the first key names the style, and its value has to be null
      have hvalue := (hsound member List.mem_cons_self).readAs hmember.2
      simp only [styleOfDoc, bind_eq_ok_iff, styleOfKey_eq_ok_iff hmember.1,
        unitOfDoc_eq_ok_iff hvalue, TextError.stopAt_eq_ok_iff]
      constructor
      · rintro ⟨found, hname, -, hnull, -, hmore, h⟩
        cases h
        -- nothing comes behind the first member
        cases hmembers with
        | cons => cases hmore
        | nil => exact .inr (by rw [← hname, ← hnull])
      · rintro (h | h)
        · cases h
        · -- of a value that names a style, the object has one member
          cases h
          cases hmembers
          exact ⟨style, rfl, (), rfl, (), rfl, rfl⟩

/-- An option is set to the same from a document as from its value. -/
theorem setDoc_eq_ok_iff (h : d.ReadAs json) (hdistinct : d.keysDistinct = true) {o o' : Options}
    {field : Field} : o.setDoc field d = .ok o' ↔ o.setField field json = .ok o' := by
  -- each option has a reader of its own, and each of them agrees
  cases field with
  | src => simp only [setDoc, setField, map_eq_ok_iff, pathOfDoc_eq_ok_iff h]
  | dest => simp only [setDoc, setField, map_eq_ok_iff, pathOfDoc_eq_ok_iff h]
  | entries => simp only [setDoc, setField, map_eq_ok_iff, entriesOfDoc_eq_ok_iff h]
  | supportModulePath => simp only [setDoc, setField, map_eq_ok_iff, pathOfDoc_eq_ok_iff h]
  | cache => simp only [setDoc, setField, map_eq_ok_iff, cacheOfDoc_eq_ok_iff h]
  | importStyle => simp only [setDoc, setField, map_eq_ok_iff, styleOfDoc_eq_ok_iff h hdistinct]

end Readers

/-! ## Objects -/

/-- The options that members name, with their values. -/
def known (ms : List (String × Json)) : List (Field × Json) :=
  ms.filterMap fun m => (Field.ofKey? m.1).map (·, m.2)

theorem known_cons_of_none {m : String × Json} {ms : List (String × Json)}
    (h : Field.ofKey? m.1 = none) : known (m :: ms) = known ms := by
  simp [known, h]

theorem known_cons_of_some {m : String × Json} {ms : List (String × Json)} {field : Field}
    (h : Field.ofKey? m.1 = some field) : known (m :: ms) = (field, m.2) :: known ms := by
  simp [known, h]

theorem mem_known_iff {ms : List (String × Json)} {field : Field} {json : Json} :
    (field, json) ∈ known ms ↔ (field.key, json) ∈ ms := by
  rw [known, List.mem_filterMap]
  constructor
  · -- a key is known if it is that of an option, and options have different keys
    rintro ⟨⟨key, found⟩, hmem, h⟩
    obtain ⟨other, hother, heq⟩ := Option.map_eq_some_iff.1 h
    cases heq
    rw [Field.key_eq_of_ofKey? hother]
    exact hmem
  · intro hmem
    exact ⟨_, hmem, by simp⟩

theorem map_key_known (ms : List (String × Json)) :
    ((known ms).map Prod.fst).map Field.key = (ms.map Prod.fst).filter isKey := by
  induction ms with
  | nil => rfl
  | cons m ms ih =>
    -- unknown keys are left out on both sides
    cases hkey : Field.ofKey? m.1 with
    | none => simp [known_cons_of_none hkey, ih, isKey, hkey]
    | some field =>
      simp [known_cons_of_some hkey, ih, isKey, hkey, Field.key_eq_of_ofKey? hkey]

theorem nodup_known {ms : List (String × Json)} (hnodup : (ms.map Prod.fst).Nodup) :
    ((known ms).map Prod.fst).Nodup := by
  -- the keys of options tell them apart
  refine List.Nodup.of_map Field.key ?_
  rw [map_key_known]
  exact List.filter_sublist.nodup hnodup

/-- Set one after the other, the options of an object come out as they are looked up. -/
theorem setFields_known_eq_ok_iff {ms : List (String × Json)} (hnodup : (ms.map Prod.fst).Nodup)
    {o : Options} : default.setFields (known ms) = .ok o ↔ read (.object ms) = .ok o := by
  rw [setFields_default_eq_ok_iff (nodup_known hnodup), read_object_eq_ok_iff]
  have hlookup (field : Field) : (known ms).lookup field = ms.lookup field.key := by
    apply Option.ext
    -- members are found by key, and no key comes twice
    intro json
    rw [Json.lookup_eq_some_iff_mem (nodup_known hnodup), Json.lookup_eq_some_iff_mem hnodup,
      mem_known_iff]
  simp only [hlookup]

/-- The members of an object set the options that their values name, in order. -/
theorem setMembers_eq_ok_iff {members : List (Key × Doc)} {ms : List (String × Json)}
    (hread : List.Forall₂ Doc.IsRead members ms) (hsound : ∀ m ∈ members, m.2.Sound)
    (hdistinct : ∀ m ∈ members, m.2.keysDistinct = true) (hnodup : (ms.map Prod.fst).Nodup)
    {seen : List Field} (hseen : ∀ field ∈ seen, field.key ∉ ms.map Prod.fst) {o o' : Options} :
    o.setMembers seen members = .ok o' ↔ o.setFields (known ms) = .ok o' := by
  induction hread generalizing seen o with
  | nil => simp [Options.setMembers, known, setFields]
  | @cons member named members ms hmember _ ih =>
    obtain ⟨key, d⟩ := member
    obtain ⟨name, json⟩ := named
    obtain ⟨hd, hsound⟩ := List.forall_mem_cons.1 hsound
    obtain ⟨hdistinct_d, hdistinct⟩ := List.forall_mem_cons.1 hdistinct
    rw [List.map_cons, List.nodup_cons] at hnodup
    have hname : key.read = .ok name := hmember.1
    have hjson : d.read = .ok json := hmember.2
    have hrest : ∀ field ∈ seen, field.key ∉ ms.map Prod.fst := by
      intro field hfield hmem
      exact hseen field hfield (List.mem_cons_of_mem _ hmem)
    cases hfield : Field.ofKey? name with
    | none =>
      -- the value of an unknown key is skipped, which works because it can be read
      have hskip : d.skipFault = none := hd.skipFault_of_read hjson
      rw [known_cons_of_none hfield, ← ih hsound hdistinct hnodup.2 hrest]
      simp [Options.setMembers, hname, hfield, hskip, Except.mapError, TextError.stopAt, bind,
        Except.bind]
    | some field =>
      have hkey : field.key = name := Field.key_eq_of_ofKey? hfield
      have hnew : field ∉ seen := by
        intro hmem
        exact hseen field hmem (by simp [hkey])
      -- the option is set now, and its key does not come again
      have hseen' : ∀ other ∈ field :: seen, other.key ∉ ms.map Prod.fst := by
        refine List.forall_mem_cons.2 ⟨?_, hrest⟩
        rw [hkey]
        exact hnodup.1
      have hset {o' : Options} : o.setDoc field d = .ok o' ↔ o.setField field json = .ok o' :=
        setDoc_eq_ok_iff (hd.readAs hjson) hdistinct_d
      rw [known_cons_of_some hfield, setFields, bind_eq_ok_iff]
      simp only [← ih hsound hdistinct hnodup.2 hseen', ← hset, ← bind_eq_ok_iff]
      simp [Options.setMembers, hname, hfield, hnew, Except.mapError, bind, Except.bind]

/-! ## Arrays -/

/-- Options are set to the same from documents as from their values. -/
theorem setDocs_eq_ok_iff {items : List Doc} {jsons : List Json}
    (hread : List.Forall₂ (fun d json => d.read = .ok json) items jsons)
    (hsound : ∀ item ∈ items, item.Sound) (hdistinct : ∀ item ∈ items, item.keysDistinct = true)
    (fields : List Field) {o o' : Options} :
    o.setDocs (fields.zip items) = .ok o' ↔ o.setFields (fields.zip jsons) = .ok o' := by
  induction hread generalizing fields o with
  -- with no items left nothing is set
  | nil => simp [setDocs, setFields]
  | @cons d json items jsons hjson _ ih =>
    obtain ⟨hd, hsound⟩ := List.forall_mem_cons.1 hsound
    obtain ⟨hdistinct_d, hdistinct⟩ := List.forall_mem_cons.1 hdistinct
    cases fields with
    -- items without an option are not set
    | nil => simp [setDocs, setFields]
    | cons field fields =>
      simp only [List.zip_cons_cons, setDocs, setFields, bind_eq_ok_iff,
        setDoc_eq_ok_iff (hd.readAs hjson) hdistinct_d, ih hsound hdistinct]

/-! ## Whole texts -/

/-- From a document of a text, the same options are read as from its value. -/
theorem readDoc_eq_ok_iff {d : Doc} {json : Json} (h : d.ReadAs json)
    (hdistinct : d.keysDistinct = true) {o : Options} :
    readDoc d = .ok o ↔ read json = .ok o := by
  cases h with
  | string => simp [readDoc, read]
  | plain hplain => cases json <;> simp_all [readDoc, read, Json.IsPlain]
  | @array items jsons hsound hread =>
    -- an array: what is set is the same, and so is the number of items
    have hset {found : Options} : default.setDocs (Field.all.zip items) = .ok found ↔
        default.setFields (Field.all.zip jsons) = .ok found :=
      setDocs_eq_ok_iff hread hsound (Doc.itemsKeysDistinct_iff.1 hdistinct) Field.all
    have hlength : items.length = jsons.length := hread.length_eq
    simp only [readDoc, read, bind_eq_ok_iff, hset, TextError.stopAt_eq_ok_iff, hlength]
    apply exists_congr
    intro found
    apply and_congr_right
    intro _
    by_cases hle : jsons.length ≤ Field.all.length
    · simp [hle, pure, Except.pure]
    · simp [hle]
  | @object members ms hsound hread =>
    -- an object: its keys differ, so it is read as its members
    obtain ⟨hnodup, hdistinct⟩ := Doc.keysDistinct_object_iff.1 hdistinct
    rw [Doc.keys_eq_of_isRead hread] at hnodup
    rw [Json.ofMembers_of_nodup hnodup, ← setFields_known_eq_ok_iff hnodup]
    have hset {found : Options} :
        default.setMembers [] members = .ok found ↔ default.setFields (known ms) = .ok found :=
      setMembers_eq_ok_iff hread hsound hdistinct hnodup (by simp)
    simp only [readDoc, bind_eq_ok_iff, hset, TextError.stopAt_eq_ok_iff]
    simp [pure, Except.pure]

/-- Where a text is read as a value and no object in it repeats a key, the options of the text are
those of the value: both ways give the same, or both are refused. -/
theorem toOption_ofText {source : String} {json : Json}
    (hread : Json.parse source.toList = .ok json)
    (hdistinct : (Doc.ofText source.toList).doc.keysDistinct = true) :
    (ofText source).toOption = (ofJson json).toOption := by
  -- the text is one document, and nothing follows it
  obtain ⟨found, hfound, hends⟩ := bind_eq_ok_iff.1 hread
  split at hends
  case isFalse => cases hends
  case isTrue hends' =>
    cases hends
    have hdoc {o : Options} :
        readDoc (Doc.ofText source.toList).doc = .ok o ↔ read json = .ok o :=
      readDoc_eq_ok_iff ((Doc.sound_ofText source.toList).readAs hfound) hdistinct
    have hofText {o : Options} : ofText source = .ok o ↔ ofJson json = .ok o := by
      simp only [ofText, ofJson, bind_eq_ok_iff, map_eq_ok_iff, hdoc, TextError.stopAt_eq_ok_iff,
        hends']
      simp [pure, Except.pure]
    -- the two agree on all options, so they agree on whether there are any
    apply Option.ext
    intro o
    simpa only [toOption_eq_some_iff] using hofText

/-- Blanks, an escaped key, an unknown key with a value of its own, and the object form of a
style. -/
theorem toOption_ofText_of_escapes :
    let source := "\x7b \"importStyle\":\x7b\"import\":null\x7d,\n" ++
      "\"x\":[\x7b\x7d],\"\\u0064est\":\"out\"\x7d\t"
    ∃ json, Json.parse source.toList = .ok json ∧
      (Doc.ofText source.toList).doc.keysDistinct = true ∧
      (ofText source).toOption = (ofJson json).toOption ∧
      (ofJson json).toOption = some { default with dest := ⟨"out"⟩, importStyle := .importDecl } := by
  intro source
  -- only that the value can be read is computed, not which value it is
  have hreads : (Json.parse source.toList).toOption.isSome = true := by decide +kernel
  obtain ⟨json, hjson⟩ := Option.isSome_iff_exists.1 hreads
  have hread : Json.parse source.toList = .ok json := toOption_eq_some_iff.1 hjson
  have hdistinct : (Doc.ofText source.toList).doc.keysDistinct = true := by decide +kernel
  have hsame := toOption_ofText hread hdistinct
  -- straight from the text, the options can be computed
  have hoptions : (ofText source).toOption =
      some { default with dest := ⟨"out"⟩, importStyle := .importDecl } := by decide +kernel
  exact ⟨json, hread, hdistinct, hsame, hsame.symm.trans hoptions⟩

end Preload.Options
