import Preload.Options.OfJson
import Preload.Proofs.Reader

/-!
# Values of options

Each option has values of its own kind (`Options.Field.Value`), and some JSON values stand for them
(`Options.Field.Denotes`). To set an option is to find what a JSON value stands for and to leave all
other options alone, so it does not matter in which order different options are set.

Main statements:
* `Options.setField_eq_ok_iff`: what setting an option gives, and when it gives anything;
* `Options.setFields_eq_ok_iff`: the same for different options one after the other.
-/

namespace Preload.Options

/-! ## Options one by one -/

/-- The values of an option. -/
def Field.Value : Field → Type
  | .src | .dest | .supportModulePath => Path
  | .entries => List Path
  | .cache => Bool
  | .importStyle => ImportStyle

/-- The value of an option. -/
def get (o : Options) : (field : Field) → field.Value
  | .src => o.src
  | .dest => o.dest
  | .entries => o.entries
  | .supportModulePath => o.supportModulePath
  | .cache => o.cache
  | .importStyle => o.importStyle

/-- Gives one option another value. -/
def set (o : Options) : (field : Field) → field.Value → Options
  | .src, v => { o with src := v }
  | .dest, v => { o with dest := v }
  | .entries, v => { o with entries := v }
  | .supportModulePath, v => { o with supportModulePath := v }
  | .cache, v => { o with cache := v }
  | .importStyle, v => { o with importStyle := v }

@[simp] theorem get_set_self (o : Options) (field : Field) (v : field.Value) :
    (o.set field v).get field = v := by
  cases field <;> rfl

@[simp] theorem get_set_of_ne (o : Options) {field other : Field} (h : other ≠ field)
    (v : field.Value) : (o.set field v).get other = o.get other := by
  -- of the two options only one is touched
  cases field <;> cases other <;> first | rfl | exact absurd rfl h

/-- Options with the same values are the same. -/
theorem ext_get {o o' : Options} (h : ∀ field, o.get field = o'.get field) : o = o' := by
  -- field by field, so that an option more would need a line more here
  obtain ⟨src, dest, entries, supportModulePath, cache, importStyle⟩ := o
  obtain rfl : src = o'.src := h .src
  obtain rfl : dest = o'.dest := h .dest
  obtain rfl : entries = o'.entries := h .entries
  obtain rfl : supportModulePath = o'.supportModulePath := h .supportModulePath
  obtain rfl : cache = o'.cache := h .cache
  obtain rfl : importStyle = o'.importStyle := h .importStyle
  rfl

namespace Field

/-- Different options have different keys. -/
theorem key_injective {field other : Field} (h : field.key = other.key) : field = other := by
  revert h
  cases field <;> cases other <;> decide

theorem nodup_all : all.Nodup := by decide

@[simp] theorem ofKey?_key (field : Field) : ofKey? field.key = some field := by
  cases field <;> decide

theorem key_eq_of_ofKey? {key : String} {field : Field} (h : ofKey? key = some field) :
    field.key = key := by
  simpa using List.find?_some h

/-! ## What stands for a value -/

/-- Whether a JSON value is the string that spells a path. -/
def DenotesPath (json : Json) (path : Path) : Prop :=
  ∃ s : String, json = .string s ∧ path = ⟨s⟩

/-- Whether a JSON value stands for a value of an option. A path is a string, and an import style is
named by a string or by an object that has the name as its only key. -/
def Denotes : (field : Field) → Json → field.Value → Prop
  | .src, json, path | .dest, json, path | .supportModulePath, json, path => DenotesPath json path
  | .entries, json, paths =>
    ∃ items, json = .array items ∧ List.Forall₂ DenotesPath items (show List Path from paths)
  | .cache, json, b => json = .bool b
  | .importStyle, json, style =>
    json = .string (show ImportStyle from style).keyword ∨
      json = .object [((show ImportStyle from style).keyword, .null)]

end Field

/-! ## Readers of values -/

theorem pathOf_eq_ok_iff {json : Json} {path : Path} :
    pathOf json = .ok path ↔ Field.DenotesPath json path := by
  -- only a string spells a path
  cases json with
  | string s => simp [pathOf, Field.DenotesPath, eq_comm]
  | _ => simp [pathOf, Field.DenotesPath]

theorem entriesOf_eq_ok_iff {json : Json} {paths : List Path} :
    entriesOf json = .ok paths ↔
      ∃ items, json = .array items ∧ List.Forall₂ Field.DenotesPath items paths := by
  cases json with
  | array items =>
    simp only [entriesOf, mapM_eq_ok_iff, pathOf_eq_ok_iff, Json.array.injEq, exists_eq_left']
  | _ => simp [entriesOf]

theorem cacheOf_eq_ok_iff {json : Json} {b : Bool} : cacheOf json = .ok b ↔ json = .bool b := by
  cases json <;> simp [cacheOf]

theorem styleNamed_eq_ok_iff {name : String} {style : ImportStyle} :
    styleNamed name = .ok style ↔ name = style.keyword := by
  unfold styleNamed
  constructor
  · intro h
    -- the keywords are found again by `ofKeyword?`, which names none twice
    split at h
    · next hname =>
      cases h
      exact ImportStyle.eq_keyword_of_ofKeyword? hname
    · cases h
  · rintro rfl
    rw [ImportStyle.ofKeyword?_keyword]

theorem styleOf_eq_ok_iff {json : Json} {style : ImportStyle} :
    styleOf json = .ok style ↔
      json = .string style.keyword ∨ json = .object [(style.keyword, .null)] := by
  unfold styleOf
  split
  · simp [styleNamed_eq_ok_iff]
  · next name json =>
    rw [bind_eq_ok_iff]
    simp only [styleNamed_eq_ok_iff]
    constructor
    · -- of the one key only `null` may be the value
      rintro ⟨found, rfl, h⟩
      split at h
      · cases h
        exact .inr rfl
      · cases h
    · -- the keyword is read back, and what stands with it is `null`
      rintro (h | h)
      · cases h
      · cases h
        exact ⟨style, rfl, rfl⟩
  · -- an object with more keys or none is refused, whatever it says
    next hsingle =>
    simp only [reduceCtorEq, Json.object.injEq, false_or, false_iff]
    rintro rfl
    exact hsingle _ _ rfl
  · next hstring _ hobject =>
    simp only [reduceCtorEq, false_iff, not_or]
    exact ⟨hstring _, hobject _⟩

/-! ## Setting options -/

/-- An option is set to what the JSON value stands for. -/
theorem setField_eq_ok_iff {o o' : Options} {field : Field} {json : Json} :
    o.setField field json = .ok o' ↔ ∃ v, field.Denotes json v ∧ o.set field v = o' := by
  cases field with
  | src => simp only [setField, map_eq_ok_iff, pathOf_eq_ok_iff]; rfl
  | dest => simp only [setField, map_eq_ok_iff, pathOf_eq_ok_iff]; rfl
  | entries => simp only [setField, map_eq_ok_iff, entriesOf_eq_ok_iff]; rfl
  | supportModulePath => simp only [setField, map_eq_ok_iff, pathOf_eq_ok_iff]; rfl
  | cache => simp only [setField, map_eq_ok_iff, cacheOf_eq_ok_iff]; rfl
  | importStyle => simp only [setField, map_eq_ok_iff, styleOf_eq_ok_iff]; rfl

/-- Different options are set to what their JSON values stand for, and all others stay. -/
theorem setFields_eq_ok_iff {o o' : Options} {pairs : List (Field × Json)}
    (hnodup : (pairs.map Prod.fst).Nodup) :
    o.setFields pairs = .ok o' ↔
      (∀ field json, (field, json) ∈ pairs → field.Denotes json (o'.get field)) ∧
        ∀ field, field ∉ pairs.map Prod.fst → o'.get field = o.get field := by
  induction pairs generalizing o with
  | nil =>
    simp only [setFields, Except.ok.injEq, List.not_mem_nil, false_implies, implies_true, true_and,
      List.map_nil, not_false_eq_true, true_implies]
    -- without items all options stay, and options are known by their values
    exact ⟨fun h _ => h ▸ rfl, fun h => ext_get fun field => (h field).symm⟩
  | cons pair pairs ih =>
    obtain ⟨first, json⟩ := pair
    rw [List.map_cons, List.nodup_cons] at hnodup
    -- so the options set later leave the first one alone
    obtain ⟨hfirst, hnodup⟩ := hnodup
    simp only [setFields, bind_eq_ok_iff, setField_eq_ok_iff, ih hnodup]
    constructor
    · rintro ⟨-, ⟨v, hv, rfl⟩, hset, hkept⟩
      -- what is set first is not touched again
      have hget : o'.get first = v := (hkept first hfirst).trans (get_set_self o first v)
      constructor
      · rintro field json' hmem
        obtain heq | hmem := List.mem_cons.1 hmem
        · cases heq
          rwa [hget]
        · exact hset field json' hmem
      · intro field hfield
        rw [List.map_cons, List.mem_cons, not_or] at hfield
        rw [hkept field hfield.2, get_set_of_ne o hfield.1]
    · rintro ⟨hset, hkept⟩
      -- the first option is set to what it has in the end
      refine ⟨_, ⟨o'.get first, hset first json List.mem_cons_self, rfl⟩, ?_, ?_⟩
      · intro field json' hmem
        exact hset field json' (List.mem_cons_of_mem _ hmem)
      · intro field hfield
        -- an option that is set nowhere is untouched by the first one and by all later ones
        by_cases hself : field = first
        · subst hself
          rw [get_set_self]
        · rw [get_set_of_ne o hself, hkept field]
          simp [hself, hfield]

end Preload.Options
