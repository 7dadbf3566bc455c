import Preload.Program.Json
import Preload.Proofs.Reader

/-!
# The forms of a program

A program has more than one JSON form. A record may have keys that it does not know, or be the array
of its fields, and what is left out of it may be null. The reader takes every form for the program
that it is a form of, and takes nothing else for a program.

Main statements:
* `Json.record_iff`: what the fields of a record hold, whichever way it is written;
* `Json.bind_record?_eq_some_iff`: a reader of records reads just what its fields admit;
* `Program.forms_read`: a program, and each of its parts, is read from all of its forms and from
  nothing else.
-/

namespace Preload

namespace Json

/-! ## Records -/

/-- A field of a record: its key and what may be there, where `none` stands for nothing at all. -/
structure Slot where
  key : String
  admits : Option Json → Prop

/-- A field that must be there. -/
def Slot.required (key : String) (form : Json → Prop) : Slot :=
  ⟨key, fun json? => ∃ json, json? = some json ∧ form json⟩

@[simp] theorem required_key {key : String} {form : Json → Prop} :
    (Slot.required key form).key = key := rfl

@[simp] theorem required_admits {key : String} {form : Json → Prop} {json? : Option Json} :
    (Slot.required key form).admits json? ↔ ∃ json, json? = some json ∧ form json := Iff.rfl

/-- The ways to write a record of these fields. -/
inductive Record (slots : List Slot) : Json → Prop
  /-- An object, in any order. What it has under other keys does not matter. -/
  | object {members : List (String × Json)}
      (h : ∀ slot ∈ slots, slot.admits (members.lookup slot.key)) : Record slots (.object members)
  /-- The array of the fields in order. Where it ends early the fields behind are not there. -/
  | array {items : List Json} (hlength : items.length ≤ slots.length)
      (h : ∀ i (hi : i < slots.length), slots[i].admits items[i]?) : Record slots (.array items)

theorem record_object_iff {slots : List Slot} {members : List (String × Json)} :
    Record slots (.object members) ↔ ∀ slot ∈ slots, slot.admits (members.lookup slot.key) :=
  ⟨fun | .object h => h, .object⟩

theorem record_array_iff {slots : List Slot} {items : List Json} :
    Record slots (.array items) ↔ items.length ≤ slots.length ∧
      ∀ i (hi : i < slots.length), slots[i].admits items[i]? :=
  ⟨fun | .array hlength h => ⟨hlength, h⟩, fun h => .array h.1 h.2⟩

/-- Behind the last item of an array nothing is there. -/
theorem getElem_append_replicate_none {items : List Json} {n i : Nat}
    (hi : i < (items.map some ++ List.replicate n none).length) :
    (items.map some ++ List.replicate n none)[i] = items[i]? := by
  -- within the array the item is there, and behind it the padding is
  by_cases h : i < items.length
  · simp [h]
  · rw [List.getElem_append_right (by simpa using h), List.getElem_replicate]
    simpa using Nat.le_of_not_lt h

/-- Reading the fields of a record gives for each of them what is admitted there. -/
theorem record_iff {slots : List Slot} {json : Json} :
    Record slots json ↔ ∃ values, json.record? (slots.map Slot.key) = some values ∧
      List.Forall₂ (fun slot value => slot.admits value) slots values := by
  cases json with
  | object members =>
    -- in an object each field is looked up by its key
    simp [record_object_iff, record?, List.forall₂_map_right_iff, List.forall₂_same]
  | array items =>
    by_cases hlength : items.length ≤ slots.length
    · -- the fields are read off the items, and off nothing behind the last of them
      have hpadded : items.length + (slots.length - items.length) = slots.length := by omega
      simp only [record_array_iff, record?, List.length_map, hlength, if_true, true_and,
        Option.some.injEq, exists_eq_left', List.forall₂_iff_get, List.length_append,
        List.length_replicate, hpadded, List.get_eq_getElem, getElem_append_replicate_none]
      exact ⟨fun h i hi _ => h i hi, fun h i hi => h i hi hi⟩
    · simp [record_array_iff, record?, hlength]
  -- nothing else is a record
  | _ => exact ⟨nofun, fun ⟨_, h, _⟩ => nomatch h⟩

/-- There are as many values as keys. -/
theorem length_of_record? {keys : List String} {json : Json} {values : List (Option Json)}
    (h : json.record? keys = some values) : values.length = keys.length := by
  cases json with
  | object members =>
    -- one look-up for each key
    obtain rfl := Option.some.inj h
    simp
  | array items =>
    -- an array is padded up to the number of keys, and a longer one is refused
    rw [record?] at h
    split at h
    · obtain rfl := Option.some.inj h
      simp
      omega
    · cases h
  | _ => cases h

/-- A reader that takes of the fields just what is admitted there takes just these records. -/
theorem bind_record?_eq_some_iff {α : Type} {slots : List Slot} {keys : List String}
    (hkeys : slots.map Slot.key = keys) {json : Json} {read : List (Option Json) → Option α} {a : α}
    (hread : ∀ values, values.length = slots.length →
      (read values = some a ↔ List.Forall₂ (fun slot value => slot.admits value) slots values)) :
    json.record? keys >>= read = some a ↔ Record slots json := by
  subst hkeys
  rw [Option.bind_eq_bind, Option.bind_eq_some_iff, record_iff]
  -- the values are the same on both sides, so it is what is done with them that matters
  apply exists_congr
  intro values
  apply and_congr_right
  intro hvalues
  apply hread
  simpa using length_of_record? hvalues

/-! ## Fields -/

/-- A number of at most `limit`. -/
def IsNat (limit n : Nat) (json : Json) : Prop :=
  json = .int n ∧ n ≤ limit

/-- The forms of a text that may be left out. -/
inductive OptionalText : Option String → Option Json → Prop
  | missing : OptionalText none none
  | null : OptionalText none (some .null)
  | text (s : String) : OptionalText (some s) (some (.string s))

attribute [simp] OptionalText.missing OptionalText.text

/-- An array with a form for each thing in turn. -/
inductive Items {α : Type} (form : α → Json → Prop) (as : List α) : Json → Prop
  | array {items : List Json} (h : List.Forall₂ form as items) : Items form as (.array items)

theorem items_map_iff {α : Type} {form : α → Json → Prop} {f : α → Json} {as : List α} :
    Items form as (.array (as.map f)) ↔ ∀ a ∈ as, form a (f a) := by
  have hitems : Items form as (.array (as.map f)) ↔ List.Forall₂ form as (as.map f) :=
    ⟨fun | .array h => h, .array⟩
  rw [hitems, List.forall₂_map_right_iff, List.forall₂_same]

theorem nat?_eq_some_iff {json : Json} {n : Nat} : json.nat? = some n ↔ json = .int n := by
  cases json with
  | int k =>
    -- a negative number is no natural one
    cases k with
    | ofNat k =>
      rw [nat?, Option.some.injEq, int.injEq]
      exact Int.ofNat_inj.symm
    | negSucc k => simp [nat?]
  | _ => simp [nat?]

theorem natUpTo?_eq_some_iff {limit n : Nat} {json? : Option Json} :
    natUpTo? limit json? = some n ↔ ∃ json, json? = some json ∧ IsNat limit n json := by
  cases json? with
  | none => simp [natUpTo?]
  | some json =>
    simp only [Option.some.injEq, exists_eq_left', IsNat, ← nat?_eq_some_iff, natUpTo?]
    cases json.nat? with
    | none => simp
    | some k =>
      by_cases hk : k ≤ limit
      · -- within the limit what is read is the number
        simp only [hk, if_true, Option.some.injEq]
        exact ⟨fun h => ⟨h, h ▸ hk⟩, fun h => h.1⟩
      · -- above the limit nothing is read
        simp only [hk, if_false, reduceCtorEq, Option.some.injEq, false_iff, not_and]
        exact fun h => h ▸ hk

theorem string?_eq_some_iff {json : Json} {s : String} :
    json.string? = some s ↔ json = .string s := by
  cases json <;> simp [string?]

theorem text?_eq_some_iff {json? : Option Json} {s : String} :
    text? json? = some s ↔ json? = some (.string s) := by
  cases json? with
  | none => simp [text?]
  | some json => simp [text?, string?_eq_some_iff]

theorem optionalText?_eq_some_iff {json? : Option Json} {text? : Option String} :
    optionalText? json? = some text? ↔ OptionalText text? json? := by
  constructor
  · intro h
    -- a text may be missing, null, or a text
    rw [optionalText?.eq_def] at h
    split at h
    all_goals cases h
    · exact .missing
    · exact .null
    · exact .text _
  · rintro (_ | _ | s) <;> rfl

/-- Where a reader takes just the forms of things, an array is taken just when each item is a
form. -/
theorem listOf?_eq_some_iff {α : Type} {read? : Json → Option α} {form : α → Json → Prop}
    (hread : ∀ json a, read? json = some a ↔ form a json) {json? : Option Json} {as : List α} :
    listOf? read? json? = some as ↔ ∃ json, json? = some json ∧ Items form as json := by
  have hitems (items : List Json) :
      List.Forall₂ (fun item a => read? item = some a) items as ↔ List.Forall₂ form as items := by
    simp only [hread]
    exact ⟨List.Forall₂.flip, List.Forall₂.flip⟩
  constructor
  · intro h
    rw [listOf?.eq_def] at h
    -- an array is read item by item, and nothing else is read
    split at h
    · next items =>
      exact ⟨_, rfl, .array ((hitems items).1 (mapM_eq_some_iff.1 h))⟩
    · cases h
  · rintro ⟨_, rfl, hform⟩
    obtain ⟨hform⟩ := hform
    -- what is read of each item is what it is a form of
    exact mapM_eq_some_iff.2 ((hitems _).2 hform)

end Json

/-! ## The forms of each part -/

namespace Span

/-- The forms of a span. -/
def Form (s : Span) : Json → Prop :=
  Json.Record [.required "start" (Json.IsNat limit s.start),
    .required "end" (Json.IsNat limit s.stop)]

/-- Whether both places are numbers of 64 bits. -/
def InRange (s : Span) : Prop :=
  s.start ≤ limit ∧ s.stop ≤ limit

theorem ofJson?_iff {json : Json} {s : Span} : ofJson? json = some s ↔ s.Form json := by
  rw [ofJson?, Form]
  apply Json.bind_record?_eq_some_iff
  · rfl
  intro values hlength
  -- two fields, each a number of 64 bits
  obtain ⟨start, stop, rfl⟩ := List.length_eq_two.1 hlength
  obtain ⟨a, b⟩ := s
  simp [← Json.natUpTo?_eq_some_iff, Option.bind_eq_some_iff]

theorem form_toJson_iff {s : Span} : s.Form s.toJson ↔ s.InRange := by
  rw [Form, toJson, Json.record_object_iff]
  simp [Json.IsNat, InRange, List.lookup_cons]

end Span

namespace Hoist

/-- The name of a mark that has no number. -/
def name? : Hoist → Option String
  | standard => some "Default"
  | priority _ => none
  | hoisted => some "Hoisted"

/-- The forms of a hoist mark. -/
inductive Form : Hoist → Json → Prop
  | name {h : Hoist} {name : String} (hname : h.name? = some name) : Form h (.string name)
  /-- A name may be the only key of an object. -/
  | key {h : Hoist} {name : String} (hname : h.name? = some name) :
      Form h (.object [(name, .null)])
  | priority (n : UInt32) : Form (.priority n) (.object [("Priority", .int n.toNat)])

theorem ofName?_iff {name : String} {h : Hoist} : ofName? name = some h ↔ h.name? = some name := by
  rw [ofName?]
  split
  · -- one name stands for each mark without a number
    next hname => cases h <;> simp [name?, hname]
  · next hdefault =>
    split
    · next hname => cases h <;> simp [name?, hname]
    · next hhoisted => cases h <;> simp [name?, Ne.symm hdefault, Ne.symm hhoisted]

/-- A rank is a number of 32 bits. -/
theorem map_priority_eq_some_iff {json : Json} {h : Hoist} :
    ((Json.natUpTo? 4294967295 (some json)).map fun n => priority (UInt32.ofNat n)) = some h ↔
      ∃ n : UInt32, json = .int n.toNat ∧ priority n = h := by
  simp only [Option.map_eq_some_iff, Json.natUpTo?_eq_some_iff, Option.some.injEq,
    exists_eq_left', Json.IsNat]
  constructor
  · -- within 32 bits a number is its own rank
    rintro ⟨n, ⟨rfl, hn⟩, rfl⟩
    have hlt : n < UInt32.size := Nat.lt_succ_of_le hn
    exact ⟨UInt32.ofNat n, by rw [UInt32.toNat_ofNat_of_lt' hlt], rfl⟩
  · rintro ⟨n, rfl, rfl⟩
    exact ⟨n.toNat, ⟨rfl, Nat.le_of_lt_succ n.toNat_lt⟩, by rw [UInt32.ofNat_toNat]⟩

theorem ofJson?_iff {json : Json} {h : Hoist} : ofJson? json = some h ↔ h.Form json := by
  constructor
  · intro hread
    rw [ofJson?.eq_def] at hread
    -- a name alone, a rank under its key, a name as a key, or none of them
    split at hread
    · exact .name (ofName?_iff.1 hread)
    · obtain ⟨n, rfl, rfl⟩ := map_priority_eq_some_iff.1 hread
      exact .priority n
    · exact .key (ofName?_iff.1 hread)
    · cases hread
  · rintro (hname | hname | n)
    · exact ofName?_iff.2 hname
    · -- one of the marks with a name, as the key of a null
      cases h <;> cases hname <;> rfl
    · exact map_priority_eq_some_iff.2 ⟨n, rfl, rfl⟩

@[simp] theorem form_toJson (h : Hoist) : h.Form h.toJson := by
  cases h with
  | standard => exact .name rfl
  | priority n => exact .priority n
  | hoisted => exact .name rfl

end Hoist

namespace StatementKind

/-- The forms of a statement kind. -/
inductive Form : StatementKind → Json → Prop
  /-- The object of the specifier may have other keys, and is no record: the array of the specifier
  is none of its forms. -/
  | load {style : ImportStyle} {specifier : String} {members : List (String × Json)}
      (h : members.lookup "specifier" = some (.string specifier)) :
      Form (.load style specifier) (.object [(loadName style, .object members)])
  | other (text : String) : Form (.other text) (.object [("Other", .string text)])

theorem ofLoad?_eq_some_iff {style : ImportStyle} {json : Json} {kind : StatementKind} :
    ofLoad? style json = some kind ↔ ∃ specifier, ∃ members, json = .object members ∧
      members.lookup "specifier" = some (.string specifier) ∧ kind = .load style specifier := by
  simp only [ofLoad?, Option.map_eq_some_iff, Json.text?_eq_some_iff]
  cases json <;> simp [Json.field?, eq_comm]

theorem ofJson?_iff {json : Json} {kind : StatementKind} :
    ofJson? json = some kind ↔ kind.Form json := by
  constructor
  · intro hread
    rw [ofJson?.eq_def] at hread
    split at hread
    · -- both keys for modules are read alike
      obtain ⟨specifier, members, rfl, hmember, rfl⟩ := ofLoad?_eq_some_iff.1 hread
      exact .load hmember
    · obtain ⟨specifier, members, rfl, hmember, rfl⟩ := ofLoad?_eq_some_iff.1 hread
      exact .load hmember
    · -- any other text must be a string
      next json =>
      cases json <;> cases hread
      exact .other _
    · cases hread
  · rintro (@⟨style, specifier, members, hmember⟩ | text)
    · have hload : ofLoad? style (.object members) = some (.load style specifier) :=
        ofLoad?_eq_some_iff.2 ⟨specifier, members, rfl, hmember, rfl⟩
      cases style <;> exact hload
    · rfl

@[simp] theorem form_toJson (kind : StatementKind) : kind.Form kind.toJson := by
  cases kind with
  | load style specifier => exact .load rfl
  | other text => exact .other text

end StatementKind

namespace Statement

/-- The forms of a statement. -/
def Form (s : Statement) : Json → Prop :=
  Json.Record [.required "kind" s.kind.Form, .required "span" s.span.Form,
    .required "block_hoist" s.hoist.Form, ⟨"raw", Json.OptionalText s.raw⟩]

theorem ofJson?_iff {json : Json} {s : Statement} : ofJson? json = some s ↔ s.Form json := by
  rw [ofJson?, Form]
  apply Json.bind_record?_eq_some_iff
  · rfl
  intro values hlength
  -- four fields, and the last one may be missing
  obtain ⟨kind, span, hoist, raw, rfl⟩ := List.length_eq_four.1 hlength
  obtain ⟨skind, sspan, shoist, sraw⟩ := s
  -- without a kind, a span or a mark nothing is read and nothing is admitted
  cases kind
  case none => simp
  cases span
  case none => simp
  cases hoist
  case none => simp
  simp [← StatementKind.ofJson?_iff, ← Span.ofJson?_iff, ← Hoist.ofJson?_iff,
    ← Json.optionalText?_eq_some_iff, Option.bind_eq_some_iff]

theorem form_toJson_iff {s : Statement} : s.Form s.toJson ↔ s.span.InRange := by
  rw [← Span.form_toJson_iff, Form, toJson, Json.record_object_iff]
  obtain ⟨kind, span, hoist, raw⟩ := s
  -- the text is written only if there is one
  cases raw <;> simp [Json.optionalMember, List.lookup_cons]

end Statement

namespace Directive

/-- The forms of the comments of a directive. -/
inductive CommentsForm : List String → Option Json → Prop
  | missing : CommentsForm [] none
  | array (comments : List String) : CommentsForm comments (some (.array (comments.map .string)))

/-- The forms of a directive. -/
def Form (d : Directive) : Json → Prop :=
  Json.Record [.required "value" (· = .string d.value), .required "span" d.span.Form,
    ⟨"raw", Json.OptionalText d.raw⟩, ⟨"leading_comments", CommentsForm d.leadingComments⟩]

theorem comments?_eq_some_iff {json? : Option Json} {comments : List String} :
    comments? json? = some comments ↔ CommentsForm comments json? := by
  have hitems (items : List Json) :
      items.mapM Json.string? = some comments ↔ items = comments.map .string := by
    simp only [mapM_eq_some_iff, Json.string?_eq_some_iff]
    rw [← List.forall₂_map_right_iff (f := Json.string), List.forall₂_eq_eq_eq]
  constructor
  · intro h
    rw [comments?.eq_def] at h
    -- comments may be missing, which is an empty list, but not null
    split at h
    · cases h
      exact .missing
    · next json? =>
      rw [Json.listOf?.eq_def] at h
      split at h
      · rw [(hitems _).1 h]
        exact .array comments
      · cases h
  · rintro (_ | _)
    · rfl
    · exact (hitems _).2 rfl

theorem ofJson?_iff {json : Json} {d : Directive} : ofJson? json = some d ↔ d.Form json := by
  rw [ofJson?, Form]
  apply Json.bind_record?_eq_some_iff
  · rfl
  intro values hlength
  -- four fields, of which two may be missing
  obtain ⟨value, span, raw, comments, rfl⟩ := List.length_eq_four.1 hlength
  obtain ⟨dvalue, dspan, draw, dcomments⟩ := d
  -- without a span nothing is read and nothing is admitted
  cases span
  case none => simp
  simp [← Json.text?_eq_some_iff, ← Span.ofJson?_iff,
    ← Json.optionalText?_eq_some_iff, ← comments?_eq_some_iff, Option.bind_eq_some_iff]

theorem form_toJson_iff {d : Directive} : d.Form d.toJson ↔ d.span.InRange := by
  rw [← Span.form_toJson_iff, Form, toJson, Json.record_object_iff]
  obtain ⟨value, span, raw, comments⟩ := d
  -- comments are written only where there are some
  cases comments with
  | nil =>
    cases raw <;> simp [Json.optionalMember, List.lookup_cons, CommentsForm.missing]
  | cons comment comments =>
    have hcomments := CommentsForm.array (comment :: comments)
    cases raw <;> simpa [Json.optionalMember, List.lookup_cons] using fun _ => hcomments

end Directive

namespace Program

/-- The forms of a program. -/
def Form (p : Program) : Json → Prop :=
  Json.Record [⟨"shebang", Json.OptionalText p.shebang⟩,
    .required "directives" (Json.Items Directive.Form p.directives),
    .required "body" (Json.Items Statement.Form p.body)]

theorem ofJson?_iff {json : Json} {p : Program} : ofJson? json = some p ↔ p.Form json := by
  rw [ofJson?, Form]
  apply Json.bind_record?_eq_some_iff
  · rfl
  intro values hlength
  -- three fields, and the first one may be missing
  obtain ⟨shebang, directives, body, rfl⟩ := List.length_eq_three.1 hlength
  obtain ⟨pshebang, pdirectives, pbody⟩ := p
  -- the items of both lists are read one by one
  have hdirectives := @Json.listOf?_eq_some_iff _ _ _ (@Directive.ofJson?_iff)
  have hbody := @Json.listOf?_eq_some_iff _ _ _ (@Statement.ofJson?_iff)
  simp [← Json.optionalText?_eq_some_iff, ← hdirectives, ← hbody,
    Option.bind_eq_some_iff]

/-- Whether all places are numbers of 64 bits. -/
def InRange (p : Program) : Prop :=
  (∀ d ∈ p.directives, d.span.InRange) ∧ ∀ s ∈ p.body, s.span.InRange

theorem form_toJson_iff {p : Program} : p.Form p.toJson ↔ p.InRange := by
  rw [Form, toJson, Json.record_object_iff]
  obtain ⟨shebang, directives, body⟩ := p
  -- the line in front is written only if there is one
  cases shebang <;> simp [Json.optionalMember, List.lookup_cons, Json.items_map_iff,
    Directive.form_toJson_iff, Statement.form_toJson_iff, InRange]

/-! ## Reading all forms -/

/-- What is written of a program is read back, for any places of 64 bits, and so is what is written
of a directive, a statement or a hoist mark by itself. A program is read from just its forms:
records may have keys that are not known or be the arrays of their fields, and so on for each of its
parts. The object in a statement that loads a module is not among these records: the array of its
specifier is not read. -/
theorem forms_read :
    (∀ p : Program, p.InRange → ofJson? p.toJson = some p) ∧
    (∀ d : Directive, d.span.InRange → Directive.ofJson? d.toJson = some d) ∧
    (∀ s : Statement, s.span.InRange → Statement.ofJson? s.toJson = some s) ∧
    (∀ h : Hoist, Hoist.ofJson? h.toJson = some h) ∧
    (∀ (p : Program) json, ofJson? json = some p ↔ p.Form json) ∧
    (∀ (d : Directive) json, Directive.ofJson? json = some d ↔ d.Form json) ∧
    (∀ (s : Statement) json, Statement.ofJson? json = some s ↔ s.Form json) ∧
    (∀ (h : Hoist) json, Hoist.ofJson? json = some h ↔ h.Form json) ∧
    ∀ style items,
      StatementKind.ofJson? (.object [(StatementKind.loadName style, .array items)]) = none := by
  refine ⟨?_, ?_, ?_, ?_, fun _ _ => ofJson?_iff, fun _ _ => Directive.ofJson?_iff,
    fun _ _ => Statement.ofJson?_iff, fun _ _ => Hoist.ofJson?_iff, ?_⟩
  -- what is written is one of the forms
  · intro p hp
    exact ofJson?_iff.2 (form_toJson_iff.2 hp)
  · intro d hd
    exact Directive.ofJson?_iff.2 (Directive.form_toJson_iff.2 hd)
  · intro s hs
    exact Statement.ofJson?_iff.2 (Statement.form_toJson_iff.2 hs)
  · intro h
    exact Hoist.ofJson?_iff.2 h.form_toJson
  -- the array of a specifier is none
  · intro style items
    cases style <;> rfl

/-- A program as the array of its fields, with a span as an array, a mark as an object and a key
that is not known, is a form of it. -/
theorem forms_read_of_arrays :
    let p : Program :=
      ⟨none, [], [⟨.load .importDecl "", ⟨0, 18446744073709551615⟩, .hoisted, none⟩]⟩
    p.InRange ∧ ofJson? p.toJson = some p ∧
      p.Form (.array [.null, .array [], .array [.object [
        ("block_hoist", .object [("Hoisted", .null)]), ("note", .array []),
        ("span", .array [.int 0, .int 18446744073709551615]),
        ("kind", .object [("Import", .object [("x", .null), ("specifier", .string "")])])]]]) := by
  intro p
  -- both places are the greatest number or less
  have hrange : p.InRange := by
    simp [p, InRange, Span.InRange, Span.limit]
  obtain ⟨hwritten, _, _, _, hforms, _⟩ := forms_read
  exact ⟨hrange, hwritten p hrange, (hforms p _).1 rfl⟩

/-- The array of a specifier in the place of its object is refused. -/
theorem not_read_of_specifier_array :
    let p := Program.ofBody [Statement.load .requireCall "./b.js"]
    let written (content : Json) : Json :=
      .object [("directives", .array []), ("body", .array [.object [
        ("kind", .object [("Require", content)]),
        ("span", .object [("start", .int 0), ("end", .int 0)]),
        ("block_hoist", .string "Default")]])]
    p.toJson = written (.object [("specifier", .string "./b.js")]) ∧
      ofJson? (written (.object [("specifier", .string "./b.js")])) = some p ∧
      ofJson? (written (.array [.string "./b.js"])) = none := by
  intro p written
  -- all three are computed
  exact ⟨rfl, rfl, rfl⟩

end Program

end Preload
