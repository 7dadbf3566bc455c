import Preload.Json.Doc
import Preload.Proofs.Reader

/-!
# What is in a document

A document keeps two answers for each lexeme: what it is read as, and what a reader meets who only
skips it. In a document that comes from a text (`Json.Doc.Sound`), what can be read can be skipped,
and only strings, arrays and objects are more than a number or a word.

Main statements:
* `Json.Doc.sound_ofText`: documents of texts are sound;
* `Json.Doc.read_array_eq_ok_iff` and `Json.Doc.read_object_eq_ok_iff`: what an array and an object
  are read as;
* `Json.Doc.Sound.skipFault_of_read`: what can be read can be skipped.
-/

namespace Preload.Json

/-! ## Lexemes -/

/-- Whether what can be read can be skipped. -/
def Reading.Sound {α : Type} (r : Reading α) : Prop :=
  ∀ a, r.value = .ok a → r.skipFault = none

/-- Whether a value is a number or a word. -/
def IsPlain : Json → Prop
  | .null | .bool _ | .int _ | .float _ => True
  | .string _ | .array _ | .object _ => False

/-- Whether a lexeme is one that is found in texts. -/
def Lexeme.Sound : Lexeme → Prop
  | .text reading => reading.Sound
  | .plain reading => reading.Sound ∧ ∀ json, reading.value = .ok json → json.IsPlain
  | _ => True

theorem Reading.sound_ofValue {α : Type} (a : α) : (Reading.ofValue a).Sound :=
  fun _ _ => rfl

theorem Reading.sound_error {α : Type} (f : Fault) (skipFault : Option Fault) :
    (⟨.error f, skipFault⟩ : Reading α).Sound := by
  intro a h
  cases h

namespace Lexeme

theorem sound_plain_error (f : Fault) (skipFault : Option Fault) :
    (plain ⟨.error f, skipFault⟩).Sound :=
  ⟨Reading.sound_error f skipFault, fun _ h => nomatch h⟩

theorem sound_plain_ofValue {json : Json} (h : json.IsPlain) : (plain (.ofValue json)).Sound := by
  refine ⟨Reading.sound_ofValue json, fun found hfound => ?_⟩
  cases hfound
  exact h

end Lexeme

/-- A string that is stopped by a fault is no text. -/
theorem joinPieces_ne_ok (f : Fault) (ps : List Piece) (cs : List Char) :
    joinPieces (some f) ps ≠ .ok cs := by
  -- each piece that is joined leaves the fault behind it, so the rest would have to be a text
  fun_induction joinPieces (some f) ps generalizing cs with
  | case1 hnone => cases hnone
  | case2 | case4 | case6 | case7 | case8 => simp
  | case3 c ps ih =>
    intro h
    obtain ⟨ds, hds, -⟩ := map_eq_ok_iff.1 h
    exact ih ds hds
  | case5 n htrail hlead m ps hm ih =>
    intro h
    obtain ⟨ds, hds, -⟩ := map_eq_ok_iff.1 h
    exact ih ds hds
  | case9 n ps htrail hlead ih =>
    intro h
    obtain ⟨ds, hds, -⟩ := map_eq_ok_iff.1 h
    exact ih ds hds

theorem sound_stringLexeme (cs : List Char) : (stringLexeme cs).1.Sound := by
  unfold stringLexeme
  split
  · exact fun _ _ => rfl
  · -- a string that is stopped by a fault has pieces, but no text
    next ps f _ =>
    intro s h
    obtain ⟨ds, hds, -⟩ := map_eq_ok_iff.1 h
    exact absurd hds (joinPieces_ne_ok f ps ds)

theorem sound_numeralLexeme (n : Numeral) : (numeralLexeme n).Sound := by
  -- whole numbers, doubles, and what is beyond them
  unfold numeralLexeme Numeral.value?
  cases n.toInt? with
  | some i => exact Lexeme.sound_plain_ofValue trivial
  | none =>
    cases n.toDouble? with
    | some d => exact Lexeme.sound_plain_ofValue trivial
    | none => exact Lexeme.sound_plain_error _ _

theorem sound_exponentLexeme (negative : Bool) (whole : List Nat) (fraction : Option (List Nat))
    (cs : List Char) : (exponentLexeme negative whole fraction cs).1.Sound := by
  unfold exponentLexeme
  split
  · exact sound_numeralLexeme _
  · dsimp only
    split
    · -- a sign may stand in front of the exponent, or digits are missing
      split
      · exact Lexeme.sound_plain_error _ _
      · exact sound_numeralLexeme _
    · exact sound_numeralLexeme _

theorem sound_numberLexeme (negative : Bool) (cs : List Char) :
    (numberLexeme negative cs).1.Sound := by
  unfold numberLexeme fractionLexeme
  dsimp only
  -- a sign, a zero in front, digits, and perhaps a point with digits behind it
  split
  · exact Lexeme.sound_plain_error _ _
  split
  · exact Lexeme.sound_plain_error _ _
  split
  · split
    · exact Lexeme.sound_plain_error _ _
    · exact sound_exponentLexeme ..
  · exact sound_exponentLexeme ..

theorem sound_wordLexeme {value : Json} (h : value.IsPlain) (letters cs : List Char) :
    (wordLexeme value letters cs).1.Sound := by
  -- letter by letter, up to the last one or the first that differs
  fun_induction wordLexeme value letters cs with
  | case1 => exact Lexeme.sound_plain_ofValue h
  | case2 => exact Lexeme.sound_plain_error _ _
  | case3 l ls cs ih => exact ih
  | case4 => exact Lexeme.sound_plain_error _ _

theorem isPlain_of_word? {c : Char} {value : Json} {letters : List Char}
    (h : word? c = some (value, letters)) : value.IsPlain := by
  unfold word? at h
  -- there are three words, and none of them is text or has parts
  split_ifs at h
  all_goals
    cases h
    trivial

theorem sound_firstLexeme (c : Char) (cs : List Char) : (firstLexeme c cs).1.Sound := by
  unfold firstLexeme
  split
  · -- marks, words, strings, and numbers with a sign or without
    next l _ hmark =>
    unfold mark? at hmark
    split_ifs at hmark
    all_goals
      cases hmark
      trivial
  · next hword => exact sound_wordLexeme (isPlain_of_word? hword) _ _
  split
  · exact sound_stringLexeme cs
  split
  · exact sound_numberLexeme true cs
  split
  · exact sound_numberLexeme false (c :: cs)
  · exact Lexeme.sound_plain_error _ _

/-- In a text there are none but sound lexemes. -/
theorem sound_of_mem_lexemes {cs : List Char} {l : Lexeme} (h : l ∈ lexemes cs) : l.Sound := by
  fun_induction lexemes cs with
  | case1 => cases h
  | case2 cs c code hcode step ih =>
    -- the first lexeme, or one of those behind it
    obtain rfl | hmem := List.mem_cons.1 h
    · exact sound_firstLexeme c code
    · split at hmem
      · exact ih hmem
      · cases hmem

/-! ## Documents -/

/-- Whether a key is one that is found in texts. -/
def Key.Sound : Key → Prop
  | .name reading => reading.Sound
  | .other _ _ => True

/-- Whether a document is one that is found in texts. -/
inductive Doc.Sound : Doc → Prop
  | text {reading : Reading String} (hreading : reading.Sound) : Sound (.text reading)
  | plain {reading : Reading Json} (hreading : reading.Sound)
      (hplain : ∀ json, reading.value = .ok json → json.IsPlain) : Sound (.plain reading)
  | absent (fault : Fault) : Sound (.absent fault)
  | array {items : List Doc} (hitems : ∀ item ∈ items, Sound item) (close : Option Fault) :
      Sound (.array items close)
  | object {members : List (Key × Doc)} (hkeys : ∀ m ∈ members, m.1.Sound)
      (hvalues : ∀ m ∈ members, Sound m.2) (close : Option Fault) : Sound (.object members close)

namespace Doc

section Reading

/-- Whether lexemes are found in texts. -/
def AllSound (ls : List Lexeme) : Prop :=
  ∀ l ∈ ls, l.Sound

/-- Whether a value is found in texts, and what follows it as well. -/
def SoundValue {n : Nat} (step : Step Doc n) : Prop :=
  step.result.Sound ∧ AllSound step.rest

/-- Whether items are found in texts, and what follows them as well. -/
def SoundItems {n : Nat} (step : Step (Series Doc) n) : Prop :=
  (∀ item ∈ step.result.1, item.Sound) ∧ AllSound step.rest

/-- Whether members are found in texts, and what follows them as well. -/
def SoundMembers {n : Nat} (step : Step (Series (Key × Doc)) n) : Prop :=
  (∀ m ∈ step.result.1, m.1.Sound ∧ m.2.Sound) ∧ AllSound step.rest

theorem allSound_cons {l : Lexeme} {ls : List Lexeme} :
    AllSound (l :: ls) ↔ l.Sound ∧ AllSound ls :=
  List.forall_mem_cons

theorem allSound_nil : AllSound [] := by simp [AllSound]

theorem SoundItems.cons {n m bound : Nat} {item : Doc} {more : Step (Series Doc) n}
    (hitem : item.Sound) (hmore : SoundItems more) (hn : n ≤ m) (hm : m ≤ bound) :
    SoundItems (more.cons item hn hm) :=
  ⟨List.forall_mem_cons.2 ⟨hitem, hmore.1⟩, hmore.2⟩

theorem SoundMembers.cons {n m bound : Nat} {key : Key} {value : Doc}
    {more : Step (Series (Key × Doc)) n} (hkey : key.Sound) (hvalue : value.Sound)
    (hmore : SoundMembers more) (hn : n ≤ m) (hm : m ≤ bound) :
    SoundMembers (more.cons (key, value) hn hm) :=
  ⟨List.forall_mem_cons.2 ⟨⟨hkey, hvalue⟩, hmore.1⟩, hmore.2⟩

/-- A member without a value is the last one. -/
theorem soundMembers_last {key : Key} (hkey : key.Sound) (fault : Fault) {n : Nat} {h : 0 ≤ n} :
    SoundMembers ⟨([(key, .absent fault)], none), [], h⟩ :=
  ⟨by simpa using ⟨hkey, .absent fault⟩, allSound_nil⟩

/-- Sound lexemes make up sound documents. -/
theorem sound_read :
    (∀ l ls, l.Sound → AllSound ls → SoundValue (readValue l ls)) ∧
      (∀ ls, AllSound ls → SoundMembers (readMembers ls)) ∧
      (∀ l ls, l.Sound → AllSound ls → SoundMembers (readMember l ls)) ∧
      (∀ ls, AllSound ls → SoundMembers (readMoreMembers ls)) ∧
      (∀ ls, AllSound ls → SoundItems (readItems ls)) ∧
      ∀ ls, AllSound ls → SoundItems (readMoreItems ls) := by
  -- one case for each way that the six readers can go on
  apply readValue.mutual_induct
  -- a value, by the lexeme that it opens with
  · intro ls reading hl hls
    simp only [readValue]
    exact ⟨.text hl, hls⟩
  · intro ls reading hl hls
    simp only [readValue]
    exact ⟨.plain hl.1 hl.2, hls⟩
  · -- an array is sound if its items are
    intro ls items close rest hrest heq ih _ hls
    have hitems := ih hls
    simp only [readValue, heq] at hitems ⊢
    exact ⟨.array hitems.1 close, hitems.2⟩
  · -- an object is sound if its keys and its values are
    intro ls members close rest hrest heq ih _ hls
    have hmembers := ih hls
    simp only [readValue, heq] at hmembers ⊢
    exact ⟨.object (fun m hm => (hmembers.1 m hm).1) (fun m hm => (hmembers.1 m hm).2) close,
      hmembers.2⟩
  iterate 4
    · intro ls _ hls
      simp only [readValue]
      exact ⟨.absent _, hls⟩
  -- members after the opening brace
  · intro _
    simp [readMembers, SoundMembers, allSound_nil]
  · intro ls hls
    simp only [readMembers]
    exact ⟨by simp, (allSound_cons.1 hls).2⟩
  · -- the first member opens with a lexeme that is not the closing brace
    intro l ls hopen members rest hrest heq ih hls
    obtain ⟨hl, hls⟩ := allSound_cons.1 hls
    have hmembers := ih hl hls
    rw [readMembers.eq_3 l ls hopen]
    simp only [heq] at hmembers ⊢
    exact hmembers
  -- one member
  · intro reading l ls item rest hrest heq ihvalue ihmore hreading hls
    obtain ⟨hl, hls⟩ := allSound_cons.1 (allSound_cons.1 hls).2
    have hvalue := ihvalue hl hls
    have hkey : (Key.name reading).Sound := hreading
    rw [readMember]
    -- the value that was read is the one that the case is about
    split
    next hfound =>
      cases heq.symm.trans hfound
      rw [heq] at hvalue
      exact .cons hkey hvalue.1 (ihmore hvalue.2) _ _
  · intro reading hreading _
    simp only [readMember]
    apply soundMembers_last
    exact hreading
  · intro reading hreading _
    simp only [readMember]
    apply soundMembers_last
    exact hreading
  · intro ls reading hcolon hnil hlast hreading _
    rw [readMember.eq_4 ls reading hcolon hnil hlast]
    apply soundMembers_last
    exact hreading
  · intro ls l htext hcolon hnil hlast _ _
    rw [readMember.eq_5 l ls htext hcolon hnil hlast]
    apply soundMembers_last
    trivial
  -- members after another one
  · intro _
    simp [readMoreMembers, SoundMembers, allSound_nil]
  · intro ls hls
    simp only [readMoreMembers]
    exact ⟨by simp, (allSound_cons.1 hls).2⟩
  · intro _
    simp only [readMoreMembers]
    apply soundMembers_last
    trivial
  · -- a comma and another member
    intro l ls members rest hrest heq ih hls
    obtain ⟨hl, hls⟩ := allSound_cons.1 (allSound_cons.1 hls).2
    have hmembers := ih hl hls
    simp only [readMoreMembers, heq] at hmembers ⊢
    exact hmembers
  · intro l ls hclose hlast hcomma _
    rw [readMoreMembers.eq_5 l ls hclose hlast hcomma]
    exact ⟨by simp, allSound_nil⟩
  -- items after the opening bracket
  · intro _
    simp [readItems, SoundItems, allSound_nil]
  · intro ls hls
    simp only [readItems]
    exact ⟨by simp, (allSound_cons.1 hls).2⟩
  · intro l ls hopen item rest hrest heq ihvalue ihmore hls
    obtain ⟨hl, hls⟩ := allSound_cons.1 hls
    have hvalue := ihvalue hl hls
    rw [readItems.eq_3 l ls hopen]
    -- the value is read first, and the other items behind it
    split
    next hfound =>
      cases heq.symm.trans hfound
      rw [heq] at hvalue
      exact .cons hvalue.1 (ihmore hvalue.2) _ _
  -- items after another one
  · intro _
    simp [readMoreItems, SoundItems, allSound_nil]
  · intro ls hls
    simp only [readMoreItems]
    exact ⟨by simp, (allSound_cons.1 hls).2⟩
  · intro _
    simp only [readMoreItems]
    exact ⟨by simpa using Sound.absent _, allSound_nil⟩
  · -- a comma and another item
    intro l ls item rest hrest heq ihvalue ihmore hls
    obtain ⟨hl, hls⟩ := allSound_cons.1 (allSound_cons.1 hls).2
    have hvalue := ihvalue hl hls
    rw [readMoreItems]
    split
    next hfound =>
      cases heq.symm.trans hfound
      rw [heq] at hvalue
      exact .cons hvalue.1 (ihmore hvalue.2) _ _
  · intro l ls hclose hlast hcomma _
    rw [readMoreItems.eq_5 l ls hclose hlast hcomma]
    exact ⟨by simp, allSound_nil⟩

end Reading

/-- Documents of texts are sound. -/
theorem sound_ofText (cs : List Char) : (ofText cs).doc.Sound := by
  -- the lexemes of the text are all that reading starts from
  have hlexemes : AllSound (lexemes cs) := fun _ => sound_of_mem_lexemes
  unfold ofText
  split
  · exact .absent _
  · next l ls heq =>
    rw [heq, allSound_cons] at hlexemes
    exact (sound_read.1 l ls hlexemes.1 hlexemes.2).1

/-! ## What documents are read as -/

theorem ended_eq_ok_iff {α : Type} {a b : α} {close : Option Fault} :
    ended a close = .ok b ↔ close = none ∧ a = b := by
  cases close <;> simp [ended]

theorem readAll_eq_mapM (items : List Doc) : readAll items = items.mapM read := by
  induction items with
  | nil => rfl
  | cons d ds ih =>
    -- reading in order stops at the first item that cannot be read
    rw [readAll, ih, List.mapM_cons]
    rfl

theorem readAll_eq_ok_iff {items : List Doc} {jsons : List Json} :
    readAll items = .ok jsons ↔ List.Forall₂ (fun d json => d.read = .ok json) items jsons := by
  rw [readAll_eq_mapM, mapM_eq_ok_iff]

/-- Whether a member is read as a key with a value. -/
def IsRead (m : Key × Doc) (named : String × Json) : Prop :=
  m.1.read = .ok named.1 ∧ m.2.read = .ok named.2

theorem readNamed_eq_ok_iff {members : List (Key × Doc)} {ms : List (String × Json)} :
    readNamed members = .ok ms ↔ List.Forall₂ IsRead members ms := by
  induction members generalizing ms with
  | nil => simp [readNamed, eq_comm]
  | cons m members ih =>
    rw [readNamed, bind_eq_ok_iff, List.forall₂_cons_left_iff]
    -- key and value of the first member, then all other members
    simp only [bind_eq_ok_iff, ih]
    constructor
    · rintro ⟨key, hkey, json, hjson, ms, hms, h⟩
      exact ⟨(key, json), ms, ⟨hkey, hjson⟩, hms, (Except.ok.inj h).symm⟩
    · rintro ⟨named, ms, ⟨hkey, hjson⟩, hms, rfl⟩
      exact ⟨named.1, hkey, named.2, hjson, ms, hms, rfl⟩

/-- An array is read item by item, if it is closed. -/
theorem read_array_eq_ok_iff {items : List Doc} {close : Option Fault} {json : Json} :
    read (.array items close) = .ok json ↔
      close = none ∧
        ∃ jsons, List.Forall₂ (fun d json => d.read = .ok json) items jsons ∧
          json = .array jsons := by
  simp only [read, bind_eq_ok_iff, readAll_eq_ok_iff, ended_eq_ok_iff]
  constructor
  · -- the items are read whether the array is closed or not, and then its end counts
    rintro ⟨jsons, hjsons, hclose, rfl⟩
    exact ⟨hclose, jsons, hjsons, rfl⟩
  · rintro ⟨hclose, jsons, hjsons, rfl⟩
    exact ⟨jsons, hjsons, hclose, rfl⟩

/-- An object is read member by member, if it is closed. -/
theorem read_object_eq_ok_iff {members : List (Key × Doc)} {close : Option Fault} {json : Json} :
    read (.object members close) = .ok json ↔
      close = none ∧ ∃ ms, List.Forall₂ IsRead members ms ∧ json = .ofMembers ms := by
  simp only [read, bind_eq_ok_iff, readNamed_eq_ok_iff, ended_eq_ok_iff]
  constructor
  · -- the members are read whether the object is closed or not
    rintro ⟨ms, hms, hclose, rfl⟩
    exact ⟨hclose, ms, hms, rfl⟩
  · rintro ⟨hclose, ms, hms, rfl⟩
    exact ⟨ms, hms, hclose, rfl⟩

/-! ## Skipping documents -/

theorem itemsSkipFault_eq_none {items : List Doc} (h : ∀ item ∈ items, item.skipFault = none) :
    itemsSkipFault items = none := by
  induction items with
  | nil => rfl
  | cons d ds ih =>
    -- what is skipped is looked at item by item, up to the first fault
    obtain ⟨hd, hds⟩ := List.forall_mem_cons.1 h
    rw [itemsSkipFault, hd, ih hds, Option.none_or]

theorem membersSkipFault_eq_none {members : List (Key × Doc)}
    (h : ∀ m ∈ members, m.1.skipFault = none ∧ m.2.skipFault = none) :
    membersSkipFault members = none := by
  induction members with
  | nil => rfl
  | cons m members ih =>
    obtain ⟨⟨hkey, hvalue⟩, hmembers⟩ := List.forall_mem_cons.1 h
    rw [membersSkipFault, hkey, hvalue, ih hmembers, Option.none_or, Option.none_or]

end Doc

theorem Key.Sound.skipFault_of_read {key : Key} (h : key.Sound) {name : String}
    (hread : key.read = .ok name) : key.skipFault = none := by
  cases key with
  | name reading => exact h name hread
  | other fault asValue => cases hread

namespace Doc

/-- What can be read can be skipped. -/
theorem Sound.skipFault_of_read {d : Doc} (h : d.Sound) {json : Json} (hread : d.read = .ok json) :
    d.skipFault = none := by
  induction h generalizing json with
  | text hreading =>
    -- a text that can be read has no fault for skipping either
    rw [read] at hread
    obtain ⟨s, hs, -⟩ := map_eq_ok_iff.1 hread
    rw [skipFault, hreading s hs]
  | plain hreading =>
    rw [read] at hread
    rw [skipFault, hreading json hread]
  | absent fault => cases hread
  | array hitems close ih =>
    obtain ⟨rfl, jsons, hjsons, -⟩ := read_array_eq_ok_iff.1 hread
    rw [skipFault, itemsSkipFault_eq_none, Option.none_or]
    -- each item was read, so each can be skipped
    intro item hitem
    obtain ⟨json, -, hjson⟩ := exists_of_forall₂_of_mem hjsons hitem
    exact ih item hitem hjson
  | object hkeys hvalues close ih =>
    obtain ⟨rfl, ms, hms, -⟩ := read_object_eq_ok_iff.1 hread
    rw [skipFault, membersSkipFault_eq_none, Option.none_or]
    -- keys and values were read, so both can be skipped
    intro m hm
    obtain ⟨named, -, hkey, hvalue⟩ := exists_of_forall₂_of_mem hms hm
    exact ⟨(hkeys m hm).skipFault_of_read hkey, ih m hm hvalue⟩

/-! ## The ways to read a document -/

/-- The shapes of the documents of texts that are read as some value. -/
inductive ReadAs : Doc → Json → Prop
  | string (s : String) (skipFault : Option Fault) : ReadAs (.text ⟨.ok s, skipFault⟩) (.string s)
  | plain {json : Json} (hplain : json.IsPlain) (skipFault : Option Fault) :
      ReadAs (.plain ⟨.ok json, skipFault⟩) json
  | array {items : List Doc} {jsons : List Json} (hsound : ∀ item ∈ items, item.Sound)
      (hread : List.Forall₂ (fun d json => d.read = .ok json) items jsons) :
      ReadAs (.array items none) (.array jsons)
  | object {members : List (Key × Doc)} {ms : List (String × Json)}
      (hsound : ∀ m ∈ members, m.2.Sound) (hread : List.Forall₂ IsRead members ms) :
      ReadAs (.object members none) (.ofMembers ms)

theorem Sound.readAs {d : Doc} (h : d.Sound) {json : Json} (hread : d.read = .ok json) :
    d.ReadAs json := by
  cases h with
  | @text reading _ =>
    -- a string is read as the text that it has
    rw [read] at hread
    obtain ⟨s, hs, rfl⟩ := map_eq_ok_iff.1 hread
    obtain ⟨value, skipFault⟩ := reading
    obtain rfl : value = .ok s := hs
    exact .string s skipFault
  | @plain reading _ hplain =>
    -- a plain value is read as it is
    rw [read] at hread
    have hjson := hplain json hread
    obtain ⟨value, skipFault⟩ := reading
    obtain rfl : value = .ok json := hread
    exact .plain hjson skipFault
  | absent fault => cases hread
  | array hitems close =>
    -- an array that is read is closed, and all its items are read
    obtain ⟨rfl, jsons, hjsons, rfl⟩ := read_array_eq_ok_iff.1 hread
    exact .array hitems hjsons
  | object hkeys hvalues close =>
    obtain ⟨rfl, ms, hms, rfl⟩ := read_object_eq_ok_iff.1 hread
    exact .object hvalues hms

/-! ## Keys -/

/-- The keys of members, as far as they can be read. -/
def keys (members : List (Key × Doc)) : List String :=
  members.filterMap fun m => m.1.read.toOption

mutual

/-- Whether no object of a document repeats a key. -/
def keysDistinct : Doc → Bool
  | .text _ | .plain _ | .absent _ => true
  | .array items _ => itemsKeysDistinct items
  | .object members _ => decide (keys members).Nodup && membersKeysDistinct members

/-- Whether no object in items repeats a key. -/
def itemsKeysDistinct : List Doc → Bool
  | [] => true
  | d :: ds => d.keysDistinct && itemsKeysDistinct ds

/-- Whether no object in the values of members repeats a key. -/
def membersKeysDistinct : List (Key × Doc) → Bool
  | [] => true
  | (_, d) :: ms => d.keysDistinct && membersKeysDistinct ms

end

theorem itemsKeysDistinct_iff {items : List Doc} :
    itemsKeysDistinct items = true ↔ ∀ item ∈ items, item.keysDistinct = true := by
  induction items with
  | nil => simp [itemsKeysDistinct]
  -- all objects in the first item, and all in the others
  | cons d ds ih => rw [itemsKeysDistinct, Bool.and_eq_true, ih, List.forall_mem_cons]

theorem membersKeysDistinct_iff {members : List (Key × Doc)} :
    membersKeysDistinct members = true ↔ ∀ m ∈ members, m.2.keysDistinct = true := by
  induction members with
  | nil => simp [membersKeysDistinct]
  | cons m members ih =>
    rw [membersKeysDistinct, Bool.and_eq_true, ih, List.forall_mem_cons]

theorem keysDistinct_object_iff {members : List (Key × Doc)} {close : Option Fault} :
    keysDistinct (.object members close) = true ↔
      (keys members).Nodup ∧ ∀ m ∈ members, m.2.keysDistinct = true := by
  -- the object's own keys differ, and so do those of all objects in it
  rw [keysDistinct, Bool.and_eq_true, decide_eq_true_iff, membersKeysDistinct_iff]

theorem keys_eq_of_isRead {members : List (Key × Doc)} {ms : List (String × Json)}
    (h : List.Forall₂ IsRead members ms) : keys members = ms.map Prod.fst := by
  unfold keys
  induction h with
  | nil => rfl
  -- a member that is read has a key that can be read
  | cons hm _ ih => rw [List.filterMap_cons, hm.1, ih]; rfl

end Doc

end Preload.Json
