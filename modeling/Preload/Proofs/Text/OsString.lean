import Preload.Text.OsString

/-!
# Decoding bytes

Decoding takes the UTF-8 form of some characters apart again, and is the only way to bytes whose
decoding shows no replacement character. So bytes are the UTF-8 form of a text if they are that of
the text that they are shown as, and showing bytes brings in no other character than a replacement.

Main statements:
* `decode_utf8`: decoding undoes encoding;
* `utf8_decode`: it has an inverse on bytes that are shown without replacement characters;
* `OsString.replaced_eq_self_iff`: showing a text loses something unless it is UTF-8;
* `OsString.toString?_eq_some_iff`: what the bytes of a text spell.
-/

namespace Preload

/-! ## Encoding -/

theorem utf8_cons (c : Char) (cs : List Char) :
    utf8 (c :: cs) = String.utf8EncodeChar c ++ utf8 cs :=
  List.flatMap_cons

theorem utf8_append (cs ds : List Char) : utf8 (cs ++ ds) = utf8 cs ++ utf8 ds :=
  List.flatMap_append

theorem utf8_intercalate (separator : List Char) (css : List (List Char)) :
    utf8 (separator.intercalate css) = (utf8 separator).intercalate (css.map utf8) := by
  -- the separator stands between two texts, so the step needs two of them
  induction css with
  | nil => rfl
  | cons cs css ih =>
    cases css with
    | nil => simp only [List.intercalate_singleton, List.map_cons, List.map_nil]
    | cons ds css =>
      rw [List.intercalate_cons_cons, utf8_append, utf8_append, ih]
      simp only [List.map_cons, List.intercalate_cons_cons]

theorem mem_utf8_of_mem {cs : List Char} {c : Char} (hc : c ∈ cs) {b : UInt8}
    (hb : b ∈ String.utf8EncodeChar c) : b ∈ utf8 cs :=
  List.mem_flatMap.2 ⟨c, hc, hb⟩

/-- Only a character of one byte has a byte below `0x80`. -/
theorem utf8EncodeChar_eq_of_mem {c : Char} {b : UInt8} (hb : b ∈ String.utf8EncodeChar c)
    (hlow : b < 0x80) : String.utf8EncodeChar c = [b] := by
  -- all bytes of longer characters have their highest bit set
  have hhigh (x y : UInt8) (hy : 0x80 ≤ y) : ¬x ||| y < 0x80 := by
    have hle : y.toNat ≤ x.toNat ||| y.toNat := Nat.right_le_or
    rw [UInt8.lt_iff_toNat_lt, UInt8.toNat_or]
    rw [UInt8.le_iff_toNat_le] at hy
    omega
  -- one case for each length of a character in bytes
  obtain hsize | hsize | hsize | hsize := c.utf8Size_eq
  · rw [String.utf8EncodeChar_eq_singleton hsize] at hb ⊢
    rw [List.mem_singleton.1 hb]
  · rw [String.utf8EncodeChar_eq_cons_cons hsize] at hb
    simp only [List.mem_cons, List.not_mem_nil, or_false] at hb
    obtain rfl | rfl := hb <;> exact absurd hlow (hhigh _ _ (by decide))
  · rw [String.utf8EncodeChar_eq_cons_cons_cons hsize] at hb
    simp only [List.mem_cons, List.not_mem_nil, or_false] at hb
    obtain rfl | rfl | rfl := hb <;> exact absurd hlow (hhigh _ _ (by decide))
  · rw [String.utf8EncodeChar_eq_cons_cons_cons_cons hsize] at hb
    simp only [List.mem_cons, List.not_mem_nil, or_false] at hb
    obtain rfl | rfl | rfl | rfl := hb <;> exact absurd hlow (hhigh _ _ (by decide))

/-! ## The first character -/

theorem firstChar?_utf8EncodeChar_append (c : Char) (bytes : List UInt8) :
    firstChar? (String.utf8EncodeChar c ++ bytes) = some c := by
  have hsize := c.utf8Size_le_four
  -- a character has four bytes at most, so the first four bytes hold all of it
  rw [← String.length_utf8EncodeChar] at hsize
  rw [firstChar?, List.take_append, List.take_of_length_le hsize, List.toByteArray_append]
  exact ByteArray.utf8DecodeChar?_utf8EncodeChar_append

/-- The first character is what the bytes open with. -/
theorem exists_append_of_firstChar? {bytes : List UInt8} {c : Char} (h : firstChar? bytes = some c) :
    ∃ rest, bytes = String.utf8EncodeChar c ++ rest := by
  obtain ⟨rest, hrest⟩ := ByteArray.exists_of_utf8DecodeChar?_eq_some h
  -- what is decoded was taken from the first four bytes
  have htake : bytes.take 4 = String.utf8EncodeChar c ++ rest.data.toList := by
    rw [← List.toByteArray_inj, List.toByteArray_append, hrest]
    congr 1
    exact ByteArray.ext (by simp)
  refine ⟨rest.data.toList ++ bytes.drop 4, ?_⟩
  rw [← List.append_assoc, ← htake, List.take_append_drop]

/-! ## Decoding -/

@[simp] theorem decode_nil : decode [] = [] := by
  rw [decode]

/-- What is decoded of bytes that open with a character is this character and what is decoded of the
rest. -/
theorem decode_utf8EncodeChar_append (c : Char) (bytes : List UInt8) :
    decode (String.utf8EncodeChar c ++ bytes) = c :: decode bytes := by
  have hsize : (String.utf8EncodeChar c).length = c.utf8Size := String.length_utf8EncodeChar c
  have hfirst := firstChar?_utf8EncodeChar_append c bytes
  cases hencode : String.utf8EncodeChar c with
  -- a character has at least one byte, so decoding looks for a first one
  | nil => exact absurd hencode String.utf8EncodeChar_ne_nil
  | cons b bs =>
    rw [hencode, List.length_cons] at hsize
    rw [hencode, List.cons_append] at hfirst
    have hdrop : (bs ++ bytes).drop (c.utf8Size - 1) = bytes := by
      rw [← hsize, Nat.add_sub_cancel, List.drop_left]
    rw [List.cons_append, decode, hfirst]
    simp only [hdrop]

/-- Decoding undoes encoding. -/
theorem decode_utf8 (cs : List Char) : decode (utf8 cs) = cs := by
  induction cs with
  | nil => exact decode_nil
  | cons c cs ih => rw [utf8_cons, decode_utf8EncodeChar_append, ih]

theorem eq_append_of_firstChar? {b : UInt8} {bytes : List UInt8} {c : Char}
    (h : firstChar? (b :: bytes) = some c) :
    b :: bytes = String.utf8EncodeChar c ++ bytes.drop (c.utf8Size - 1) := by
  obtain ⟨rest, hrest⟩ := exists_append_of_firstChar? h
  -- the character takes as many bytes as it has
  have hpos := c.utf8Size_pos
  have hdrop : (b :: bytes).drop c.utf8Size = rest := by
    rw [hrest, ← String.length_utf8EncodeChar, List.drop_left]
  -- all that is dropped but the first byte is dropped from the rest
  rw [← Nat.sub_add_cancel hpos, List.drop_succ_cons] at hdrop
  rw [hdrop, hrest]

/-- Decoding that replaces nothing can be undone. -/
theorem utf8_decode {bytes : List UInt8} (h : '\uFFFD' ∉ decode bytes) : utf8 (decode bytes) = bytes := by
  fun_induction decode bytes with
  | case1 => rfl
  | case2 b bytes c hfirst ih =>
    -- a character was found: it and what is behind it are spelled by their bytes
    rw [List.mem_cons, not_or] at h
    rw [utf8_cons, ih h.2, ← eq_append_of_firstChar? hfirst]
  | case3 b bytes hfirst ih => exact absurd List.mem_cons_self h

/-- A character that is no replacement was spelled by the bytes. -/
theorem mem_of_mem_decode {bytes : List UInt8} {c : Char} (h : c ∈ decode bytes) :
    c = '\uFFFD' ∨ ∀ b ∈ String.utf8EncodeChar c, b ∈ bytes := by
  fun_induction decode bytes with
  | case1 => cases h
  | case2 first bytes d hfirst ih =>
    have hspelled := eq_append_of_firstChar? hfirst
    -- either the character is the one at the front, or it comes from what is behind
    obtain rfl | h := List.mem_cons.1 h
    · right
      intro b hb
      rw [hspelled]
      exact List.mem_append_left _ hb
    · refine (ih h).imp_right fun hbytes b hb => ?_
      rw [hspelled]
      exact List.mem_append_right _ (hbytes b hb)
  | case3 first bytes hfirst ih =>
    -- nothing was found here, so a replacement stands for some bytes
    obtain rfl | h := List.mem_cons.1 h
    · exact .inl rfl
    · exact (ih h).imp_right fun hbytes b hb =>
        List.mem_cons_of_mem _ (List.mem_of_mem_drop (hbytes b hb))

namespace OsString

/-! ## Texts as they are shown -/

@[simp] theorem bytes_append (s t : OsString) : (s ++ t).bytes = s.bytes ++ t.bytes := rfl

theorem bytes_ofString (s : String) : (ofString s).bytes = utf8 s.toList := rfl

@[simp] theorem lossy_ofString (s : String) : (ofString s).lossy = s := by
  rw [lossy, bytes_ofString, decode_utf8, String.ofList_toList]

theorem ofString_append (s t : String) : ofString (s ++ t) = ofString s ++ ofString t := by
  ext1
  rw [bytes_append, bytes_ofString, bytes_ofString, bytes_ofString, String.toList_append, utf8_append]

theorem ofString_intercalate (separator : String) (ss : List String) :
    ofString (String.intercalate separator ss) = intercalate separator (ss.map ofString) := by
  -- joining is on characters on one side and on bytes on the other
  have hmap : (ss.map ofString).map bytes = (ss.map String.toList).map utf8 := by
    rw [List.map_map, List.map_map]
    rfl
  ext1
  rw [bytes_ofString, String.toList_intercalate, utf8_intercalate, intercalate, bytes_ofString, hmap]

/-- The bytes of a text are those of one string at most. -/
theorem toString?_eq_some_iff {s : OsString} {t : String} : s.toString? = some t ↔ s = ofString t := by
  unfold toString?
  constructor
  · -- a text that is not its own lossy form is no string
    intro h
    split at h
    · next hself =>
      cases h
      exact hself.symm
    · cases h
  · rintro rfl
    rw [lossy_ofString, if_pos rfl]

/-- The text with its broken sequences replaced, as it is shown. -/
def replaced (s : OsString) : OsString :=
  ofString s.lossy

theorem bytes_replaced (s : OsString) : s.replaced.bytes = utf8 (decode s.bytes) := by
  rw [replaced, bytes_ofString, lossy, String.toList_ofList]

/-- Nothing is replaced in a text just if it is the UTF-8 form of a string. -/
theorem replaced_eq_self_iff {s : OsString} : s.replaced = s ↔ ∃ t : String, s = ofString t := by
  constructor
  · intro h
    exact ⟨s.lossy, h.symm⟩
  · rintro ⟨t, rfl⟩
    rw [replaced, lossy_ofString]

/-- Replacing brings in no byte but those of the replacement character. -/
theorem mem_of_mem_replaced {s : OsString} {b : UInt8} (h : b ∈ s.replaced.bytes) :
    b ∈ String.utf8EncodeChar '\uFFFD' ∨ b ∈ s.bytes := by
  rw [bytes_replaced] at h
  -- each byte belongs to a character that was decoded
  obtain ⟨c, hc, hb⟩ := List.mem_flatMap.1 h
  obtain rfl | hbytes := mem_of_mem_decode hc
  · exact .inl hb
  · exact .inr (hbytes b hb)

/-- What holds no byte of a replacement character was not replaced. -/
theorem replaced_eq_self_of_not_mem {s : OsString} (h : 0xEF ∉ s.replaced.bytes) : s.replaced = s := by
  -- the replacement character is spelled with this byte
  have hnone : '\uFFFD' ∉ decode s.bytes := by
    intro hmem
    rw [bytes_replaced] at h
    exact h (mem_utf8_of_mem hmem (by decide))
  exact congrArg mk ((bytes_replaced s).trans (utf8_decode hnone))

end OsString

end Preload
