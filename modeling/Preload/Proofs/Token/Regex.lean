import Preload.Proofs.Token.Literals

/-!
# The ends of regex literals

Behind its opening slash a regex literal is a body, the slash that closes it, and flags. The reader
of regex literals takes just that, and there is only one way to see a text as such a literal and
what follows it: the body ends at the first slash that it cannot hold, and the flags go on as far as
they can. So the size of what is read says where the literal ends.

Main statements:
* `regexLiteralTail?_eq_some_iff`: what is taken, and what is left;
* `IsRegexSplit.unique`: there is one way to see a text as a regex literal and what follows it;
* `byteLength_regexLiteralTail?_iff`: where a regex literal ends in bytes.
-/

namespace Preload

/-- Whether a text is a regex literal behind its opening slash, made of `body`, a slash and `flags`,
and then `rest`, which does not go on with flags. -/
structure IsRegexSplit (cs body flags rest : List Char) : Prop where
  text : cs = body ++ '/' :: (flags ++ rest)
  body : RegexBody body
  flags : ∀ c ∈ flags, isWordPart c = true
  ends : ∀ c ∈ rest.head?, isWordPart c = false

/-- Whether a regex literal that a text goes on with behind an opening slash ends after `n` bytes of
the text. -/
def RegexEndsAt (n : Nat) (cs : List Char) : Prop :=
  ∃ body flags rest, IsRegexSplit cs body flags rest ∧ n = byteLength (body ++ '/' :: flags)

namespace IsRegexSplit

variable {cs body flags rest : List Char}

/-- A literal is read with its flags, in front of what does not go on with them. -/
theorem regexLiteralTail?_eq (h : IsRegexSplit cs body flags rest) :
    regexLiteralTail? cs = some ⟨body ++ '/' :: flags, rest⟩ := by
  have hflags : Split.run isWordPart (flags ++ rest) = ⟨flags, rest⟩ :=
    Split.run_append_of_forall h.flags h.ends
  rw [h.text, regexLiteralTail?, regexTail?_of_body h.body, Option.map_some, hflags]
  simp [Split.push]

/-- There is one way to see a text as a regex literal and what follows it. -/
theorem unique (h : IsRegexSplit cs body flags rest) {body' flags' rest' : List Char}
    (h' : IsRegexSplit cs body' flags' rest') : body' = body ∧ flags' = flags ∧ rest' = rest := by
  -- the bodies are found by reading up to the slash, the flags by reading on
  have hbody := regexTail?_of_body h.body (flags ++ rest)
  have hread := h.regexLiteralTail?_eq
  -- a body ends at its slash, so that is the same one in both splits
  rw [← h.text, h'.text, regexTail?_of_body h'.body, Option.some.injEq, Split.mk.injEq] at hbody
  obtain rfl := List.append_cancel_right hbody.1
  rw [h'.regexLiteralTail?_eq, Option.some.injEq, Split.mk.injEq] at hread
  obtain ⟨htaken, rfl⟩ := hread
  exact ⟨rfl, (List.cons.inj (List.append_cancel_left htaken)).2, rfl⟩

end IsRegexSplit

/-- What is read is a body, a slash and flags, and what is left does not go on with these. -/
theorem regexLiteralTail?_eq_some_iff {cs : List Char} {s : Split} :
    regexLiteralTail? cs = some s ↔
      ∃ body flags, IsRegexSplit cs body flags s.rest ∧ s.taken = body ++ '/' :: flags := by
  constructor
  · intro h
    -- the text is what was taken and what is left, in front of which the run of flags stopped
    have hcs := regexLiteralTail?_joined h
    obtain ⟨body, flags, hbody, hflags, htaken⟩ := exists_body_of_regexLiteralTail? h
    obtain ⟨t, -, rfl⟩ := Option.map_eq_some_iff.1 h
    rw [Split.joined, htaken, List.append_assoc, List.cons_append] at hcs
    exact ⟨body, flags, ⟨hcs.symm, hbody, hflags, Split.run_rest_head⟩, htaken⟩
  · rintro ⟨body, flags, hsplit, htaken⟩
    rw [hsplit.regexLiteralTail?_eq, ← htaken]

theorem map_regexLiteralTail?_eq_some_iff {cs : List Char} {n : Nat} :
    (regexLiteralTail? cs).map (fun s => byteLength s.taken) = some n ↔ RegexEndsAt n cs := by
  simp only [Option.map_eq_some_iff, regexLiteralTail?_eq_some_iff]
  constructor
  · rintro ⟨s, ⟨body, flags, hsplit, htaken⟩, rfl⟩
    exact ⟨body, flags, s.rest, hsplit, congrArg byteLength htaken⟩
  · rintro ⟨body, flags, rest, hsplit, rfl⟩
    exact ⟨⟨body ++ '/' :: flags, rest⟩, ⟨body, flags, hsplit, rfl⟩, rfl⟩

namespace RegexEndsAt

variable {n m : Nat} {cs : List Char}

theorem unique (h : RegexEndsAt n cs) (h' : RegexEndsAt m cs) : n = m := by
  -- both ends are those of one split
  obtain ⟨body, flags, rest, hsplit, rfl⟩ := h
  obtain ⟨body', flags', rest', hsplit', rfl⟩ := h'
  obtain ⟨rfl, rfl, rfl⟩ := hsplit.unique hsplit'
  rfl

/-- A regex literal ends behind its slash. -/
theorem one_le (h : RegexEndsAt n cs) : 1 ≤ n := by
  obtain ⟨body, flags, rest, -, rfl⟩ := h
  -- the slash is a character, which has a size
  have hslash := Char.utf8Size_pos '/'
  rw [byteLength_append, byteLength_cons]
  omega

/-- A regex literal ends between characters of the text. -/
theorem exists_append (h : RegexEndsAt n cs) :
    ∃ taken rest, cs = taken ++ rest ∧ n = byteLength taken := by
  obtain ⟨body, flags, rest, hsplit, rfl⟩ := h
  refine ⟨body ++ '/' :: flags, rest, ?_, rfl⟩
  rw [hsplit.text]
  -- what was taken is the front of the text, since the text is spelled by its parts
  simp

end RegexEndsAt

/-- The size of what is read of a regex literal behind its opening slash, in bytes. A literal is
read just where the text goes on with a body, a slash and flags, and the size is where these end.
They end at one place only, behind at least the slash, and within the text between two
characters. -/
theorem byteLength_regexLiteralTail?_iff (source : String) :
    let length? := (regexLiteralTail? source.toList).map fun s => byteLength s.taken
    (∀ n, length? = some n ↔ RegexEndsAt n source.toList) ∧
      (length? = none ↔ ∀ n, ¬RegexEndsAt n source.toList) ∧
      (∀ n m, RegexEndsAt n source.toList → RegexEndsAt m source.toList → n = m) ∧
      ∀ n, RegexEndsAt n source.toList →
        1 ≤ n ∧ n ≤ source.utf8ByteSize ∧ (⟨n⟩ : String.Pos.Raw).IsValid source := by
  intro length?
  have hsome : ∀ n, length? = some n ↔ RegexEndsAt n source.toList :=
    fun _ => map_regexLiteralTail?_eq_some_iff
  refine ⟨hsome, ?_, fun n m => RegexEndsAt.unique, fun n hn => ?_⟩
  · simp only [← hsome]
    exact Option.eq_none_iff_forall_ne_some
  · obtain ⟨taken, rest, hsource, rfl⟩ := hn.exists_append
    have hvalid := isValid_byteLength taken rest
    rw [← hsource, String.ofList_toList] at hvalid
    exact ⟨hn.one_le, hvalid.le_utf8ByteSize, hvalid⟩

/-- A class holds a bracket that opens and a slash, a backslash takes a slash, and the flags end in
front of `é`. -/
example : (regexLiteralTail? "é[[/\\]]]\\//gé/".toList).map (fun s => byteLength s.taken) = some 13 := by
  decide +kernel

end Preload
