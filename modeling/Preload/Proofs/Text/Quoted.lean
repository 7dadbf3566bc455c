import Preload.Proofs.Token.Literals

/-!
# Quoting and its inverse

A specifier comes back from its literal, and the literal is read as one string just if the specifier
holds no line feed.

Main statements:
* `unquote_quote`: the literal for a specifier stands for it;
* `Quoted.literalTail?_escape` and `Quoted.literalTail?_escape_of_newline`: how the literal is read.
-/

namespace Preload

namespace Quoted

/-! ## Escapes -/

theorem escape_cons_of_special {c : Char} (h : c = '\\' ∨ c = '\'') (cs : List Char) :
    escape (c :: cs) = '\\' :: c :: escape cs := by
  rw [escape, if_pos h]

theorem escape_cons_of_plain {c : Char} (h : ¬(c = '\\' ∨ c = '\'')) (cs : List Char) :
    escape (c :: cs) = c :: escape cs := by
  rw [escape, if_neg h]

theorem unescape_cons_of_ne {c : Char} (h : c ≠ '\\') (cs : List Char) :
    unescape (c :: cs) = c :: unescape cs := by
  rw [unescape] <;> simp [h]

theorem unescape_escape (cs : List Char) : unescape (escape cs) = cs := by
  induction cs with
  | nil => rfl
  | cons c cs ih =>
    by_cases hspecial : c = '\\' ∨ c = '\''
    · rw [escape_cons_of_special hspecial]
      -- neither of the two characters is a letter with a meaning of its own
      obtain rfl | rfl := hspecial
      · simp [unescape, ih]
      · simp [unescape, ih]
    · have hc : c ≠ '\\' := fun hc => hspecial (.inl hc)
      rw [escape_cons_of_plain hspecial, unescape_cons_of_ne hc, ih]

/-- Escapes add no line feed. -/
theorem newline_mem_escape {cs : List Char} : '\n' ∈ escape cs ↔ '\n' ∈ cs := by
  induction cs with
  | nil => rfl
  | cons c cs ih =>
    -- an escape puts a backslash in front of the character, and neither of the two is a line feed
    by_cases hspecial : c = '\\' ∨ c = '\''
    · rw [escape_cons_of_special hspecial]
      simp [ih]
    · rw [escape_cons_of_plain hspecial]
      simp [ih]

/-! ## Literals -/

theorem inner_quoted (cs : List Char) : inner ('\'' :: cs ++ ['\'']) = cs := by
  have hsize : '\''.utf8Size = 1 := by decide
  simp [inner, hsize]

/-- An escaped text without a line feed may stand between quotes. -/
theorem literalBody_escape {cs : List Char} (h : '\n' ∉ cs) : LiteralBody '\'' true (escape cs) := by
  induction cs with
  | nil => exact .nil
  | cons c cs ih =>
    -- escaping leaves no bare quote or backslash, so each character is plain or escaped
    obtain ⟨hfeed, hcs⟩ : '\n' ≠ c ∧ '\n' ∉ cs := by simpa using h
    by_cases hspecial : c = '\\' ∨ c = '\''
    · rw [escape_cons_of_special hspecial]
      exact .escape (fun _ => hfeed.symm) (ih hcs)
    · have hc : c ≠ '\\' ∧ c ≠ '\'' := not_or.1 hspecial
      rw [escape_cons_of_plain hspecial]
      exact .plain hc.2 hc.1 (fun _ => hfeed.symm) (ih hcs)

/-- Up to the quote behind it, an escaped text without a line feed is the rest of a literal. -/
theorem literalTail?_escape {cs : List Char} (h : '\n' ∉ cs) (after : List Char) :
    literalTail? '\'' true (escape cs ++ '\'' :: after) = some ⟨escape cs ++ ['\''], after⟩ :=
  literalTail?_of_body (by decide) (literalBody_escape h) after

/-- A line feed leaves a literal without an end. -/
theorem literalTail?_escape_of_newline {cs : List Char} (h : '\n' ∈ cs) (after : List Char) :
    literalTail? '\'' true (escape cs ++ after) = none := by
  induction cs with
  | nil => cases h
  | cons c cs ih =>
    by_cases hspecial : c = '\\' ∨ c = '\''
    · have hcs : '\n' ∈ cs := by
        obtain rfl | rfl := hspecial
        · simpa using h
        · simpa using h
      -- the character behind the backslash is taken whatever it is, so the line feed is still ahead
      rw [escape_cons_of_special hspecial]
      simp [literalTail?, ih hcs]
    · have hc : c ≠ '\\' ∧ c ≠ '\'' := not_or.1 hspecial
      rw [escape_cons_of_plain hspecial, List.cons_append, literalTail?_cons hc.1, if_neg hc.2]
      -- a line feed ends the search, and otherwise it is further on
      by_cases hfeed : c = '\n'
      · simp [hfeed]
      · have hcs : '\n' ∈ cs := by
          obtain hhead | hcs := List.mem_cons.1 h
          · exact absurd hhead.symm hfeed
          · exact hcs
        simp [hfeed, ih hcs]

end Quoted

theorem toList_quote (specifier : String) :
    (quote specifier).toList = '\'' :: Quoted.escape specifier.toList ++ ['\''] :=
  String.toList_ofList

/-- The literal for a specifier stands for it. -/
theorem unquote_quote (specifier : String) : unquote (quote specifier) = specifier := by
  rw [unquote, toList_quote, Quoted.inner_quoted, Quoted.unescape_escape, String.ofList_toList]

end Preload
