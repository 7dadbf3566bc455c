import Preload.Proofs.Token.Place
import Preload.Proofs.Token.Slash

/-!
# Names

A word says nothing by its text as long as it stands for an operand: another name in its place
leaves all other tokens as they are, unless the word touches a number, which would take the name in.

Main statements:
* `Lexeme.first?_of_name`: a name is read as one token;
* `Lexeme.first?_of_foreign`: what opens with a character outside of ASCII is no name;
* `Token.Readable.rename`: readable tokens stay readable under another name;
* `lexFrom_rename`: the tokens of a text in which a name was replaced.
-/

namespace Preload

/-- Whether a text is a word that names something: one of ASCII letters, digits, `_` and `$` that is
no keyword and no operator. -/
structure IsName (name : List Char) : Prop where
  ident : Token.Kind.ident.Spells name
  not_operator : operatorWords.contains (String.ofList name) = false

/-! ## Reading a name -/

theorem ne_of_isWordStart {c d : Char} (hc : isWordStart c) (hd : isWordStart d = false) : c ≠ d := by
  rintro rfl
  rw [hc] at hd
  cases hd

theorem isBlank_of_isWordStart {c : Char} (h : isWordStart c) : isBlank c = false := by
  have hne {d : Char} : isWordStart d = false → c ≠ d := ne_of_isWordStart h
  -- no blank opens a word
  simp only [isBlank, Bool.or_eq_false_iff, beq_eq_false_iff_ne]
  exact ⟨⟨⟨hne rfl, hne rfl⟩, hne rfl⟩, hne rfl⟩

theorem isWordPart_of_isWordStart {c : Char} (h : isWordStart c) : isWordPart c := by
  simp only [isWordStart, isWordPart, Char.isAlphanum, Bool.or_eq_true] at h ⊢
  tauto

/-- A word opens with a character that may open one. -/
theorem Token.Kind.Spells.exists_isWordStart {name : List Char} (h : Token.Kind.ident.Spells name) :
    ∃ c cs, name = c :: cs ∧ isWordStart c := by
  cases h with
  | ident hstart => exact ⟨_, _, rfl, hstart⟩

/-- A word is read as one token in front of a character that no word holds. -/
theorem Lexeme.first?_of_name {name : List Char} (h : Token.Kind.ident.Spells name)
    {after : List Char} (hafter : ∀ c ∈ after.head?, Token.Kind.ident.endsBefore c)
    (regexAllowed : Bool) :
    first? regexAllowed (name ++ after) = some ⟨.ident, name, after⟩ := by
  cases h with
  | @ident c cs hstart hpart hword =>
    -- no rule before that of words takes a character that opens one
    have hne {d : Char} : isWordStart d = false → c ≠ d := ne_of_isWordStart hstart
    have hkind : wordKind (c :: cs) = .ident := by rw [wordKind, hword]
    have hrun : Split.run isWordPart (cs ++ after) = ⟨cs, after⟩ :=
      Split.run_append_of_forall hpart (by simpa [Token.Kind.endsBefore] using hafter)
    rw [List.cons_append, first?, if_neg (hne rfl), if_neg (hne rfl), if_neg (hne rfl),
      if_neg (not_or.2 ⟨hne rfl, hne rfl⟩), if_neg (hne rfl), if_pos hstart]
    simp only [hrun, hkind, ofSplit]

/-- Letters and digits are those of ASCII. -/
theorem toNat_le_of_isAlphanum {c : Char} (h : c.isAlphanum) : c.toNat ≤ 127 := by
  have hranges : (decide ('A'.val ≤ c.val ∧ c.val ≤ 'Z'.val) ||
      (decide ('a'.val ≤ c.val) && decide (c.val ≤ 'z'.val)) ||
      (decide ('0'.val ≤ c.val) && decide (c.val ≤ '9'.val))) = true := h
  have hbounds : 'Z'.val.toNat = 90 ∧ 'z'.val.toNat = 122 ∧ '9'.val.toNat = 57 := ⟨rfl, rfl, rfl⟩
  -- the three ranges of letters and digits all end below 128
  simp only [Bool.or_eq_true, Bool.and_eq_true, decide_eq_true_eq, UInt32.le_iff_toNat_le] at hranges
  show c.val.toNat ≤ 127
  omega

/-- All characters outside of ASCII are those of operators. -/
theorem isPunct_of_foreign {c : Char} (h : 127 < c.toNat) : isPunct c := by
  have hne {d : Char} (hd : d.toNat ≤ 127) : c ≠ d := by
    rintro rfl
    omega
  -- letters and digits are ASCII, and so is every other character with a rule of its own
  have halnum : c.isAlphanum = false := by
    rw [Bool.eq_false_iff]
    intro halnum
    have hle := toNat_le_of_isAlphanum halnum
    omega
  simp [isPunct, isBlank, isDelimiter, isWordPart, Bracket.ofOpener?, Bracket.ofCloser?, halnum, hne]

/-- What opens with a character of operators is operator text. -/
theorem Lexeme.first?_of_isPunct {c : Char} (h : isPunct c) (regexAllowed : Bool) (cs : List Char) :
    first? regexAllowed (c :: cs) = some (ofSplit .punct c (Split.run isPunct cs)) := by
  -- no rule before that of operators takes such a character
  have hne {d : Char} (hd : isPunct d = false) : c ≠ d := by
    rintro rfl
    rw [h] at hd
    cases hd
  -- the other rules look at words, blanks and brackets, and an operator is none of them
  have hword : isWordPart c = false := by
    simp only [isPunct, Bool.not_eq_true', Bool.or_eq_false_iff] at h
    exact h.2
  have hstart : ¬isWordStart c := by
    intro hstart
    rw [isWordPart_of_isWordStart hstart] at hword
    cases hword
  have hdigit : ¬c.isDigit := by
    intro hdigit
    simp [isWordPart, Char.isAlphanum, hdigit] at hword
  have hopener : Bracket.ofOpener? c = none := by
    rw [Bracket.ofOpener?, if_neg (hne rfl), if_neg (hne rfl), if_neg (hne rfl)]
  have hcloser : Bracket.ofCloser? c = none := by
    rw [Bracket.ofCloser?, if_neg (hne rfl), if_neg (hne rfl), if_neg (hne rfl)]
  rw [first?, if_neg (hne rfl), if_neg (hne rfl), if_neg (hne rfl),
    if_neg (not_or.2 ⟨hne rfl, hne rfl⟩), if_neg (hne rfl), if_neg hstart, if_neg hdigit]
  simp only [hopener, hcloser]

/-- A word that opens with a letter outside of ASCII is no name to the lexer: it opens operator
text, behind which a slash opens a regex literal and a line break carries on. -/
theorem Lexeme.first?_of_foreign {c : Char} (h : 127 < c.toNat) (regexAllowed : Bool)
    (cs : List Char) :
    ∃ text rest, first? regexAllowed (c :: cs) = some ⟨.punct, c :: text, rest⟩ :=
  ⟨_, _, first?_of_isPunct (isPunct_of_foreign h) regexAllowed cs⟩

namespace Token

/-- Whatever is no number ends in front of any word or in front of none. -/
theorem Kind.endsBefore_of_isWordStart {kind : Kind} (hnumber : kind ≠ .number) {c d : Char}
    (hc : isWordStart c) (hd : isWordStart d) : kind.endsBefore c = kind.endsBefore d := by
  have hword {e : Char} (he : isWordStart e) :
      isWordPart e = true ∧ isPunct e = false ∧ (e == '\n') = false ∧ (e != '/' && e != '*') = true := by
    have hpart := isWordPart_of_isWordStart he
    have hne {f : Char} : isWordStart f = false → e ≠ f := ne_of_isWordStart he
    refine ⟨hpart, by simp [isPunct, hpart], by simpa using hne rfl, ?_⟩
    simpa using ⟨hne rfl, hne rfl⟩
  -- a number takes letters but no `$`, so it tells one word start from another
  cases kind with
  | number => exact absurd rfl hnumber
  | _ => simp only [Kind.endsBefore, hword hc, hword hd]

/-! ## Tokens under other names -/

/-- The token under another name. -/
def rename (name : List Char) (t : Token) : Token :=
  { t with text := name }

/-- Readable tokens stay readable if one that ends an operand is given another name, unless it
touches a number. -/
theorem Readable.rename {regexAllowed : Bool} {ts us : List Token} {t : Token}
    (h : Readable regexAllowed (ts ++ t :: us)) (hkind : t.kind = .ident)
    (hoperator : operatorWords.contains (String.ofList t.text) = false)
    (hnumber : t.gap = [] → ∀ u ∈ ts.getLast?, u.kind ≠ .number) {name : List Char}
    (hname : IsName name) : Readable regexAllowed (ts ++ t.rename name :: us) := by
  obtain ⟨c, cs, hspelled, hstart⟩ := hname.ident.exists_isWordStart
  have hends := h.endsBefore_of_append
  have hold : Readable (regexAfter regexAllowed ts) (t :: us) := h.right_of_append
  -- two seams are new: in front of the name and behind it
  refine h.left_of_append.append_of_endsBefore (fun u hu d hd => ?_) ?_
  · rw [spelling_cons] at hd
    cases hgap : t.gap with
    | cons b gap =>
      -- blanks in front of the name hide it
      refine hends u hu d ?_
      rw [spelling_cons, hgap]
      simpa [Token.rename, hgap] using hd
    | nil =>
      -- the old name touched the token in front of it, and both names open with a word start
      obtain ⟨e, es, htext, hstart'⟩ :=
        (hkind ▸ hold.spells t List.mem_cons_self : Kind.ident.Spells t.text).exists_isWordStart
      have hbefore : u.kind.endsBefore e := hends u hu e (by simp [hgap, htext])
      obtain rfl : c = d := by simpa [Token.rename, hgap, hspelled] using hd
      rwa [Kind.endsBefore_of_isWordStart (hnumber hgap u hu) hstart hstart']
  · have hcode : ¬(Kind.ident).isTrivia := by decide
    -- what stands behind the old name may not go on with it, and so not with the new one
    have hbehind : ∀ d ∈ (spelling us).head?, Kind.ident.endsBefore d := hkind ▸ hold.endsBefore
    have hlater := hold.tail
    obtain _ | ⟨gap, -, -, -⟩ := hold
    refine .cons gap ?_ ?_ ?_
    · intro d hd
      obtain rfl : c = d := by simpa [Token.rename, hspelled] using hd
      exact isBlank_of_isWordStart hstart
    · rw [Token.rename, hkind]
      exact Lexeme.first?_of_name hname.ident hbehind _
    · -- both words end an operand
      rw [hkind, Kind.regexAfter_of_code hcode, Kind.allowsRegex, hoperator] at hlater
      rw [Token.rename, hkind, Kind.regexAfter_of_code hcode, Kind.allowsRegex, hname.not_operator]
      exact hlater

end Token

/-! ## Texts under other names -/

/-- A text in which a name was replaced has the tokens that it had, up to their places. -/
theorem lexFrom_rename {pos : Nat} {regexAllowed : Bool} {cs : List Char} {ts us : List Token}
    {t : Token} (hlexing : lexFrom pos regexAllowed cs = ⟨ts ++ t :: us, none⟩)
    (hkind : t.kind = .ident) (hoperator : operatorWords.contains (String.ofList t.text) = false)
    (hnumber : ∀ u ∈ ts, u.kind = .number → u.stop ≠ t.start) {name : List Char}
    (hname : IsName name) :
    ∃ front back, cs = front ++ (t.text ++ back) ∧ t.start = pos + byteLength front ∧
      lexFrom pos regexAllowed (front ++ (name ++ back)) =
        ⟨Token.place pos (ts ++ t.rename name :: us), none⟩ := by
  -- the tokens in front of the name, the name, and the tokens behind it come from one reading
  obtain ⟨hreadable, rest, hrest, hends, hblank⟩ := readable_lexFrom pos regexAllowed cs
  have hplace := Token.place_lexFrom pos regexAllowed cs
  rw [hlexing] at hreadable hrest hends hblank hplace
  have hstart : t.start = pos + byteLength (Token.spelling ts ++ t.gap) := Token.start_of_place hplace
  -- a number in front would end where the name starts, which was ruled out
  have hapart : t.gap = [] → ∀ u ∈ ts.getLast?, u.kind ≠ .number := by
    intro hgap u hu hkind
    obtain ⟨hfirst, -⟩ := Token.place_append_eq_iff.1 hplace
    refine hnumber u (List.mem_of_getLast? hu) hkind ?_
    rw [Token.stop_of_place hfirst hu, hstart, hgap, List.append_nil]
  have hrenamed := hreadable.rename hkind hoperator hapart hname
  -- the last token is another one only if it is the name, and all words end alike
  have hlast : ∀ u ∈ (ts ++ t.rename name :: us).getLast?, ∀ c ∈ rest.head?,
      u.kind.endsBefore c := by
    intro u hu c hc
    have hkinds : (ts ++ t.rename name :: us).map (·.kind) = (ts ++ t :: us).map (·.kind) := by
      simp [Token.rename]
    have hkind : u.kind ∈ ((ts ++ t :: us).map (·.kind)).getLast? := by
      rw [← hkinds, List.getLast?_map]
      exact Option.mem_map_of_mem _ hu
    rw [List.getLast?_map] at hkind
    obtain ⟨v, hv, hvu⟩ := Option.map_eq_some_iff.1 hkind
    rw [← hvu]
    exact hends v hv c hc
  -- reading the spelling of the renamed tokens gives them back at their places
  have hlex := lexFrom_spelling_append hrenamed hlast pos
  simp only [lexFrom_of_blank (hblank rfl), List.append_nil] at hlex
  refine ⟨Token.spelling ts ++ t.gap, Token.spelling us ++ rest, ?_, hstart, ?_⟩
  · rw [hrest]
    simp
  · rw [← hlex]
    simp [Token.rename]

end Preload
