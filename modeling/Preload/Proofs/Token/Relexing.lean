import Mathlib.Data.List.TakeWhile
import Preload.Proofs.Token.Context
import Preload.Token.Lexing

/-!
# Lexing the text of tokens again

`Token.spelling` is the text that tokens stand for, blanks included. Tokens are `Token.Readable`
when lexing finds just them in their spelling, wherever it stands.

Main statements:
* `readable_lexFrom`: the tokens that lexing finds are readable;
* `lexFrom_spelling_append`: the spelling of readable tokens is lexed into these tokens, whatever
  follows;
* `Token.Readable.of_append` and `Token.Readable.append`: readable tokens may be taken apart
  anywhere, and put together behind a line break.
-/

namespace Preload

namespace Token

/-- The text of tokens, with the blanks in front of each. -/
def spelling (ts : List Token) : List Char :=
  ts.flatMap fun t => t.gap ++ t.text

@[simp] theorem spelling_nil : spelling [] = [] := rfl

@[simp] theorem spelling_cons (t : Token) (ts : List Token) :
    spelling (t :: ts) = t.gap ++ (t.text ++ spelling ts) := by
  simp [spelling]

@[simp] theorem spelling_append (ts us : List Token) :
    spelling (ts ++ us) = spelling ts ++ spelling us := by
  simp [spelling]

/-- Whether lexing finds the tokens in their spelling, given whether a regex literal may open it. -/
inductive Readable : Bool → List Token → Prop
  | nil {regexAllowed : Bool} : Readable regexAllowed []
  | cons {regexAllowed : Bool} {t : Token} {ts : List Token}
      (gap : ∀ c ∈ t.gap, isBlank c = true)
      (head : ∀ c ∈ t.text.head?, isBlank c = false)
      (lexeme : Lexeme.first? regexAllowed (t.text ++ spelling ts) =
        some ⟨t.kind, t.text, spelling ts⟩)
      (rest : Readable (t.kind.regexAfter regexAllowed t.text) ts) :
      Readable regexAllowed (t :: ts)

/-- Whether a regex literal may stand after some tokens. -/
def regexAfter (before : Bool) (ts : List Token) : Bool :=
  ts.foldl (fun before t => t.kind.regexAfter before t.text) before

/-- The token at its place behind `pos`. -/
def placeAt (pos : Nat) (t : Token) : Token :=
  { t with start := pos + byteLength t.gap }

/-- The tokens at their places behind `pos`, one after the other. -/
def place (pos : Nat) : List Token → List Token
  | [] => []
  | t :: ts => t.placeAt pos :: place (t.placeAt pos).stop ts

/-- The token without its place. -/
def unplaced (t : Token) : Token :=
  { t with start := 0 }

/-- What does not look at the places of tokens is the same at other places. -/
theorem map_place {α : Type} {f : Token → α} (hf : ∀ t, f t.unplaced = f t) (pos : Nat)
    (ts : List Token) : (place pos ts).map f = ts.map f := by
  induction ts generalizing pos with
  | nil => rfl
  | cons t ts ih =>
    -- both tokens are the same without their places
    have ht : f (t.placeAt pos) = f t := (hf (t.placeAt pos)).symm.trans (hf t)
    rw [place, List.map_cons, List.map_cons, ih, ht]

theorem map_unplaced_place (pos : Nat) (ts : List Token) :
    (place pos ts).map unplaced = ts.map unplaced :=
  map_place (fun _ => rfl) pos ts

end Token

/-! ## One step of lexing -/

/-- Blanks hold no token. -/
theorem lexFrom_of_blank {pos : Nat} {regexAllowed : Bool} {cs : List Char}
    (h : ∀ c ∈ cs, isBlank c = true) : lexFrom pos regexAllowed cs = ⟨[], none⟩ := by
  -- nothing is left behind the blanks
  have hcode : cs.dropWhile isBlank = [] := List.dropWhile_eq_nil_iff.2 h
  rw [lexFrom]
  split
  · rfl
  · next c code hcode' => simp [hcode] at hcode'

/-- Behind blanks it is the next lexeme that says how lexing goes on. -/
theorem lexFrom_of_cons {pos : Nat} {regexAllowed : Bool} {gap : List Char} {c : Char}
    {cs : List Char} (hgap : ∀ d ∈ gap, isBlank d = true) (hc : isBlank c = false) :
    lexFrom pos regexAllowed (gap ++ c :: cs) =
      match Lexeme.first? regexAllowed (c :: cs) with
      | none => ⟨[], some (pos + byteLength gap)⟩
      | some l =>
        let token : Token := ⟨gap, l.kind, l.text, pos + byteLength gap⟩
        let later := lexFrom token.stop (l.kind.regexAfter regexAllowed l.text) l.rest
        ⟨token :: later.tokens, later.errorAt⟩ := by
  -- the blanks in front of the character are all that are taken
  have htake : (gap ++ c :: cs).takeWhile isBlank = gap := by
    rw [List.takeWhile_append_of_pos hgap]
    simp [hc]
  have hdrop : (gap ++ c :: cs).dropWhile isBlank = c :: cs := by
    rw [List.dropWhile_append_of_pos hgap]
    simp [hc]
  rw [lexFrom]
  split
  · -- there is a character, so the text is not over
    next hcode =>
    rw [hdrop] at hcode
    cases hcode
  · next d code hcode =>
    rw [hdrop] at hcode
    cases hcode
    simp only [htake]
    split
    · next hnone => rw [hnone]
    · next l hsome => rw [hsome]

/-- A lexeme behind blanks becomes a token, and lexing goes on behind it. -/
theorem lexFrom_of_lexeme {pos : Nat} {regexAllowed : Bool} {t : Token} {rest : List Char}
    (hgap : ∀ c ∈ t.gap, isBlank c = true) (hhead : ∀ c ∈ t.text.head?, isBlank c = false)
    (hlexeme : Lexeme.first? regexAllowed (t.text ++ rest) = some ⟨t.kind, t.text, rest⟩) :
    lexFrom pos regexAllowed (t.gap ++ (t.text ++ rest)) =
      let later := lexFrom (t.placeAt pos).stop (t.kind.regexAfter regexAllowed t.text) rest
      ⟨t.placeAt pos :: later.tokens, later.errorAt⟩ := by
  -- a lexeme has a character, and this one is no blank
  obtain ⟨c, text, htext : t.text = c :: text⟩ :=
    List.exists_cons_of_ne_nil (Lexeme.text_ne_nil hlexeme)
  have hc : isBlank c = false := hhead c (by simp [htext])
  rw [htext, List.cons_append] at hlexeme ⊢
  rw [lexFrom_of_cons hgap hc, hlexeme]
  simp only [Token.placeAt, htext]

/-- Lexing stops at what is never closed. -/
theorem lexFrom_of_unclosed {pos : Nat} {regexAllowed : Bool} {gap : List Char} {c : Char}
    {cs : List Char} (hgap : ∀ d ∈ gap, isBlank d = true) (hc : isBlank c = false)
    (hunclosed : Lexeme.first? regexAllowed (c :: cs) = none) :
    lexFrom pos regexAllowed (gap ++ c :: cs) = ⟨[], some (pos + byteLength gap)⟩ := by
  rw [lexFrom_of_cons hgap hc, hunclosed]

/-- What stands behind the blanks of a text opens with no blank. -/
theorem isBlank_of_dropWhile {c : Char} {cs code : List Char}
    (h : cs.dropWhile isBlank = c :: code) : isBlank c = false := by
  have hnot := List.head?_dropWhile_not isBlank cs
  rw [h] at hnot
  simpa using hnot

/-- A text with a lexeme behind its blanks, taken apart. -/
theorem lexeme_behind_blanks {regexAllowed : Bool} {c : Char} {cs code : List Char} {l : Lexeme}
    (hcode : cs.dropWhile isBlank = c :: code)
    (hl : Lexeme.first? regexAllowed (c :: code) = some l) :
    cs = cs.takeWhile isBlank ++ (l.text ++ l.rest) ∧
      (∀ d ∈ cs.takeWhile isBlank, isBlank d = true) ∧ ∀ d ∈ l.text.head?, isBlank d = false := by
  -- the blanks, the text of the lexeme and the rest are the whole
  refine ⟨?_, List.all_eq_true.1 List.all_takeWhile, ?_⟩
  · rw [Lexeme.text_append_rest hl, ← hcode]
    exact List.takeWhile_append_dropWhile.symm
  · -- the text of the lexeme opens with the first character behind the blanks
    obtain ⟨taken, htaken, -⟩ := Lexeme.heads_of_first? hl
    simpa [htaken] using isBlank_of_dropWhile hcode

/-- The tokens of a text are readable, and the text opens with their spelling. The last one ends in
front of what is left, and without an error only blanks are left. -/
theorem readable_lexFrom (pos : Nat) (regexAllowed : Bool) (cs : List Char) :
    Token.Readable regexAllowed (lexFrom pos regexAllowed cs).tokens ∧
      ∃ rest, cs = Token.spelling (lexFrom pos regexAllowed cs).tokens ++ rest ∧
        (∀ t ∈ (lexFrom pos regexAllowed cs).tokens.getLast?, ∀ c ∈ rest.head?,
          t.kind.endsBefore c) ∧
        ((lexFrom pos regexAllowed cs).errorAt = none → ∀ c ∈ rest, isBlank c = true) := by
  fun_induction lexFrom pos regexAllowed cs with
  | case1 pos regexAllowed cs hcode =>
    -- nothing but blanks: no token, and all of it is left
    exact ⟨.nil, cs, rfl, by simp, fun _ => List.dropWhile_eq_nil_iff.1 hcode⟩
  -- what is not closed is no token, and may open with anything
  | case2 pos regexAllowed cs => exact ⟨.nil, cs, rfl, by simp, fun h => nomatch h⟩
  | case3 pos regexAllowed cs gap start c code hcode l hl token later ih =>
    obtain ⟨hreadable, rest, hrest, hends, hblank⟩ := ih
    obtain ⟨hcs, hgap, hhead⟩ := lexeme_behind_blanks hcode hl
    -- the spelling of the later tokens opens as the rest of the text does
    have hagain : Lexeme.first? regexAllowed (l.text ++ Token.spelling later.tokens) =
        some ⟨l.kind, l.text, Token.spelling later.tokens⟩ := by
      refine Lexeme.first?_append hl fun d hd => Lexeme.endsBefore_of_first? hl d ?_
      rw [hrest, List.head?_append, hd, Option.some_or, Option.mem_some]
    refine ⟨.cons hgap hhead hagain hreadable, rest, ?_, ?_, hblank⟩
    · calc cs = gap ++ (l.text ++ l.rest) := hcs
        _ = gap ++ (l.text ++ (Token.spelling later.tokens ++ rest)) := by rw [← hrest]
        _ = Token.spelling (token :: later.tokens) ++ rest := by simp [token]
    · show ∀ t ∈ (token :: later.tokens).getLast?, ∀ d ∈ rest.head?, t.kind.endsBefore d
      have hrest : l.rest = Token.spelling later.tokens ++ rest := hrest
      have hends : ∀ t ∈ later.tokens.getLast?, ∀ d ∈ rest.head?, t.kind.endsBefore d := hends
      cases htokens : later.tokens with
      | nil =>
        -- the lexeme is the last one, and what is left follows it
        rw [htokens, Token.spelling_nil, List.nil_append] at hrest
        rw [← hrest]
        simpa [token] using Lexeme.endsBefore_of_first? hl
      -- a later token is the last one, and the rest is that of the later ones
      | cons t ts => simpa [htokens] using hends

namespace Token

/-! ## Taking readable tokens apart and putting them together -/

theorem regexAfter_append (before : Bool) (ts us : List Token) :
    regexAfter before (ts ++ us) = regexAfter (regexAfter before ts) us :=
  List.foldl_append

namespace Readable

/-- A readable token is followed by a character that ends it, or by nothing. -/
theorem endsBefore {regexAllowed : Bool} {t : Token} {ts : List Token}
    (h : Readable regexAllowed (t :: ts)) : ∀ c ∈ (spelling ts).head?, t.kind.endsBefore c := by
  obtain _ | ⟨_, _, lexeme, _⟩ := h
  exact Lexeme.endsBefore_of_first? lexeme

/-- How the spelling of readable tokens opens depends on the first one alone. -/
theorem head?_spelling {regexAllowed : Bool} {t : Token} {ts : List Token}
    (h : Readable regexAllowed (t :: ts)) (us : List Token) :
    (spelling (t :: us)).head? = (spelling (t :: ts)).head? := by
  obtain _ | ⟨_, _, lexeme, _⟩ := h
  -- the first token has a character, and it decides
  obtain ⟨c, text, htext⟩ := List.exists_cons_of_ne_nil (Lexeme.text_ne_nil lexeme)
  simp only at htext
  simp [htext, List.head?_append]

theorem spelling_ne_nil {regexAllowed : Bool} {t : Token} {ts : List Token}
    (h : Readable regexAllowed (t :: ts)) : spelling (t :: ts) ≠ [] := by
  obtain _ | ⟨_, _, lexeme, _⟩ := h
  have htext : t.text ≠ [] := Lexeme.text_ne_nil lexeme
  simp [htext]

theorem tail {regexAllowed : Bool} {t : Token} {ts : List Token}
    (h : Readable regexAllowed (t :: ts)) : Readable (t.kind.regexAfter regexAllowed t.text) ts := by
  obtain _ | ⟨_, _, _, rest⟩ := h
  exact rest

theorem exists_lexeme {regexAllowed : Bool} {ts : List Token} (h : Readable regexAllowed ts)
    {t : Token} (ht : t ∈ ts) :
    ∃ before after, Lexeme.first? before (t.text ++ after) = some ⟨t.kind, t.text, after⟩ := by
  induction h with
  | nil => cases ht
  | cons gap head lexeme rest ih =>
    -- the lexeme is that of the first token or of a later one
    obtain rfl | ht := List.mem_cons.1 ht
    · exact ⟨_, _, lexeme⟩
    · exact ih ht

/-- A readable token is readable in front of any readable tokens that open with a character that
ends it. -/
theorem cons_of_endsBefore {regexAllowed : Bool} {t : Token} {ts us : List Token}
    (h : Readable regexAllowed (t :: ts))
    (hus : Readable (t.kind.regexAfter regexAllowed t.text) us)
    (hends : ∀ c ∈ (spelling us).head?, t.kind.endsBefore c) : Readable regexAllowed (t :: us) := by
  obtain _ | ⟨gap, head, lexeme, _⟩ := h
  exact .cons gap head (Lexeme.first?_append lexeme hends) hus

/-- The tokens in front of others are readable without them. -/
theorem left_of_append {regexAllowed : Bool} {ts us : List Token}
    (h : Readable regexAllowed (ts ++ us)) : Readable regexAllowed ts := by
  induction ts generalizing regexAllowed with
  | nil => exact .nil
  | cons t ts ih =>
    -- the first token ends as before, since what follows opens as before
    refine cons_of_endsBefore h (ih h.tail) fun c hc => h.endsBefore c ?_
    cases ts with
    | nil => simp at hc
    | cons u ts =>
      -- what follows opens with the second token, with the others or without
      have htail : Readable _ (u :: (ts ++ us)) := h.tail
      rwa [htail.head?_spelling ts] at hc

/-- The tokens behind others are readable where those leave off. -/
theorem right_of_append {regexAllowed : Bool} {ts us : List Token}
    (h : Readable regexAllowed (ts ++ us)) : Readable (regexAfter regexAllowed ts) us := by
  induction ts generalizing regexAllowed with
  | nil => exact h
  | cons t ts ih => exact ih h.tail

/-- The last of some readable tokens ends where those behind it open. -/
theorem endsBefore_of_append {regexAllowed : Bool} {ts us : List Token}
    (h : Readable regexAllowed (ts ++ us)) :
    ∀ t ∈ ts.getLast?, ∀ c ∈ (spelling us).head?, t.kind.endsBefore c := by
  intro t ht
  -- the last token and those behind it are readable together
  obtain ⟨vs, rfl⟩ := List.getLast?_eq_some_iff.1 ht
  rw [List.append_assoc] at h
  exact h.right_of_append.endsBefore

/-- Readable tokens may be followed by any readable tokens that open with a character that ends the
last one. -/
theorem append_of_endsBefore {regexAllowed : Bool} {ts us : List Token}
    (hts : Readable regexAllowed ts)
    (hends : ∀ t ∈ ts.getLast?, ∀ c ∈ (spelling us).head?, t.kind.endsBefore c)
    (hus : Readable (regexAfter regexAllowed ts) us) : Readable regexAllowed (ts ++ us) := by
  induction ts generalizing regexAllowed with
  | nil => exact hus
  | cons t ts ih =>
    cases ts with
    -- the first token is the last one, and ends in front of the others
    | nil => exact cons_of_endsBefore hts hus (hends t rfl)
    | cons u ts =>
      have happend := ih hts.tail (by simpa using hends) hus
      -- more follow the first token before the others do, so it is followed as before
      refine cons_of_endsBefore hts happend fun c hc => hts.endsBefore c ?_
      rwa [← hts.tail.head?_spelling (ts ++ us)]

/-- Readable tokens that end in a line break may be followed by any readable tokens. -/
theorem append {regexAllowed : Bool} {ts us : List Token} (hts : Readable regexAllowed ts)
    (hlast : ∀ t ∈ ts.getLast?, t.kind = .newline)
    (hus : Readable (regexAfter regexAllowed ts) us) : Readable regexAllowed (ts ++ us) :=
  -- a line break ends in front of anything
  hts.append_of_endsBefore (fun t ht c _ => by rw [hlast t ht]; rfl) hus

end Readable

end Token

/-! ## Lexing the spelling -/

/-- The spelling of readable tokens is lexed into these tokens, in front of any text that opens with
a character that ends the last one, and lexing goes on with that text. -/
theorem lexFrom_spelling_append {regexAllowed : Bool} {ts : List Token}
    (h : Token.Readable regexAllowed ts) {cs : List Char}
    (hends : ∀ t ∈ ts.getLast?, ∀ c ∈ cs.head?, t.kind.endsBefore c) (pos : Nat) :
    lexFrom pos regexAllowed (Token.spelling ts ++ cs) =
      let later := lexFrom (pos + byteLength (Token.spelling ts)) (Token.regexAfter regexAllowed ts) cs
      ⟨Token.place pos ts ++ later.tokens, later.errorAt⟩ := by
  induction ts generalizing regexAllowed pos with
  | nil => rfl
  | cons t ts ih =>
    -- the first token ends in front of the second one, or of the text if it is the last
    have hafter : ∀ c ∈ (Token.spelling ts ++ cs).head?, t.kind.endsBefore c := by
      cases ts with
      | nil => exact hends t rfl
      | cons u ts =>
        intro c hc
        obtain ⟨d, ds, hds⟩ := List.exists_cons_of_ne_nil h.tail.spelling_ne_nil
        rw [hds] at hc
        exact h.endsBefore c (by rw [hds]; exact hc)
    -- the last of the later tokens is the last of all
    have hlast : ∀ u ∈ ts.getLast?, ∀ c ∈ cs.head?, u.kind.endsBefore c := by
      cases ts with
      | nil => simp
      | cons u ts => simpa using hends
    have hlater := ih h.tail hlast (t.placeAt pos).stop
    -- the place behind all tokens is the same, counted from the first token or from behind it
    have hstop : (t.placeAt pos).stop + byteLength (Token.spelling ts) =
        pos + byteLength (Token.spelling (t :: ts)) := by
      simp only [Token.stop, Token.placeAt, Token.spelling_cons, byteLength_append]
      omega
    obtain _ | ⟨hblank, hhead, hlexeme, -⟩ := h
    have hagain := Lexeme.first?_append hlexeme hafter
    rw [hstop] at hlater
    rw [Token.spelling_cons, List.append_assoc, List.append_assoc,
      lexFrom_of_lexeme hblank hhead hagain, hlater, ← Token.spelling_cons]
    rfl

/-- The spelling of readable tokens is lexed into these tokens. -/
theorem lexFrom_spelling {regexAllowed : Bool} {ts : List Token}
    (h : Token.Readable regexAllowed ts) (pos : Nat) :
    lexFrom pos regexAllowed (Token.spelling ts) = ⟨Token.place pos ts, none⟩ := by
  -- an empty text has no tokens
  have hnone (n : Nat) (before : Bool) : lexFrom n before [] = ⟨[], none⟩ :=
    lexFrom_of_blank (by simp)
  have hlex := @lexFrom_spelling_append _ _ h [] (by simp) pos
  simpa [hnone] using hlex

/-- Behind readable tokens, lexing stops at what is never closed. -/
theorem errorAt_lexFrom_of_unclosed {regexAllowed : Bool} {ts : List Token}
    (h : Token.Readable regexAllowed ts) (gap : List Char) {c : Char} {cs : List Char}
    (hends : ∀ t ∈ ts.getLast?, ∀ d ∈ (gap ++ c :: cs).head?, t.kind.endsBefore d)
    (hgap : ∀ d ∈ gap, isBlank d = true) (hc : isBlank c = false)
    (hunclosed : Lexeme.first? (Token.regexAfter regexAllowed ts) (c :: cs) = none) (pos : Nat) :
    (lexFrom pos regexAllowed (Token.spelling ts ++ (gap ++ c :: cs))).errorAt =
      some (pos + byteLength (Token.spelling ts ++ gap)) := by
  rw [lexFrom_spelling_append h hends, lexFrom_of_unclosed hgap hc hunclosed, byteLength_append,
    Nat.add_assoc]

end Preload
