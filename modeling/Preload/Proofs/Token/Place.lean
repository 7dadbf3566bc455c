import Preload.Proofs.Token.Grammar

/-!
# Places of tokens

Lexing gives each token its place, and the places follow from the texts alone: a token starts behind
all that is spelled in front of it.

Main statements:
* `Token.place_lexFrom`: lexed tokens are at their places;
* `Token.stop_of_place`: where the last of some tokens stops;
* `Token.Readable.sound`: what is known of each token by itself.
-/

namespace Preload

namespace Token

/-- What is known of a token that was lexed: only blanks stand in front of it, and it is not
empty. -/
structure Sound (t : Token) : Prop where
  gap : ∀ c ∈ t.gap, isBlank c = true
  text_ne_nil : t.text ≠ []
  text_of_newline : t.kind = .newline → t.text = ['\n']

/-- A line break is the whole text of its token. -/
theorem Kind.Spells.eq_newline {text : List Char} (h : Kind.newline.Spells text) : text = ['\n'] := by
  cases h
  rfl

theorem Readable.sound {regexAllowed : Bool} {ts : List Token} (h : Readable regexAllowed ts) :
    ∀ t ∈ ts, t.Sound := by
  intro t ht
  have hspells : t.kind.Spells t.text := h.spells t ht
  induction h with
  | nil => cases ht
  | cons gap head lexeme rest ih =>
    -- only the front of the tokens is lexed here: those behind it are readable by themselves
    obtain rfl | ht := List.mem_cons.1 ht
    · exact ⟨gap, Lexeme.text_ne_nil lexeme, fun hkind => (hkind ▸ hspells).eq_newline⟩
    · exact ih ht

/-! ## One place after the other -/

theorem length_place (pos : Nat) (ts : List Token) : (place pos ts).length = ts.length := by
  induction ts generalizing pos with
  | nil => rfl
  | cons t ts ih => rw [place, List.length_cons, ih, List.length_cons]

theorem stop_placeAt (pos : Nat) (t : Token) :
    (t.placeAt pos).stop = pos + byteLength (t.gap ++ t.text) := by
  rw [stop, placeAt, byteLength_append, Nat.add_assoc]

/-- Tokens behind others start where those stop. -/
theorem place_append (pos : Nat) (ts us : List Token) :
    place pos (ts ++ us) = place pos ts ++ place (pos + byteLength (spelling ts)) us := by
  induction ts generalizing pos with
  | nil => rfl
  | cons t ts ih =>
    rw [List.cons_append, place, ih, stop_placeAt, place, stop_placeAt, List.cons_append,
      -- where the first token stops, the others start, so both sums are of the same three sizes
      Nat.add_assoc, ← byteLength_append, List.append_assoc, ← spelling_cons]

/-- Tokens are at their places just where both their parts are. -/
theorem place_append_eq_iff {pos : Nat} {ts us : List Token} :
    place pos (ts ++ us) = ts ++ us ↔
      place pos ts = ts ∧ place (pos + byteLength (spelling ts)) us = us := by
  rw [place_append]
  -- placing keeps the number of tokens, so the two parts can be compared one by one
  refine ⟨fun h => List.append_inj h (length_place pos ts), fun h => ?_⟩
  rw [h.1, h.2]

/-- A token starts behind the tokens and the blanks in front of it. -/
theorem start_of_place {pos : Nat} {ts us : List Token} {t : Token}
    (h : place pos (ts ++ t :: us) = ts ++ t :: us) :
    t.start = pos + byteLength (spelling ts ++ t.gap) := by
  obtain ⟨-, hbehind⟩ := place_append_eq_iff.1 h
  -- what is in front of the token has its own size, and the gap of the token comes on top
  obtain ⟨hplace, -⟩ := List.cons.inj hbehind
  have hstart : (t.placeAt (pos + byteLength (spelling ts))).start = t.start :=
    congrArg Token.start hplace
  rw [← hstart, byteLength_append, ← Nat.add_assoc]
  rfl

/-- The last of some tokens stops where their spelling does. -/
theorem stop_of_place {pos : Nat} {ts : List Token} (h : place pos ts = ts) {t : Token}
    (ht : t ∈ ts.getLast?) : t.stop = pos + byteLength (spelling ts) := by
  obtain ⟨us, rfl⟩ := List.getLast?_eq_some_iff.1 ht
  obtain ⟨-, hlast⟩ := place_append_eq_iff.1 h
  obtain ⟨hplace, -⟩ := List.cons.inj hlast
  rw [← hplace, stop_placeAt, Nat.add_assoc, ← byteLength_append, spelling_append, spelling_cons,
    spelling_nil, List.append_nil]
  rfl

/-- Lexed tokens are at their places. -/
theorem place_lexFrom (pos : Nat) (regexAllowed : Bool) (cs : List Char) :
    place pos (lexFrom pos regexAllowed cs).tokens = (lexFrom pos regexAllowed cs).tokens := by
  fun_induction lexFrom pos regexAllowed cs with
  | case1 => rfl
  | case2 => rfl
  | case3 pos regexAllowed cs gap start c code hcode l hl token later ih =>
    -- the first token is built at its place, so only those behind it are left
    show token :: place token.stop later.tokens = token :: later.tokens
    rw [ih]

end Token

end Preload
