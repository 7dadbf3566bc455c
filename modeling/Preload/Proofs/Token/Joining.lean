import Preload.Proofs.Token.Place
import Preload.Proofs.Token.Slash

/-!
# Lexing joined texts

A line break ends every lexeme, so what stands behind it is lexed by itself. What stands in front of
it leaves two things behind: the place where the next line starts and whether a regex literal may
open it. The place shifts all tokens alike (`lexFrom_add`), and a regex literal matters only in
front of a slash.

Main statements:
* `lexFrom_append_newline`: lexing goes on behind a line break where the text in front of it leaves
  off;
* `lexFrom_of_firstCode`: a text whose code opens with no slash is lexed alike in any context;
* `lex_append_newline`: where nothing of the first text shows, both texts are lexed by themselves.
-/

namespace Preload

variable {pos : Nat} {regexAllowed : Bool} {cs : List Char}

/-! ## Texts further on -/

/-- The token `n` bytes further on. -/
def Token.shift (n : Nat) (t : Token) : Token :=
  { t with start := n + t.start }

/-- Further on, the same tokens are found further on. -/
theorem lexFrom_add (n pos : Nat) (regexAllowed : Bool) (cs : List Char) :
    lexFrom (n + pos) regexAllowed cs =
      ⟨(lexFrom pos regexAllowed cs).tokens.map (Token.shift n),
        (lexFrom pos regexAllowed cs).errorAt.map (n + ·)⟩ := by
  fun_induction lexFrom pos regexAllowed cs with
  | case1 pos regexAllowed cs hcode => exact lexFrom_of_blank (List.dropWhile_eq_nil_iff.1 hcode)
  | case2 pos regexAllowed cs gap start c code hcode hnone =>
    have hcs : cs = gap ++ c :: code := by
      rw [← hcode]
      exact List.takeWhile_append_dropWhile.symm
    have hgap : ∀ d ∈ gap, isBlank d = true := List.all_eq_true.1 List.all_takeWhile
    rw [hcs, lexFrom_of_unclosed hgap (isBlank_of_dropWhile hcode) hnone, Nat.add_assoc]
    rfl
  | case3 pos regexAllowed cs gap start c code hcode l hl token later ih =>
    obtain ⟨hcs, hgap, hhead⟩ := lexeme_behind_blanks hcode hl
    have hlexeme : Lexeme.first? regexAllowed (l.text ++ l.rest) = some ⟨l.kind, l.text, l.rest⟩ := by
      rw [Lexeme.text_append_rest hl, hl]
    have htoken : token.placeAt (n + pos) = token.shift n := by
      simp only [Token.placeAt, Token.shift, token, start, Nat.add_assoc]
    have hstop : (token.shift n).stop = n + token.stop := Nat.add_assoc n token.start _
    rw [hcs, lexFrom_of_lexeme (t := token) hgap hhead hlexeme, htoken, hstop, ih]
    rfl

/-! ## Behind a line break -/

/-- Lexing goes on behind a line break where the text in front of it leaves off. -/
theorem lexFrom_append_newline (h : (lexFrom pos regexAllowed cs).errorAt = none) (ds : List Char) :
    ∃ feed : Token, feed.kind = .newline ∧
      lexFrom pos regexAllowed (cs ++ '\n' :: ds) =
        let tokens := (lexFrom pos regexAllowed cs).tokens
        let later := lexFrom (pos + byteLength cs + 1) (Token.regexAfter regexAllowed tokens) ds
        ⟨tokens ++ feed :: later.tokens, later.errorAt⟩ := by
  obtain ⟨hreadable, blanks, hcs, hends, hblank⟩ := readable_lexFrom pos regexAllowed cs
  have hplace := Token.place_lexFrom pos regexAllowed cs
  generalize (lexFrom pos regexAllowed cs).tokens = tokens at hreadable hcs hends hplace ⊢
  -- the last token ends in front of the blanks, and any token ends in front of a line break
  have hafter : ∀ t ∈ tokens.getLast?, ∀ c ∈ (blanks ++ '\n' :: ds).head?, t.kind.endsBefore c := by
    intro t ht c hc
    cases blanks with
    | nil =>
      cases hc
      exact t.kind.endsBefore_newline
    | cons b blanks => exact hends t ht c hc
  have hlength : pos + byteLength (Token.spelling tokens) + byteLength blanks = pos + byteLength cs := by
    rw [hcs, byteLength_append, Nat.add_assoc]
  refine ⟨⟨blanks, .newline, ['\n'], pos + byteLength cs⟩, rfl, ?_⟩
  conv => lhs; rw [hcs]
  rw [List.append_assoc, lexFrom_spelling_append hreadable hafter, hplace,
    lexFrom_of_cons (hblank h) rfl, hlength]
  rfl

/-! ## In other contexts -/

/-- A text whose code opens with no slash is lexed alike in any context. -/
theorem lexFrom_of_firstCode (h : (lexFrom pos regexAllowed cs).errorAt = none)
    (hslash : ∀ t ∈ Token.firstCode? (lexFrom pos regexAllowed cs).tokens, t.text.head? ≠ some '/')
    (after : Bool) :
    lexFrom pos after cs = ⟨(lexFrom pos regexAllowed cs).tokens, none⟩ := by
  obtain ⟨hreadable, blanks, hcs, hends, hblank⟩ := readable_lexFrom pos regexAllowed cs
  have hplace := Token.place_lexFrom pos regexAllowed cs
  generalize (lexFrom pos regexAllowed cs).tokens = tokens at hreadable hcs hends hslash hplace ⊢
  -- the same tokens are readable in the other context, and they are at their places already
  have hreadable := hreadable.of_firstCode hslash after
  rw [hcs, lexFrom_spelling_append hreadable hends, hplace, lexFrom_of_blank (hblank h)]
  simp

/-! ## Both texts -/

/-- Two texts with a line break in between are lexed by themselves, unless the second one opens with
a slash where the first one ends an operand. -/
theorem lex_append_newline {ds : List Char} (hcs : (lex pos cs).errorAt = none)
    (hds : (lex 0 ds).errorAt = none)
    (hslash : (∀ t ∈ Token.lastCode? (lex pos cs).tokens, t.kind.allowsRegex t.text) ∨
      ∀ t ∈ Token.firstCode? (lex 0 ds).tokens, t.text.head? ≠ some '/') :
    ∃ feed : Token, feed.kind = .newline ∧
      lex pos (cs ++ '\n' :: ds) =
        ⟨(lex pos cs).tokens ++
          feed :: (lex 0 ds).tokens.map (Token.shift (pos + byteLength cs + 1)), none⟩ := by
  obtain ⟨feed, hfeed, hlex⟩ := lexFrom_append_newline hcs ds
  -- at its own place the second text is lexed as by itself, whatever the first one leaves behind
  have hcontext : lexFrom 0 (Token.regexAfter true (lex pos cs).tokens) ds = lex 0 ds := by
    obtain hlast | hfirst := hslash
    · have hregex : Token.regexAfter true (lex pos cs).tokens = true := by
        rw [Token.regexAfter_eq]
        cases hcode : Token.lastCode? (lex pos cs).tokens with
        | none => rfl
        | some t => exact hlast t hcode
      rw [hregex, lex]
    · rw [lexFrom_of_firstCode hds hfirst, ← hds]
      rfl
  -- and so it is further on
  have hshifted := lexFrom_add (pos + byteLength cs + 1) 0
    (Token.regexAfter true (lex pos cs).tokens) ds
  rw [Nat.add_zero, hcontext, hds] at hshifted
  refine ⟨feed, hfeed, ?_⟩
  rw [lex, hlex]
  show Lexing.mk _ _ = _
  rw [← lex, hshifted]
  rfl

end Preload
