import Preload.Proofs.Balance
import Preload.Proofs.Program.Reading
import Preload.Proofs.Token.Grammar
import Preload.Proofs.Token.Place

/-!
# Which sources are programs

A source is a program if it can be lexed behind its shebang line and if its brackets are balanced.
Otherwise the error names the first thing that is wrong, at its place in the whole source: the
literal or comment that is never closed, or else the bracket to blame.

Main statements:
* `readGroups_of_errorAt` and `readGroups_of_lexed`: what reading makes of each outcome of lexing;
* `Token.exists_delimiter_of_blames`: the bracket to blame stands where the error says;
* `Program.parse_verdict`: the outcome for every source.
-/

namespace Preload

/-! ## Groups or an error -/

theorem readGroups_of_errorAt {pos n : Nat} {cs : List Char} (h : (lex pos cs).errorAt = some n) :
    readGroups pos cs = .error (.unclosed n) := by
  simp only [readGroups, h]

theorem readGroups_of_lexed {pos : Nat} {cs : List Char} (h : (lex pos cs).errorAt = none) :
    readGroups pos cs =
      (checkNesting [] (lex pos cs).tokens).map fun _ => Group.split (lex pos cs).tokens := by
  simp only [readGroups, h]

/-- What was lexed is read just if its brackets are balanced. -/
theorem exists_readGroups_iff {pos : Nat} {cs : List Char} (h : (lex pos cs).errorAt = none) :
    (∃ gs, readGroups pos cs = .ok gs) ↔ Balanced (lex pos cs).tokens := by
  rw [readGroups_of_lexed h, ← checkNesting_eq_ok_iff_balanced]
  cases hcheck : checkNesting [] (lex pos cs).tokens with
  | error e => simp [Except.map]
  | ok u => simp [Except.map]

/-- What was lexed and is not balanced is refused for the bracket to blame. -/
theorem exists_blames_of_readGroups {pos : Nat} {cs : List Char} (h : (lex pos cs).errorAt = none)
    (hopen : ¬Balanced (lex pos cs).tokens) :
    ∃ delimiter n, readGroups pos cs = .error (.unbalanced delimiter n) ∧
      Blames (lex pos cs).tokens delimiter n := by
  rw [readGroups_of_lexed h]
  -- from an empty stack of brackets there are two ways for the check to end
  obtain ⟨-, hbalanced⟩ | ⟨delimiter, n, herror, hblames⟩ :=
    checkNesting_cases (.balanced .nil) (lex pos cs).tokens
  · exact absurd hbalanced hopen
  · refine ⟨delimiter, n, ?_, hblames⟩
    rw [herror]
    rfl

namespace Token

/-- The text of a bracket is its character. -/
theorem text_of_bracket {t : Token} (h : t.kind.Spells t.text) {bracket : Bracket} {c : Char}
    (hkind : (t.kind = .opening bracket ∧ c = bracket.opener) ∨
      (t.kind = .closing bracket ∧ c = bracket.closer)) : t.text = [c] := by
  -- how a bracket is spelled is up to its kind alone
  generalize t.text = text at h
  obtain ⟨hkind, rfl⟩ | ⟨hkind, rfl⟩ := hkind
  · rw [hkind] at h
    cases h
    rfl
  · rw [hkind] at h
    cases h
    rfl

/-- The bracket to blame stands in the text where the error says. -/
theorem exists_delimiter_of_blames {pos : Nat} {ts : List Token} (hplace : place pos ts = ts)
    (hspells : ∀ t ∈ ts, t.kind.Spells t.text) {delimiter : Char} {n : Nat}
    (h : Blames ts delimiter n) :
    ∃ before after, spelling ts = before ++ delimiter :: after ∧ n = pos + byteLength before := by
  obtain ⟨t, ht, rfl, bracket, hkind⟩ := h.exists_token
  have htext : t.text = [delimiter] := text_of_bracket (hspells t ht) hkind
  -- the token to blame divides the text into what is in front of its gap and what is behind it
  obtain ⟨us, vs, rfl⟩ := List.append_of_mem ht
  refine ⟨spelling us ++ t.gap, spelling vs, ?_, start_of_place hplace⟩
  rw [spelling_append, spelling_cons, htext]
  simp

end Token

namespace Program

/-- The outcome of reading a source. Behind its shebang line stand the tokens that are lexed,
blanks, and then nothing or a literal or comment that is never closed; that is the only error of
lexing, and its place is the one where the literal or comment opens. A source that can be lexed is
read if its brackets are balanced. Otherwise the bracket to blame is named, with its place. -/
theorem parse_verdict (source : String) :
    ∃ line rest shebang, source.toList = line ++ rest ∧ IsShebangLine line rest shebang ∧
      (shebang = none → ¬['#', '!'] <+: rest) ∧
      let lexing := lex (byteLength line) rest
      (∀ t ∈ lexing.tokens, t.kind.Spells t.text) ∧
        (∃ gap tail, rest = Token.spelling lexing.tokens ++ (gap ++ tail) ∧
          (∀ c ∈ gap, isBlank c = true) ∧ (lexing.errorAt = none ↔ tail = []) ∧
          ∀ n, lexing.errorAt = some n →
            n = byteLength (line ++ (Token.spelling lexing.tokens ++ gap)) ∧
              Unclosed (Token.regexAfter true lexing.tokens) tail) ∧
        (∀ n, parse source = .error (.unclosed n) ↔ lexing.errorAt = some n) ∧
        (lexing.errorAt = none →
          ((∃ p, parse source = .ok p) ↔ Balanced lexing.tokens) ∧
          (¬Balanced lexing.tokens → ∃ delimiter before after,
            parse source = .error (.unbalanced delimiter (byteLength before)) ∧
              source.toList = before ++ delimiter :: after ∧
              Blames lexing.tokens delimiter (byteLength before))) := by
  obtain ⟨line, rest, shebang, hsource, hshebang, hmarker, hparse⟩ := exists_parse_eq source
  have hspells : ∀ t ∈ (lex (byteLength line) rest).tokens, t.kind.Spells t.text :=
    (readable_lexFrom (byteLength line) true rest).1.spells
  obtain ⟨gap, tail, hrest, hgap, hend, herror⟩ := lexFrom_cases (byteLength line) true rest
  refine ⟨line, rest, shebang, hsource, hshebang, hmarker, hspells,
    ⟨gap, tail, hrest, hgap, hend, ?_⟩, ?_, fun hlexed => ⟨?_, ?_⟩⟩
  · intro n hn
    obtain ⟨hplace, hunclosed⟩ := herror n hn
    rw [byteLength_append]
    exact ⟨hplace, hunclosed⟩
  · intro n
    rw [hparse]
    -- an error of lexing is passed on before any bracket is looked at
    cases hlexing : (lex (byteLength line) rest).errorAt with
    | some m =>
      rw [readGroups_of_errorAt hlexing]
      show Except.error (ParseError.unclosed m) = _ ↔ _
      simp
    | none =>
      -- the other complaint is about brackets
      refine iff_of_false (fun hunclosed => ?_) (Option.some_ne_none n).symm
      by_cases hbalanced : Balanced (lex (byteLength line) rest).tokens
      · obtain ⟨gs, hgs⟩ := (exists_readGroups_iff hlexing).2 hbalanced
        rw [hgs] at hunclosed
        cases hunclosed
      · obtain ⟨_, _, hrefused, -⟩ := exists_blames_of_readGroups hlexing hbalanced
        rw [hrefused] at hunclosed
        cases hunclosed
  · -- a program is made of whatever groups there are
    rw [hparse, ← exists_readGroups_iff hlexed]
    constructor
    · rintro ⟨p, hp⟩
      obtain ⟨gs, hgs, -⟩ := exists_of_map_eq_ok hp
      exact ⟨gs, hgs⟩
    · rintro ⟨gs, hgs⟩
      rw [hgs]
      exact ⟨_, rfl⟩
  · intro hopen
    -- the blame is put on one of the tokens, which are at their places
    obtain ⟨delimiter, n, hrefused, hblames⟩ := exists_blames_of_readGroups hlexed hopen
    obtain ⟨before, after, hspelling, rfl⟩ :=
      Token.exists_delimiter_of_blames (Token.place_lexFrom (byteLength line) true rest) hspells hblames
    -- the shebang line and what is behind the tokens complete the source
    refine ⟨delimiter, line ++ before, after ++ (gap ++ tail), ?_, ?_, ?_⟩
    · rw [hparse, hrefused, byteLength_append]
      rfl
    · rw [hsource, hrest, hspelling]
      simp
    · rw [byteLength_append]
      exact hblames

/-- The innermost open bracket is blamed for the one that does not close it. -/
example : parse "#!x\nf([é)" = .error (.unbalanced '[' 6) := by decide +kernel

end Program

end Preload
