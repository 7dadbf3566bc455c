import Preload.Proofs.Program.Prologue
import Preload.Proofs.Program.Verdict
import Preload.Proofs.Token.Joining

/-!
# Reading joined texts

A line break ends the last group of the text in front of it, unless that text ends in an operator.
So two texts with a line break in between are read as each by itself, the second one further on.

Main statements:
* `Group.toStatement_shift`: a group further on is the same statement further on;
* `readGroups_append_newline`: the groups of both texts;
* `Statement.parseAll_append_newline`: the statements of both texts.
-/

namespace Preload

/-- The span `n` bytes further on. -/
def Span.shift (n : Nat) (s : Span) : Span :=
  ⟨n + s.start, n + s.stop⟩

/-- The statement `n` bytes further on. -/
def Statement.shift (n : Nat) (s : Statement) : Statement :=
  { s with span := s.span.shift n }

namespace Group

/-! ## Groups further on -/

/-- The group `n` bytes further on. -/
def shift (n : Nat) (g : Group) : Group :=
  ⟨g.first.shift n, g.rest.map (Token.shift n)⟩

theorem split_map_shift (n : Nat) (ts : List Token) :
    split (ts.map (Token.shift n)) = (split ts).map (shift n) := by
  have hkind (t : Token) : (t.shift n).kind = t.kind := rfl
  -- where tokens stand plays no part in how they are grouped
  rw [split, cut_map hkind]
  rfl

theorem map_word_shift (n : Nat) (g : Group) :
    (g.shift n).tokens.map Token.word = g.tokens.map Token.word := by
  simp [shift, tokens, Token.word, Token.shift, Function.comp_def]

@[simp] theorem words_shift (n : Nat) (g : Group) : (g.shift n).words = g.words := by
  rw [words_eq_coreWords, map_word_shift, words_eq_coreWords]

@[simp] theorem load?_shift (n : Nat) (g : Group) : (g.shift n).load? = g.load? := by
  rw [load?, words_shift, load?]

@[simp] theorem source_shift (n : Nat) (g : Group) : (g.shift n).source = g.source := by
  simp [source, shift, text, Token.shift, List.flatMap_map]

@[simp] theorem span_shift (n : Nat) (g : Group) : (g.shift n).span = g.span.shift n := by
  have hstop : (g.shift n).stop = n + g.stop := by
    -- only the last token says where a group stops, and it is further on as well
    simp only [stop, shift, List.getLast?_map, Option.getD_map]
    exact Nat.add_assoc n _ _
  rw [span, hstop]
  rfl

/-- A group further on is the same statement further on. -/
theorem toStatement_shift (n : Nat) (g : Group) :
    (g.shift n).toStatement = g.toStatement.shift n := by
  unfold toStatement
  rw [load?_shift, source_shift, span_shift]
  cases g.load? <;> rfl

end Group

/-! ## Both texts -/

/-- Two texts with a line break in between have the groups of both, those of the second one further
on, unless the first one ends in an operator or the second one opens with a slash where the first
one ends an operand. -/
theorem readGroups_append_newline {pos : Nat} {cs ds : List Char} {gs hs : List Group}
    (hcs : readGroups pos cs = .ok gs) (hds : readGroups 0 ds = .ok hs)
    (hoperator : ¬Token.endInOperator (lex pos cs).tokens)
    (hslash : (∀ t ∈ Token.lastCode? (lex pos cs).tokens, t.kind.allowsRegex t.text) ∨
      ∀ t ∈ Token.firstCode? (lex 0 ds).tokens, t.text.head? ≠ some '/') :
    readGroups pos (cs ++ '\n' :: ds) =
      .ok (gs ++ hs.map (Group.shift (pos + byteLength cs + 1))) := by
  obtain ⟨hcsError, hcsNested, rfl⟩ := of_readGroups hcs
  obtain ⟨hdsError, hdsNested, rfl⟩ := of_readGroups hds
  obtain ⟨feed, hfeed, hlex⟩ := lex_append_newline hcsError hdsError hslash
  -- no bracket is open at the line break, and none is closed by another text's
  have hbalanced : Balanced (lex pos cs).tokens := (exists_readGroups_iff hcsError).1 ⟨_, hcs⟩
  have hcheck : checkNesting [] (lex pos (cs ++ '\n' :: ds)).tokens = .ok () := by
    rw [hlex, checkNesting_balanced hbalanced, checkNesting_plain (by rw [hfeed]; rfl),
      checkNesting_eq_ok_iff, List.map_map]
    exact hdsNested
  -- and it ends the last group of the first text
  have hdepth : (Group.Cursor.between.run 0 (lex pos cs).tokens).2 = 0 :=
    run_depth_of_nested hcsNested .between
  have hends := Group.run_of_not_endInOperator hoperator 0
  have hsplit : Group.split (lex pos (cs ++ '\n' :: ds)).tokens =
      Group.split (lex pos cs).tokens ++
        (Group.split (lex 0 ds).tokens).map (Group.shift (pos + byteLength cs + 1)) := by
    rw [hlex, Group.split, Group.cut_append_newline hdepth hends hfeed, Group.split_map_shift]
    rfl
  rw [readGroups_of_lexed (by rw [hlex]), hcheck, hsplit]
  rfl

namespace Statement

/-- Two texts with a line break in between are read as each by itself, the second one further on,
unless the first one ends in an operator or the second one opens with a slash where the first one
ends an operand. -/
theorem parseAll_append_newline {a b : String} {ss us : List Statement} (ha : parseAll a = .ok ss)
    (hb : parseAll b = .ok us) (hoperator : ¬Token.endInOperator (lex 0 a.toList).tokens)
    (hslash : (∀ t ∈ Token.lastCode? (lex 0 a.toList).tokens, t.kind.allowsRegex t.text) ∨
      ∀ t ∈ Token.firstCode? (lex 0 b.toList).tokens, t.text.head? ≠ some '/') :
    parseAll (a ++ "\n" ++ b) = .ok (ss ++ us.map (shift (byteLength a.toList + 1))) := by
  -- what was read are the groups of both texts, as statements
  obtain ⟨gs, hgs, rfl⟩ := exists_of_map_eq_ok ha
  obtain ⟨hs, hhs, rfl⟩ := exists_of_map_eq_ok hb
  have hfeed : "\n".toList = ['\n'] := rfl
  have hread := readGroups_append_newline hgs hhs hoperator hslash
  rw [Nat.zero_add] at hread
  rw [parseAll, String.toList_append, String.toList_append, hfeed, List.append_assoc,
    List.singleton_append, hread]
  simp [Except.map, Group.toStatement_shift, Function.comp_def]

/-- A quote in a comment at the end of the first text, and a bracket in a comment that opens the
second one, say nothing about the other text. The two bytes of `é` shift the second text. -/
theorem parseAll_append_newline_of_comments :
    let a := "x = 'é'\n\nf()\t// '"
    let b := "/* ( */\n\nrequire('./b') /* ; */"
    let ss := [ofKind (.other "x = 'é'") ⟨0, 8⟩, ofKind (.other "f()\t// '") ⟨10, 18⟩]
    let us := [ofKind (.other "/* ( */") ⟨0, 7⟩,
      ⟨.load .requireCall "./b", ⟨9, 31⟩, .standard, some "require('./b') /* ; */"⟩]
    parseAll a = .ok ss ∧ parseAll b = .ok us ∧
      ¬Token.endInOperator (lex 0 a.toList).tokens ∧
      (∀ t ∈ Token.firstCode? (lex 0 b.toList).tokens, t.text.head? ≠ some '/') ∧
      parseAll (a ++ "\n" ++ b) = .ok (ss ++ us.map (shift 19)) := by
  intro a b ss us
  have ha : parseAll a = .ok ss := by decide +kernel
  have hb : parseAll b = .ok us := by decide +kernel
  have hoperator : ¬Token.endInOperator (lex 0 a.toList).tokens := by decide +kernel
  have hfirst : ∀ t ∈ Token.firstCode? (lex 0 b.toList).tokens, t.text.head? ≠ some '/' := by
    decide +kernel
  have hlength : byteLength a.toList = 18 := by decide +kernel
  have hread := parseAll_append_newline ha hb hoperator (.inr hfirst)
  rw [hlength] at hread
  exact ⟨ha, hb, hoperator, hfirst, hread⟩

end Statement

end Preload
