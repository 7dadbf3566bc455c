import Preload.Proofs.Token.Literals
import Preload.Proofs.Token.Relexing

/-!
# The grammar of tokens

`Token.Kind.Spells` says which texts a token of each kind may have, and `Unclosed` what no token can
be read from. Between them they leave nothing out: at every place behind blanks, lexing either finds
a token with a text of its kind or stops in front of a literal or a comment that is never closed.

Main statements:
* `Lexeme.spells_of_first?`: what is read is a text of its kind;
* `Lexeme.first?_eq_none_iff`: only what is never closed cannot be read;
* `Token.Readable.spells` and `lexFrom_cases`: the tokens of a text, and what is behind them.
-/

namespace Preload

/-! ## Texts of tokens -/

/-- Which texts a token of a kind may have. -/
inductive Token.Kind.Spells : Token.Kind → List Char → Prop
  | keyword (style : ImportStyle) : Spells (.keyword style) style.keyword.toList
  | ident {c : Char} {cs : List Char} (hstart : isWordStart c = true)
      (hpart : ∀ d ∈ cs, isWordPart d = true)
      (hword : ImportStyle.ofKeyword? (String.ofList (c :: cs)) = none) : Spells .ident (c :: cs)
  | number {c : Char} {cs : List Char} (hstart : c.isDigit = true)
      (hpart : ∀ d ∈ cs, isNumberPart d = true) : Spells .number (c :: cs)
  | string {quote : Char} {body : List Char} (hquote : quote = '\'' ∨ quote = '"')
      (hbody : LiteralBody quote true body) : Spells .string (quote :: (body ++ [quote]))
  | template {body : List Char} (hbody : LiteralBody '\x60' false body) :
      Spells .template ('\x60' :: (body ++ ['\x60']))
  | lineComment {cs : List Char} (hfeed : '\n' ∉ cs) : Spells .lineComment ('/' :: '/' :: cs)
  | blockComment {body : List Char} (hbody : CommentBody body) :
      Spells .blockComment ('/' :: '*' :: (body ++ ['*', '/']))
  | regex {body flags : List Char} (hbody : RegexBody body)
      (hflags : ∀ c ∈ flags, isWordPart c = true) : Spells .regex ('/' :: (body ++ '/' :: flags))
  | opening (bracket : Bracket) : Spells (.opening bracket) [bracket.opener]
  | closing (bracket : Bracket) : Spells (.closing bracket) [bracket.closer]
  | semicolon : Spells .semicolon [';']
  | newline : Spells .newline ['\n']
  | slash : Spells .slash ['/']
  | punct {c : Char} {cs : List Char} (hstart : isPunct c = true)
      (hpart : ∀ d ∈ cs, isPunct d = true) : Spells .punct (c :: cs)

/-- Whether a text opens with a literal or a comment that is never closed, given whether a slash may
open a regex literal. Strings and regex literals have to be closed on their line. -/
inductive Unclosed (regexAllowed : Bool) : List Char → Prop
  | string {quote : Char} {cs : List Char} (hquote : quote = '\'' ∨ quote = '"')
      (hopen : ¬Closes (LiteralBody quote true) quote cs) : Unclosed regexAllowed (quote :: cs)
  | template {cs : List Char} (hopen : ¬Closes (LiteralBody '\x60' false) '\x60' cs) :
      Unclosed regexAllowed ('\x60' :: cs)
  | comment {cs : List Char} (hopen : ¬['*', '/'] <:+: cs) :
      Unclosed regexAllowed ('/' :: '*' :: cs)
  | regex {cs : List Char} (hallowed : regexAllowed = true)
      (hhead : ∀ c ∈ cs.head?, c ≠ '/' ∧ c ≠ '*') (hopen : ¬Closes RegexBody '/' cs) :
      Unclosed regexAllowed ('/' :: cs)

namespace Bracket

theorem eq_opener_of_ofOpener? {c : Char} {bracket : Bracket} (h : ofOpener? c = some bracket) :
    c = bracket.opener := by
  unfold ofOpener? at h
  -- three brackets, each with one opener
  split_ifs at h with hround hcurly hsquare <;> cases h <;> assumption

theorem eq_closer_of_ofCloser? {c : Char} {bracket : Bracket} (h : ofCloser? c = some bracket) :
    c = bracket.closer := by
  unfold ofCloser? at h
  split_ifs at h with hround hcurly hsquare <;> cases h <;> assumption

end Bracket

namespace Lexeme

/-- Characters that are read as a run are all in its class. -/
theorem forall_mem_taken_run (inRun : Char → Bool) (cs : List Char) :
    ∀ c ∈ (Split.run inRun cs).taken, inRun c = true :=
  List.all_eq_true.1 List.all_takeWhile

theorem spells_wordKind {c : Char} {cs : List Char} (hstart : isWordStart c = true)
    (hpart : ∀ d ∈ cs, isWordPart d = true) : (wordKind (c :: cs)).Spells (c :: cs) := by
  unfold wordKind
  -- a keyword is a word as well, so the table of keywords decides
  cases hword : ImportStyle.ofKeyword? (String.ofList (c :: cs)) with
  | none => exact .ident hstart hpart hword
  | some style =>
    have htext : c :: cs = style.keyword.toList := by
      rw [← ImportStyle.eq_keyword_of_ofKeyword? hword, String.toList_ofList]
    rw [htext]
    exact .keyword style

theorem spells_of_slash? {regexAllowed : Bool} {cs : List Char} {l : Lexeme}
    (h : slash? regexAllowed cs = some l) : l.kind.Spells l.text := by
  unfold slash? at h
  split at h
  · next cs =>
    cases h
    -- the text of the line stops in front of its line break
    refine .lineComment fun hfeed => ?_
    have hline := forall_mem_taken_run (· != '\n') cs '\n' hfeed
    simp at hline
  · -- a block comment is closed by its own end, which the reader takes in
    obtain ⟨s, hs, rfl⟩ := Option.map_eq_some_iff.1 h
    obtain ⟨body, hbody, htaken⟩ := exists_body_of_commentTail? hs
    have htext : (ofSplit .blockComment '/' (s.push ['*'])).text =
        '/' :: '*' :: (body ++ ['*', '/']) := congrArg ('/' :: '*' :: ·) htaken
    rw [htext]
    exact .blockComment hbody
  · -- no comment: a regex literal where one may stand, a division elsewhere
    split at h
    · obtain ⟨s, hs, rfl⟩ := Option.map_eq_some_iff.1 h
      obtain ⟨body, flags, hbody, hflags, htaken⟩ := exists_body_of_regexLiteralTail? hs
      have htext : (ofSplit .regex '/' s).text = '/' :: (body ++ '/' :: flags) :=
        congrArg ('/' :: ·) htaken
      rw [htext]
      exact .regex hbody hflags
    · cases h
      exact .slash

/-- What is read behind blanks is a text of its kind. -/
theorem spells_of_first? {regexAllowed : Bool} {c : Char} {cs : List Char} {l : Lexeme}
    (hblank : isBlank c = false) (h : first? regexAllowed (c :: cs) = some l) :
    l.kind.Spells l.text := by
  -- one case for each rule, in the order in which they are tried
  rw [first?] at h
  split_ifs at h with hfeed hsemi hslash hquote htick hword hdigit
  · -- single characters are their own text
    cases h
    subst hfeed
    exact .newline
  · cases h
    subst hsemi
    exact .semicolon
  · exact spells_of_slash? h
  · obtain ⟨s, hs, rfl⟩ := Option.map_eq_some_iff.1 h
    obtain ⟨body, hbody, htaken⟩ := exists_body_of_literalTail? hs
    have htext : (ofSplit .string c s).text = c :: (body ++ [c]) := congrArg (c :: ·) htaken
    rw [htext]
    exact .string hquote hbody
  · obtain ⟨s, hs, rfl⟩ := Option.map_eq_some_iff.1 h
    subst htick
    obtain ⟨body, hbody, htaken⟩ := exists_body_of_literalTail? hs
    have htext : (ofSplit .template '\x60' s).text = '\x60' :: (body ++ ['\x60']) :=
      congrArg ('\x60' :: ·) htaken
    rw [htext]
    exact .template hbody
  · cases h
    exact spells_wordKind hword (forall_mem_taken_run isWordPart cs)
  · cases h
    exact .number hdigit (forall_mem_taken_run isNumberPart cs)
  · -- brackets are left, and then whatever is none
    split at h
    · next bracket hopener =>
      cases h
      rw [Bracket.eq_opener_of_ofOpener? hopener]
      exact .opening bracket
    · next bracket _ hcloser =>
      cases h
      rw [Bracket.eq_closer_of_ofCloser? hcloser]
      exact .closing bracket
    · next hopener hcloser =>
      cases h
      -- no other rule takes the character, so it is one of an operator
      have hpart : isWordPart c = false := by
        have halpha : isWordPart c = (isWordStart c || c.isDigit) := by
          simp only [isWordPart, isWordStart, Char.isAlphanum, Bool.or_assoc, Bool.or_comm,
            Bool.or_left_comm]
        rw [halpha, Bool.or_eq_false_iff]
        exact ⟨by simpa using hword, by simpa using hdigit⟩
      have hpunct : isPunct c = true := by
        rw [not_or] at hquote
        simp [isPunct, isDelimiter, hblank, hpart, hopener, hcloser, hfeed, hsemi, hslash, hquote,
          htick]
      exact .punct hpunct (forall_mem_taken_run isPunct cs)

/-! ## What cannot be read -/

theorem slash?_eq_none_iff {regexAllowed : Bool} {cs : List Char} :
    slash? regexAllowed cs = none ↔ Unclosed regexAllowed ('/' :: cs) := by
  constructor
  · intro h
    unfold slash? at h
    split at h
    · cases h
    · -- a block comment is given up just where no end follows
      rw [Option.map_eq_none_iff, commentTail?_eq_none_iff] at h
      exact .comment h
    · next hline hblock =>
      split at h
      · next hallowed =>
        rw [Option.map_eq_none_iff, regexLiteralTail?_eq_none_iff] at h
        refine .regex hallowed (fun c hc => ?_) h
        -- what opens like a comment was taken by the two rules before
        obtain ⟨ds, rfl⟩ := List.head?_eq_some_iff.1 hc
        exact ⟨by rintro rfl; exact hline _ rfl, by rintro rfl; exact hblock _ rfl⟩
      · cases h
  · intro h
    cases h with
    -- a quote is no slash
    | string hquote => obtain hquote | hquote := hquote <;> cases hquote
    | comment hopen =>
      rw [slash?, commentTail?_eq_none_iff.2 hopen]
      rfl
    | regex hallowed hhead hopen =>
      rw [slash?_of_head hhead, if_pos hallowed, regexLiteralTail?_eq_none_iff.2 hopen]
      rfl

/-- Only what is never closed cannot be read. -/
theorem first?_eq_none_iff {regexAllowed : Bool} {c : Char} {cs : List Char} :
    first? regexAllowed (c :: cs) = none ↔ Unclosed regexAllowed (c :: cs) := by
  constructor
  · intro h
    rw [first?] at h
    -- of all rules only those of literals and comments can give up
    split_ifs at h with hfeed hsemi hslash hquote htick hword hdigit
    · subst hslash
      exact slash?_eq_none_iff.1 h
    · have hne : c ≠ '\\' := by
        obtain rfl | rfl := hquote <;> decide
      rw [Option.map_eq_none_iff, literalTail?_eq_none_iff hne] at h
      exact .string hquote h
    · subst htick
      rw [Option.map_eq_none_iff, literalTail?_eq_none_iff (by decide)] at h
      exact .template h
    · split at h <;> cases h
  · intro h
    -- what is never closed was given up by the rule that its first character chooses
    cases h with
    | string hquote hopen =>
      obtain rfl | rfl := hquote
      · simp [first?, (literalTail?_eq_none_iff (by decide)).2 hopen]
      · simp [first?, (literalTail?_eq_none_iff (by decide)).2 hopen]
    | template hopen => simp [first?, (literalTail?_eq_none_iff (by decide)).2 hopen]
    | comment hopen =>
      rw [first?_slash]
      exact slash?_eq_none_iff.2 (.comment hopen)
    | regex hallowed hhead hopen =>
      rw [first?_slash]
      exact slash?_eq_none_iff.2 (.regex hallowed hhead hopen)

end Lexeme

/-! ## Whole texts -/

/-- Readable tokens have texts of their kinds. -/
theorem Token.Readable.spells {regexAllowed : Bool} {ts : List Token} (h : Readable regexAllowed ts) :
    ∀ t ∈ ts, t.kind.Spells t.text := by
  induction h with
  | nil => simp
  | @cons regexAllowed t ts gap head lexeme rest ih =>
    -- the rules speak of a first character, and a token has one
    obtain ⟨c, cs, htext : t.text = c :: cs⟩ :=
      List.exists_cons_of_ne_nil (Lexeme.text_ne_nil lexeme)
    have hblank : isBlank c = false := head c (by simp [htext])
    have hspells : t.kind.Spells t.text := by
      rw [htext, List.cons_append] at lexeme
      rw [htext]
      exact Lexeme.spells_of_first? hblank lexeme
    exact List.forall_mem_cons.2 ⟨hspells, ih⟩

/-- Behind the tokens of a text there are blanks, and then nothing or what is never closed. -/
theorem lexFrom_cases (pos : Nat) (regexAllowed : Bool) (cs : List Char) :
    let lexing := lexFrom pos regexAllowed cs
    ∃ gap tail, cs = Token.spelling lexing.tokens ++ (gap ++ tail) ∧
      (∀ c ∈ gap, isBlank c = true) ∧ (lexing.errorAt = none ↔ tail = []) ∧
      ∀ n, lexing.errorAt = some n →
        n = pos + byteLength (Token.spelling lexing.tokens ++ gap) ∧
          Unclosed (Token.regexAfter regexAllowed lexing.tokens) tail := by
  intro lexing
  -- the cases are those of the lexer: the end of the text, an error, and one more token
  fun_induction lexFrom pos regexAllowed cs with
  | case1 pos regexAllowed cs hcode =>
    -- nothing but blanks is left
    have hblank : ∀ c ∈ cs, isBlank c = true := List.dropWhile_eq_nil_iff.1 hcode
    refine ⟨cs, [], (List.append_nil cs).symm, hblank, iff_of_true rfl rfl, fun n hn => ?_⟩
    cases hn
  | case2 pos regexAllowed cs gap start c code hcode hnone =>
    -- the text is blanks, and what no rule takes
    have hgap : ∀ d ∈ gap, isBlank d = true := List.all_eq_true.1 List.all_takeWhile
    have hcs : cs = gap ++ c :: code := by
      rw [← hcode]
      exact List.takeWhile_append_dropWhile.symm
    refine ⟨gap, c :: code, hcs, hgap,
      iff_of_false (Option.some_ne_none start) (List.cons_ne_nil c code), fun n hn => ?_⟩
    cases hn
    exact ⟨rfl, Lexeme.first?_eq_none_iff.1 hnone⟩
  | case3 pos regexAllowed cs gap start c code hcode l hl token later ih =>
    obtain ⟨blanks, tail, hrest, hblanks, hend, herror⟩ := ih
    have hcs : cs = gap ++ (l.text ++ l.rest) := by
      rw [Lexeme.text_append_rest hl, ← hcode]
      exact List.takeWhile_append_dropWhile.symm
    refine ⟨blanks, tail, ?_, hblanks, hend, fun n hn => ?_⟩
    · -- the blanks and the text of the token stand in front of what is left
      rw [hcs, hrest]
      simp [lexing, token, later]
    · -- the later error is behind this token
      obtain ⟨hn, hunclosed⟩ := herror n hn
      refine ⟨?_, hunclosed⟩
      rw [hn]
      simp [lexing, token, later, Token.stop, start, Nat.add_assoc]

end Preload
