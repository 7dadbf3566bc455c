import Preload.Proofs.Token.Context

/-!
# The grammar of literals and comments

What may stand between the ends of a literal or a comment, said without a look at how it is read.
The readers of `Preload.Token.Lexeme` find the end of a literal just where the grammar has it, and
give up just where no text that the grammar allows leads to an end.

Main statements:
* `literalTail?_of_body` and `exists_body_of_literalTail?`: the reader of strings and templates;
* `regexTail?_of_body` and `exists_body_of_regexTail?`: the reader of regex literals;
* `literalTail?_eq_none_iff`, `commentTail?_eq_none_iff` and `regexTail?_eq_none_iff`: what is never
  closed.
-/

namespace Preload

/-- Whether a text of a grammar and then `close` stand at the front of `cs`. -/
def Closes (Body : List Char → Prop) (close : Char) (cs : List Char) : Prop :=
  ∃ body rest, Body body ∧ cs = body ++ close :: rest

/-! ## Strings and templates -/

/-- What may stand between the quotes of a literal. A backslash takes the next character with it. -/
inductive LiteralBody (quote : Char) (oneLine : Bool) : List Char → Prop
  | nil : LiteralBody quote oneLine []
  | plain {c : Char} {cs : List Char} (hquote : c ≠ quote) (hslash : c ≠ '\\')
      (hfeed : oneLine = true → c ≠ '\n') (rest : LiteralBody quote oneLine cs) :
      LiteralBody quote oneLine (c :: cs)
  | escape {c : Char} {cs : List Char} (hfeed : oneLine = true → c ≠ '\n')
      (rest : LiteralBody quote oneLine cs) : LiteralBody quote oneLine ('\\' :: c :: cs)

section Literals

variable {quote : Char} {oneLine : Bool}

/-- A literal is read up to the quote behind its body. -/
theorem literalTail?_of_body (hquote : quote ≠ '\\') {body : List Char}
    (h : LiteralBody quote oneLine body) (rest : List Char) :
    literalTail? quote oneLine (body ++ quote :: rest) = some ⟨body ++ [quote], rest⟩ := by
  induction h with
  | nil => rw [List.nil_append, literalTail?_cons hquote, if_pos rfl, List.nil_append]
  | @plain c cs hne hslash hfeed _ ih =>
    -- what may stand on the line may be read
    have hline : ¬(oneLine && c == '\n') = true := by simpa using hfeed
    rw [List.cons_append, literalTail?_cons hslash, if_neg hne, if_neg hline, ih]
    rfl
  | @escape c cs hfeed _ ih =>
    have hline : ¬(oneLine && c == '\n') = true := by simpa using hfeed
    rw [List.cons_append, List.cons_append, literalTail?, if_neg hline, ih]
    rfl

/-- What is read of a literal is a body and the quote behind it. -/
theorem exists_body_of_literalTail? {cs : List Char} {s : Split}
    (h : literalTail? quote oneLine cs = some s) :
    ∃ body, LiteralBody quote oneLine body ∧ s.taken = body ++ [quote] := by
  -- the cases of the reader: three refusals, an escape, the quote, a line break, any other one
  fun_induction literalTail? quote oneLine cs generalizing s with
  | case1 => cases h
  | case2 => cases h
  | case3 => cases h
  | case4 c cs hfeed ih =>
    obtain ⟨t, ht, rfl⟩ := Option.map_eq_some_iff.1 h
    obtain ⟨body, hbody, htaken⟩ := ih ht
    exact ⟨_, .escape (by simpa using hfeed) hbody, congrArg ('\\' :: c :: ·) htaken⟩
  | case5 cs =>
    cases h
    exact ⟨[], .nil, rfl⟩
  | case6 => cases h
  | case7 c cs hlast hescape hquote hfeed ih =>
    obtain ⟨t, ht, rfl⟩ := Option.map_eq_some_iff.1 h
    obtain ⟨body, hbody, htaken⟩ := ih ht
    refine ⟨_, .plain hquote (ne_backslash hlast hescape) (by simpa using hfeed) hbody, ?_⟩
    exact congrArg (c :: ·) htaken

/-- A literal is given up just where no body leads to a quote. -/
theorem literalTail?_eq_none_iff (hquote : quote ≠ '\\') {cs : List Char} :
    literalTail? quote oneLine cs = none ↔ ¬Closes (LiteralBody quote oneLine) quote cs := by
  constructor
  · -- a body and a quote would have been read
    rintro hnone ⟨body, rest, hbody, rfl⟩
    rw [literalTail?_of_body hquote hbody] at hnone
    cases hnone
  · intro hopen
    cases htail : literalTail? quote oneLine cs with
    | none => rfl
    | some s =>
      -- were something read, it would be a body with a quote behind
      obtain ⟨body, hbody, htaken⟩ := exists_body_of_literalTail? htail
      have hcs : s.taken ++ s.rest = cs := literalTail?_joined htail
      rw [htaken, List.append_assoc] at hcs
      exact absurd ⟨body, s.rest, hbody, hcs.symm⟩ hopen

end Literals

/-! ## Block comments -/

/-- What may stand between the ends of a block comment: no `*/`, also not with the first character
of the end behind it. -/
def CommentBody (body : List Char) : Prop :=
  ¬['*', '/'] <:+: body ++ ['*']

/-- What is read of a block comment is a body and its end. -/
theorem exists_body_of_commentTail? {cs : List Char} {s : Split} (h : commentTail? cs = some s) :
    ∃ body, CommentBody body ∧ s.taken = body ++ ['*', '/'] := by
  fun_induction commentTail? cs generalizing s with
  | case1 =>
    -- the end comes at once, so the body is empty
    cases h
    have hempty : ¬['*', '/'] <:+: ['*'] := by decide
    exact ⟨[], hempty, rfl⟩
  | case2 => cases h
  | case3 c cs hopen ih =>
    obtain ⟨t, ht, rfl⟩ := Option.map_eq_some_iff.1 h
    obtain ⟨body, hbody, htaken⟩ := ih ht
    refine ⟨c :: body, fun hinfix => ?_, congrArg (c :: ·) htaken⟩
    -- an end inside would be further inside, where there is none, or open with `c`
    obtain hprefix | hinfix := List.infix_cons_iff.1 hinfix
    · obtain ⟨hc, hprefix⟩ := List.cons_prefix_cons.1 hprefix
      have hcs : t.taken ++ t.rest = cs := commentTail?_joined ht
      cases body with
      | nil =>
        obtain ⟨hstar, -⟩ := List.cons_prefix_cons.1 hprefix
        cases hstar
      | cons d body =>
        obtain ⟨hslash, -⟩ := List.cons_prefix_cons.1 hprefix
        rw [htaken, List.cons_append, List.cons_append] at hcs
        rw [← hslash] at hcs
        exact hopen _ hc.symm hcs.symm
    · exact hbody hinfix

/-- A block comment is given up just where no `*/` follows. -/
theorem commentTail?_eq_none_iff {cs : List Char} :
    commentTail? cs = none ↔ ¬['*', '/'] <:+: cs := by
  -- the end is here, or the text is over, or it is looked for one character further
  fun_induction commentTail? cs with
  | case1 cs =>
    have hinfix : ['*', '/'] <:+: '*' :: '/' :: cs := (List.prefix_append ['*', '/'] cs).isInfix
    exact iff_of_false (Option.some_ne_none _) (not_not_intro hinfix)
  | case2 => simp
  | case3 c cs hopen ih =>
    -- an end here would have been read by the first rule
    have hprefix : ¬['*', '/'] <+: c :: cs := by
      rintro ⟨rest, hrest⟩
      cases hrest
      exact hopen _ rfl rfl
    rw [Option.map_eq_none_iff, ih, List.infix_cons_iff, or_iff_right hprefix]

/-! ## Regex literals -/

/-- What may stand between the brackets of a class in a regex literal. -/
inductive ClassBody : List Char → Prop
  | nil : ClassBody []
  | plain {c : Char} {cs : List Char} (hclose : c ≠ ']') (hslash : c ≠ '\\') (hfeed : c ≠ '\n')
      (rest : ClassBody cs) : ClassBody (c :: cs)
  | escape {c : Char} {cs : List Char} (hfeed : c ≠ '\n') (rest : ClassBody cs) :
      ClassBody ('\\' :: c :: cs)

/-- What may stand between the slashes of a regex literal. A slash may stand in a class, or behind a
backslash. -/
inductive RegexBody : List Char → Prop
  | nil : RegexBody []
  | plain {c : Char} {cs : List Char} (hclose : c ≠ '/') (hopen : c ≠ '[') (hslash : c ≠ '\\')
      (hfeed : c ≠ '\n') (rest : RegexBody cs) : RegexBody (c :: cs)
  | escape {c : Char} {cs : List Char} (hfeed : c ≠ '\n') (rest : RegexBody cs) :
      RegexBody ('\\' :: c :: cs)
  | inBrackets {items cs : List Char} (hitems : ClassBody items) (rest : RegexBody cs) :
      RegexBody ('[' :: (items ++ ']' :: cs))

/-- A class is read up to its bracket. -/
theorem regexTail?_of_items {items : List Char} (h : ClassBody items) (cs : List Char) :
    regexTail? true (items ++ ']' :: cs) =
      (regexTail? false cs).map (·.push (items ++ [']'])) := by
  induction h with
  | nil =>
    rw [List.nil_append, regexTail?_cons (by decide)]
    rfl
  | @plain c items hclose hslash hfeed _ ih =>
    -- no plain character of a class closes it
    have hstays : (if c = '[' then true else if c = ']' then false else true) = true := by
      rw [if_neg hclose]
      exact ite_self true
    rw [List.cons_append, regexTail?_cons hslash, if_neg hfeed, if_neg (by simp), hstays, ih,
      Option.map_map]
    rfl
  | @escape c items hfeed _ ih =>
    rw [List.cons_append, List.cons_append, regexTail?, if_neg hfeed, ih, Option.map_map]
    rfl

/-- A regex literal is read up to the slash behind its body. -/
theorem regexTail?_of_body {body : List Char} (h : RegexBody body) (rest : List Char) :
    regexTail? false (body ++ '/' :: rest) = some ⟨body ++ ['/'], rest⟩ := by
  induction h with
  | nil =>
    rw [List.nil_append, regexTail?_cons (by decide)]
    rfl
  | @plain c cs hclose hopen hslash hfeed _ ih =>
    -- no plain character of the body opens a class
    have hstays : (if c = '[' then true else if c = ']' then false else false) = false := by
      rw [if_neg hopen]
      exact ite_self false
    rw [List.cons_append, regexTail?_cons hslash, if_neg hfeed, if_neg (by simp [hclose]), hstays, ih]
    rfl
  | @escape c cs hfeed _ ih =>
    rw [List.cons_append, List.cons_append, regexTail?, if_neg hfeed, ih]
    rfl
  | @inBrackets items cs hitems _ ih =>
    -- the class is read first, and then the body goes on behind it
    have htext : '[' :: (items ++ ']' :: cs) ++ '/' :: rest =
        '[' :: (items ++ ']' :: (cs ++ '/' :: rest)) := by
      simp
    have hopens : regexTail? false ('[' :: (items ++ ']' :: (cs ++ '/' :: rest))) =
        (regexTail? true (items ++ ']' :: (cs ++ '/' :: rest))).map (·.push ['[']) :=
      regexTail?_cons (by decide)
    rw [htext, hopens, regexTail?_of_items hitems, ih]
    simp [Split.push]

/-- What a regex literal goes on with up to its slash, inside or outside of a class. -/
def RegexTail (inClass : Bool) (taken : List Char) : Prop :=
  match inClass with
  | false => ∃ body, RegexBody body ∧ taken = body ++ ['/']
  | true => ∃ items body, ClassBody items ∧ RegexBody body ∧ taken = items ++ ']' :: (body ++ ['/'])

/-- What is read of a regex literal is a body and the slash behind it. -/
theorem regexTail_of_regexTail? {inClass : Bool} {cs : List Char} {s : Split}
    (h : regexTail? inClass cs = some s) : RegexTail inClass s.taken := by
  fun_induction regexTail? inClass cs generalizing s with
  | case1 => cases h
  | case2 => cases h
  | case3 => cases h
  | case4 inClass c cs hfeed ih =>
    obtain ⟨t, ht, rfl⟩ := Option.map_eq_some_iff.1 h
    have htail := ih ht
    -- an escape is one of the body, or of the class that is open
    cases inClass with
    | false =>
      obtain ⟨body, hbody, htaken⟩ := htail
      exact ⟨_, .escape hfeed hbody, congrArg ('\\' :: c :: ·) htaken⟩
    | true =>
      obtain ⟨items, body, hitems, hbody, htaken⟩ := htail
      exact ⟨_, body, .escape hfeed hitems, hbody, congrArg ('\\' :: c :: ·) htaken⟩
  | case5 => cases h
  | case6 inClass c cs hlast hescape hfeed hclose =>
    -- a slash outside of classes ends the literal
    obtain ⟨rfl, rfl⟩ := hclose
    cases h
    exact ⟨[], .nil, rfl⟩
  | case7 inClass c cs hlast hescape hfeed hclose ih =>
    obtain ⟨t, ht, rfl⟩ := Option.map_eq_some_iff.1 h
    have htail := ih ht
    have hslash := ne_backslash hlast hescape
    -- a bracket opens or closes a class, and any other character stays where it is
    by_cases hopens : c = '['
    · rw [if_pos hopens] at htail
      obtain ⟨items, body, hitems, hbody, htaken⟩ := htail
      cases inClass with
      | false =>
        subst hopens
        exact ⟨_, .inBrackets hitems hbody, by simp [Split.push, htaken]⟩
      | true =>
        have hne : c ≠ ']' := by rw [hopens]; decide
        exact ⟨_, body, .plain hne hslash hfeed hitems, hbody, congrArg (c :: ·) htaken⟩
    · rw [if_neg hopens] at htail
      -- outside of classes the character is plain, and inside it may close the class
      cases inClass with
      | false =>
        rw [ite_self] at htail
        obtain ⟨body, hbody, htaken⟩ := htail
        have hne : c ≠ '/' := fun hc => hclose ⟨hc, rfl⟩
        exact ⟨_, .plain hne hopens hslash hfeed hbody, congrArg (c :: ·) htaken⟩
      | true =>
        by_cases hcloses : c = ']'
        · rw [if_pos hcloses] at htail
          obtain ⟨body, hbody, htaken⟩ := htail
          subst hcloses
          exact ⟨[], body, .nil, hbody, congrArg (']' :: ·) htaken⟩
        · rw [if_neg hcloses] at htail
          obtain ⟨items, body, hitems, hbody, htaken⟩ := htail
          exact ⟨_, body, .plain hcloses hslash hfeed hitems, hbody, congrArg (c :: ·) htaken⟩

/-- A regex literal is given up just where no body leads to a slash. -/
theorem regexTail?_eq_none_iff {cs : List Char} :
    regexTail? false cs = none ↔ ¬Closes RegexBody '/' cs := by
  constructor
  · rintro hnone ⟨body, rest, hbody, rfl⟩
    rw [regexTail?_of_body hbody] at hnone
    cases hnone
  · intro hopen
    cases htail : regexTail? false cs with
    | none => rfl
    | some s =>
      obtain ⟨body, hbody, htaken⟩ := regexTail_of_regexTail? htail
      -- what was read is at the front of the text
      have hcs : s.taken ++ s.rest = cs := regexTail?_joined htail
      rw [htaken, List.append_assoc] at hcs
      exact absurd ⟨body, s.rest, hbody, hcs.symm⟩ hopen

/-- What is read of a regex literal with its flags. -/
theorem exists_body_of_regexLiteralTail? {cs : List Char} {s : Split}
    (h : regexLiteralTail? cs = some s) :
    ∃ body flags, RegexBody body ∧ (∀ c ∈ flags, isWordPart c = true) ∧
      s.taken = body ++ '/' :: flags := by
  -- the flags are what of the rest may stand in a word
  obtain ⟨t, ht, rfl⟩ := Option.map_eq_some_iff.1 h
  obtain ⟨body, hbody, htaken⟩ := regexTail_of_regexTail? ht
  have hflags : ∀ c ∈ t.rest.takeWhile isWordPart, isWordPart c = true :=
    List.all_eq_true.1 List.all_takeWhile
  exact ⟨body, _, hbody, hflags, by simp [Split.push, Split.run, htaken]⟩

theorem regexLiteralTail?_eq_none_iff {cs : List Char} :
    regexLiteralTail? cs = none ↔ ¬Closes RegexBody '/' cs := by
  rw [regexLiteralTail?, Option.map_eq_none_iff, regexTail?_eq_none_iff]

end Preload
