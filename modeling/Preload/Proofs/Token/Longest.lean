import Preload.Proofs.Text.Pieces
import Preload.Proofs.Token.Place
import Preload.Proofs.Token.Renaming

/-!
# The longest token

The rules of the lexer take texts of their own (`MatchesRule`), and at each place the lexer takes
the longest text that any of them takes. Nothing of a source is lost in that: the tokens and the
blanks between them cover it up to its end, or up to what is never closed.

Main statements:
* `Lexeme.length_le_of_matchesRule`: what is read is as long as anything that a rule takes;
* `lex_lossless`: the account for a whole text.
-/

namespace Preload

/-! ## Rules -/

/-- Whether some rule of the lexer takes a text: one of a token, the opening of a block comment,
whose end is looked for then, or the one that skips blanks. There is no rule for regex literals,
which open like a division. -/
inductive MatchesRule : List Char → Prop
  | token {kind : Token.Kind} {text : List Char} (hkind : kind ≠ .regex)
      (hspells : kind.Spells text) : MatchesRule text
  | opener : MatchesRule ['/', '*']
  | blanks {text : List Char} (hne : text ≠ []) (hblank : ∀ c ∈ text, isBlank c = true) :
      MatchesRule text

theorem MatchesRule.ne_nil {text : List Char} (h : MatchesRule text) : text ≠ [] := by
  cases h with
  | token _ hspells =>
    cases hspells with
    | keyword style => cases style <;> decide
    | _ => simp
  | opener => simp
  | blanks hne => exact hne

/-- A comment is read up to the end behind its body. -/
theorem commentTail?_of_body {body : List Char} (h : CommentBody body) (rest : List Char) :
    commentTail? (body ++ '*' :: '/' :: rest) = some ⟨body ++ ['*', '/'], rest⟩ := by
  induction body with
  | nil => rfl
  | cons c body ih =>
    -- in no place of the body the end opens
    rw [CommentBody, List.cons_append, List.infix_cons_iff, not_or] at h
    have hopen : ∀ ds, c = '*' → body ++ '*' :: '/' :: rest = '/' :: ds → False := by
      rintro ds rfl hds
      refine h.1 (List.cons_prefix_cons.2 ⟨rfl, ?_⟩)
      -- the star that ends the body is in front of the slash only at its end
      cases body with
      | nil => cases hds
      | cons d body =>
        obtain ⟨rfl, -⟩ := List.cons.inj hds
        exact List.cons_prefix_cons.2 ⟨rfl, List.nil_prefix⟩
    rw [List.cons_append, commentTail?.eq_3 _ _ hopen, ih h.2]
    rfl

namespace Lexeme

/-- A character that may open a word opens the word that goes on as far as it can. -/
theorem first?_of_isWordStart {c : Char} (h : isWordStart c = true) (regexAllowed : Bool)
    (cs : List Char) :
    first? regexAllowed (c :: cs) =
      some (ofSplit (wordKind (c :: (Split.run isWordPart cs).taken)) c (Split.run isWordPart cs)) := by
  have hne {d : Char} (hd : isWordStart d = false) : c ≠ d := ne_of_isWordStart h hd
  rw [first?, if_neg (hne rfl), if_neg (hne rfl), if_neg (hne rfl),
    if_neg (not_or_intro (hne rfl) (hne rfl)), if_neg (hne rfl), if_pos h]

theorem ne_of_isDigit {c d : Char} (h : c.isDigit = true) (hd : d.isDigit = false) : c ≠ d := by
  rintro rfl
  rw [h] at hd
  cases hd

theorem isWordStart_of_isDigit {c : Char} (h : c.isDigit = true) : isWordStart c = false := by
  have halpha : c.isAlpha = false := by
    have hdigit : (decide ('0'.val ≤ c.val) && decide (c.val ≤ '9'.val)) = true := h
    rw [Bool.eq_false_iff]
    intro halpha
    have hletter : (decide ('A'.val ≤ c.val ∧ c.val ≤ 'Z'.val) ||
        (decide ('a'.val ≤ c.val) && decide (c.val ≤ 'z'.val))) = true := halpha
    -- letters come behind all digits
    have hbounds : '9'.val.toNat = 57 ∧ 'A'.val.toNat = 65 ∧ 'a'.val.toNat = 97 := ⟨rfl, rfl, rfl⟩
    simp only [Bool.or_eq_true, Bool.and_eq_true, decide_eq_true_eq, UInt32.le_iff_toNat_le]
      at hdigit hletter
    omega
  -- nor is a digit one of the two signs that open words
  simp only [isWordStart, halpha, Bool.false_or, Bool.or_eq_false_iff, beq_eq_false_iff_ne]
  exact ⟨ne_of_isDigit h rfl, ne_of_isDigit h rfl⟩

/-- A digit opens the number that goes on as far as it can. -/
theorem first?_of_isDigit {c : Char} (h : c.isDigit = true) (regexAllowed : Bool) (cs : List Char) :
    first? regexAllowed (c :: cs) = some (ofSplit .number c (Split.run isNumberPart cs)) := by
  have hne {d : Char} (hd : d.isDigit = false) : c ≠ d := ne_of_isDigit h hd
  have hword : ¬isWordStart c = true := by simp [isWordStart_of_isDigit h]
  rw [first?, if_neg (hne rfl), if_neg (hne rfl), if_neg (hne rfl),
    if_neg (not_or_intro (hne rfl) (hne rfl)), if_neg (hne rfl), if_neg hword, if_pos h]

section Rules

variable {regexAllowed : Bool} {c : Char} {cs rest : List Char} {l : Lexeme}

/-- What is read as a run is as long as any text of its class. -/
theorem length_le_of_run {inRun : Char → Bool} (hpart : ∀ d ∈ cs, inRun d = true)
    (kind : Token.Kind) :
    (c :: cs).length ≤ (ofSplit kind c (Split.run inRun (cs ++ rest))).text.length := by
  -- all of the text is in the run, and perhaps more
  simp [ofSplit, Split.run, List.takeWhile_append_of_pos hpart]

theorem length_le_of_word (hstart : isWordStart c = true) (hpart : ∀ d ∈ cs, isWordPart d = true)
    (h : first? regexAllowed (c :: cs ++ rest) = some l) : (c :: cs).length ≤ l.text.length := by
  rw [List.cons_append, first?_of_isWordStart hstart] at h
  cases h
  exact length_le_of_run hpart _

/-- A text that is one of a token is no longer than what is read. -/
theorem length_le_of_spells {kind : Token.Kind} {text : List Char} (hkind : kind ≠ .regex)
    (hspells : kind.Spells text) (h : first? regexAllowed (text ++ rest) = some l) :
    text.length ≤ l.text.length := by
  have hpos := List.length_pos_iff.2 (text_ne_nil h)
  cases hspells with
  | keyword style =>
    -- keywords are words
    cases style with
    | requireCall => exact length_le_of_word (by decide) (List.all_eq_true.1 (by decide)) h
    | importDecl => exact length_le_of_word (by decide) (List.all_eq_true.1 (by decide)) h
  | ident hstart hpart => exact length_le_of_word hstart hpart h
  | number hstart hpart =>
    -- the run of the number holds the text
    rw [List.cons_append, first?_of_isDigit hstart] at h
    cases h
    exact length_le_of_run hpart _
  | @string quote body hquote hbody =>
    have hne : quote ≠ '\\' := by
      -- the quotes are no backslash, so the literal is read as its rule says
      obtain rfl | rfl := hquote <;> decide
    have htext : quote :: (body ++ [quote]) ++ rest = quote :: (body ++ quote :: rest) := by simp
    have hread : first? regexAllowed (quote :: (body ++ quote :: rest)) =
        (literalTail? quote true (body ++ quote :: rest)).map (ofSplit .string quote) := by
      obtain rfl | rfl := hquote <;> rfl
    rw [htext, hread, literalTail?_of_body hne hbody] at h
    cases h
    exact Nat.le_refl _
  | @template body hbody =>
    have htext : '\x60' :: (body ++ ['\x60']) ++ rest = '\x60' :: (body ++ '\x60' :: rest) := by simp
    have hread : first? regexAllowed ('\x60' :: (body ++ '\x60' :: rest)) =
        (literalTail? '\x60' false (body ++ '\x60' :: rest)).map (ofSplit .template '\x60') := rfl
    rw [htext, hread, literalTail?_of_body (by decide) hbody] at h
    cases h
    exact Nat.le_refl _
  | @lineComment cs hfeed =>
    -- the run of the comment goes up to a line break, which the text has not
    have hline : ∀ d ∈ cs, (d != '\n') = true := by
      intro d hd
      rw [bne_iff_ne]
      rintro rfl
      exact hfeed hd
    rw [List.cons_append, List.cons_append, first?_slash, slash?] at h
    cases h
    simp [ofSplit, Split.run, Split.push, List.takeWhile_append_of_pos hline]
  | @blockComment body hbody =>
    have htext : '/' :: '*' :: (body ++ ['*', '/']) ++ rest =
        '/' :: '*' :: (body ++ '*' :: '/' :: rest) := by
      simp
    rw [htext, first?_slash, slash?, commentTail?_of_body hbody] at h
    cases h
    exact Nat.le_refl _
  | regex => exact absurd rfl hkind
  | punct hstart hpart =>
    rw [List.cons_append, first?_of_isPunct hstart] at h
    cases h
    exact length_le_of_run hpart _
  -- single characters are no longer than anything that is read
  | _ => exact hpos

/-- What is read is as long as any text in front that a rule takes. -/
theorem length_le_of_matchesRule (hblank : isBlank c = false)
    (h : first? regexAllowed (c :: cs) = some l) {text : List Char} (htext : MatchesRule text)
    (hfront : text <+: c :: cs) : text.length ≤ l.text.length := by
  obtain ⟨rest, hrest⟩ := hfront
  cases htext with
  | token hkind hspells =>
    rw [← hrest] at h
    exact length_le_of_spells hkind hspells h
  | opener =>
    -- only a whole comment can be read where one opens
    obtain ⟨rfl, rfl⟩ : '/' = c ∧ '*' :: rest = cs := by simpa using hrest
    rw [first?_slash, slash?] at h
    obtain ⟨s, -, rfl⟩ := Option.map_eq_some_iff.1 h
    simp [ofSplit, Split.push]
  | blanks hne hall =>
    -- what is read opens with no blank
    obtain ⟨d, text, rfl⟩ := List.exists_cons_of_ne_nil hne
    cases hrest
    rw [hall c List.mem_cons_self] at hblank
    cases hblank

/-- Where a regex literal is read, no rule takes more than its slash. -/
theorem eq_slash_of_regex (hblank : isBlank c = false) (h : first? regexAllowed (c :: cs) = some l)
    (hregex : l.kind = .regex) {text : List Char} (htext : MatchesRule text)
    (hfront : text <+: c :: cs) : text = ['/'] := by
  have hspells := spells_of_first? hblank h
  have hcs := text_append_rest h
  rw [hregex] at hspells
  generalize l.text = taken at hspells hcs
  -- a regex literal opens with a slash
  obtain rfl : c = '/' := by
    cases hspells
    exact (List.cons.inj hcs).1.symm
  -- where no regex literal may stand, the same slash divides
  have htrivia : ¬l.kind.isTrivia := by simp [hregex, Token.Kind.isTrivia, Token.Kind.isComment]
  have hslash : first? false ('/' :: cs) = some ⟨.slash, ['/'], cs⟩ :=
    slash?_false_of_not_isTrivia h htrivia
  -- no rule takes more than the division does
  have hlength := length_le_of_matchesRule hblank hslash htext hfront
  obtain ⟨d, more, rfl⟩ := List.exists_cons_of_ne_nil htext.ne_nil
  obtain ⟨rfl, -⟩ := List.cons_prefix_cons.1 hfront
  obtain rfl : more = [] := List.length_eq_zero_iff.1 (by simpa using hlength)
  rfl

end Rules

end Lexeme

/-! ## Whole texts -/

namespace Token

/-- Each token is read from all that stands behind it. -/
theorem exists_behind_of_lexFrom {pos : Nat} {regexAllowed : Bool} {cs : List Char}
    {back : List Token} {t : Token} (front : List Token)
    (h : (lexFrom pos regexAllowed cs).tokens = front ++ t :: back) :
    ∃ behind allowed, cs = spelling front ++ (t.gap ++ (t.text ++ behind)) ∧
      (∀ c ∈ t.gap, isBlank c = true) ∧ (∀ c ∈ t.text.head?, isBlank c = false) ∧
      Lexeme.first? allowed (t.text ++ behind) = some ⟨t.kind, t.text, behind⟩ := by
  -- the cases are those of the lexer; what is in front of `t` grows with each token
  revert front
  fun_induction lexFrom pos regexAllowed cs with
  | case1 => simp
  | case2 => simp
  | case3 pos regexAllowed cs gap start c code hcode l hl token later ih =>
    intro front h
    obtain ⟨hcs, hgap, hhead⟩ := lexeme_behind_blanks hcode hl
    cases front with
    | nil =>
      -- the first token has all blanks in front of it
      obtain ⟨rfl, -⟩ := List.cons.inj h
      refine ⟨l.rest, regexAllowed, hcs, hgap, hhead, ?_⟩
      rw [Lexeme.text_append_rest hl, hl]
    | cons u front =>
      -- `t` is found behind the first token
      obtain ⟨rfl, hlater⟩ := List.cons.inj h
      obtain ⟨behind, allowed, hrest, hbehind⟩ := ih front hlater
      refine ⟨behind, allowed, ?_, hbehind⟩
      calc cs = gap ++ (l.text ++ l.rest) := hcs
        _ = gap ++ (l.text ++ (spelling front ++ (t.gap ++ (t.text ++ behind)))) := by rw [← hrest]
        _ = spelling (token :: front) ++ (t.gap ++ (t.text ++ behind)) := by simp [token]

/-- Tokens at their places follow each other. -/
theorem pairwise_of_place {pos : Nat} {ts : List Token} (h : place pos ts = ts) :
    ts.Pairwise fun t u => t.stop ≤ u.start := by
  induction ts generalizing pos with
  | nil => exact .nil
  | cons t ts ih =>
    obtain ⟨ht, hts⟩ := List.cons.inj h
    refine List.pairwise_cons.2 ⟨fun u hu => ?_, ih hts⟩
    -- all tokens in front of `u` begin where `t` stops
    obtain ⟨us, vs, rfl⟩ := List.append_of_mem hu
    rw [start_of_place hts, ht]
    exact Nat.le_add_right _ _

/-- A token stands where it says, behind nothing but blanks. -/
theorem selects_of_mem_lex {before cs : List Char} {t : Token}
    (ht : t ∈ (lex (byteLength before) cs).tokens) :
    (⟨t.start, t.stop⟩ : Span).Selects t.text (before ++ cs) ∧ ∀ c ∈ t.gap, isBlank c = true := by
  obtain ⟨front, back, htokens⟩ := List.append_of_mem ht
  obtain ⟨behind, allowed, hcs, hgap, -, hfirst⟩ := exists_behind_of_lexFrom front htokens
  have hplace := place_lexFrom (byteLength before) true cs
  rw [lex] at htokens
  rw [htokens] at hplace
  -- the token begins behind the text before, the tokens in front of it and its blanks
  have hstart : t.start = byteLength (before ++ (spelling front ++ t.gap)) := by
    rw [start_of_place hplace, byteLength_append before]
  have hne : byteLength t.text ≠ 0 :=
    mt (byteLength_eq_zero_iff t.text).1 (Lexeme.text_ne_nil hfirst)
  refine ⟨⟨Nat.lt_add_of_pos_right (Nat.pos_of_ne_zero hne), before ++ (spelling front ++ t.gap),
    behind, ?_, hstart, ?_⟩, hgap⟩
  · rw [hcs]
    simp
  · rw [byteLength_append, ← hstart]
    rfl

end Token

/-- Lexing a text that stands behind another one loses nothing. The tokens stand where they say, one
behind the other, each with a text of its kind; with the blanks in front of them, and those behind
the last one, they are the text up to its end, or up to what is never closed. No rule takes more
than any of them of what stands there, and where a regex literal was read, none takes more than its
slash; so no word goes on behind a keyword. -/
theorem lex_lossless (before cs : List Char) :
    ∃ tokens errorAt, lex (byteLength before) cs = ⟨tokens, errorAt⟩ ∧
      (∀ t ∈ tokens, (⟨t.start, t.stop⟩ : Span).Selects t.text (before ++ cs) ∧
        (∀ c ∈ t.gap, isBlank c = true) ∧ t.kind.Spells t.text) ∧
      tokens.Pairwise (fun t u => t.stop ≤ u.start) ∧
      (∃ gap tail, cs = Token.spelling tokens ++ (gap ++ tail) ∧
        (∀ c ∈ gap, isBlank c = true) ∧ (errorAt = none ↔ tail = []) ∧
        ∀ n, errorAt = some n → n = byteLength (before ++ (Token.spelling tokens ++ gap)) ∧
          Unclosed (Token.regexAfter true tokens) tail) ∧
      ∀ front t back, tokens = front ++ t :: back →
        ∃ behind, cs = Token.spelling front ++ (t.gap ++ (t.text ++ behind)) ∧
          (∀ text, MatchesRule text → text <+: t.text ++ behind →
            text.length ≤ t.text.length ∧ (t.kind = .regex → text = ['/'])) ∧
          ∀ style, t.kind = .keyword style → ∀ c ∈ behind.head?, isWordPart c = false := by
  have hplace := Token.place_lexFrom (byteLength before) true cs
  refine ⟨_, _, rfl, fun t ht => ?_, Token.pairwise_of_place hplace, ?_, fun front t back htokens => ?_⟩
  · -- the tokens are at their places, and each has a text of its kind
    obtain ⟨hselects, hgap⟩ := Token.selects_of_mem_lex ht
    exact ⟨hselects, hgap, (readable_lexFrom (byteLength before) true cs).1.spells t ht⟩
  · obtain ⟨gap, tail, hcs, hgap, hend, herror⟩ := lexFrom_cases (byteLength before) true cs
    refine ⟨gap, tail, hcs, hgap, hend, fun n hn => ?_⟩
    rw [byteLength_append]
    exact herror n hn
  · -- a token was read from all that stands behind it, so the rules are asked about this text
    obtain ⟨behind, allowed, hcs, -, hhead, hfirst⟩ := Token.exists_behind_of_lexFrom front htokens
    obtain ⟨c, text, htext : t.text = c :: text⟩ :=
      List.exists_cons_of_ne_nil (Lexeme.text_ne_nil hfirst)
    have hblank : isBlank c = false := hhead c (by simp [htext])
    refine ⟨behind, hcs, fun taken htaken hfront => ?_, fun style hstyle d hd => ?_⟩
    · rw [htext, List.cons_append] at hfirst hfront
      refine ⟨?_, fun hregex => Lexeme.eq_slash_of_regex hblank hfirst hregex htaken hfront⟩
      rw [htext]
      exact Lexeme.length_le_of_matchesRule hblank hfirst htaken hfront
    · -- a keyword ends like any word
      have hends : t.kind.endsBefore d = true := Lexeme.endsBefore_of_first? hfirst d hd
      rw [hstyle] at hends
      simpa [Token.Kind.endsBefore] using hends

/-- A regex literal with a quote and a slash in a class, a comment in front of a division, and a
string that is never closed. -/
theorem lex_lossless_of_unclosed :
    let cs := "imports = /[/]'/g //'\n/ require 'a".toList
    let lexing := lex (byteLength ['é']) cs
    let regex : Token := ⟨[' '], .regex, "/[/]'/g".toList, 12⟩
    let call : Token := ⟨[' '], .keyword .requireCall, "require".toList, 26⟩
    lexing.errorAt = some 34 ∧
      (⟨12, 19⟩ : Span).Selects regex.text ('é' :: cs) ∧
      (∃ gap tail, cs = Token.spelling lexing.tokens ++ (gap ++ tail) ∧ tail ≠ []) ∧
      (∃ front behind, cs = Token.spelling front ++ (regex.gap ++ (regex.text ++ behind)) ∧
        ∀ text, MatchesRule text → text <+: regex.text ++ behind → text = ['/']) ∧
      ∃ front behind, cs = Token.spelling front ++ (call.gap ++ (call.text ++ behind)) ∧
        ∀ c ∈ behind.head?, isWordPart c = false := by
  intro cs lexing regex call
  obtain ⟨tokens, errorAt, hlex, htokens, -, ⟨gap, tail, hcs, -, hend, -⟩, hlongest⟩ :=
    lex_lossless ['é'] cs
  obtain ⟨rfl, rfl⟩ : lexing.tokens = tokens ∧ lexing.errorAt = errorAt := by simp [lexing, hlex]
  have herror : lexing.errorAt = some 34 := by decide +kernel
  -- the regex literal is the third token, the keyword the seventh
  have hregex : lexing.tokens = lexing.tokens.take 2 ++ regex :: lexing.tokens.drop 3 := by
    decide +kernel
  have hcall : lexing.tokens = lexing.tokens.take 6 ++ call :: lexing.tokens.drop 7 := by
    decide +kernel
  obtain ⟨behind, hbehind, hrules, -⟩ := hlongest _ _ _ hregex
  obtain ⟨behind', hbehind', -, hword⟩ := hlongest _ _ _ hcall
  refine ⟨herror, (htokens regex (by decide +kernel)).1, ⟨gap, tail, hcs, fun hnil => ?_⟩,
    ⟨_, behind, hbehind, fun text htext hfront => (hrules text htext hfront).2 rfl⟩,
    _, behind', hbehind', hword _ rfl⟩
  -- without a tail there would be no error
  rw [hend.2 hnil] at herror
  cases herror

end Preload
