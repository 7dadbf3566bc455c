import Mathlib.Tactic.SplitIfs
import Preload.Token.Lexeme

/-!
# Lexemes in other contexts

The longest lexeme at the front of a text depends on what follows it only through the next
character: `Token.Kind.endsBefore` says which characters end a lexeme of a given kind.

Main statements:
* `Lexeme.endsBefore_of_first?`: a lexeme is followed by a character that ends it, or by nothing;
* `Lexeme.first?_append`: in front of any text that opens with such a character, the same lexeme is
  read again.
-/

namespace Preload

/-! ## Runs of characters -/

/-- A run stops in front of a character outside of its class. -/
theorem Split.run_rest_head {inRun : Char → Bool} {cs : List Char} :
    ∀ c ∈ (Split.run inRun cs).rest.head?, inRun c = false := by
  intro c hc
  -- what is dropped ends in front of such a character
  have hnot := List.head?_dropWhile_not inRun cs
  simp only [Split.run, Option.mem_def] at hc
  rw [hc] at hnot
  simpa using hnot

/-- Characters of one class are read as a run in front of any text that does not prolong it. -/
theorem Split.run_append_of_forall {inRun : Char → Bool} {cs after : List Char}
    (hall : ∀ c ∈ cs, inRun c = true) (hafter : ∀ c ∈ after.head?, inRun c = false) :
    Split.run inRun (cs ++ after) = ⟨cs, after⟩ := by
  -- nothing of what follows belongs to the run
  have hstop : after.takeWhile inRun = [] ∧ after.dropWhile inRun = after := by
    cases after with
    | nil => simp
    | cons c after => simp [hafter c (by simp)]
  simp only [Split.run, List.takeWhile_append_of_pos hall, List.dropWhile_append_of_pos hall, hstop,
    List.append_nil]

/-- A run is read again in front of any text that does not prolong it. -/
theorem Split.run_append (inRun : Char → Bool) (cs : List Char) {after : List Char}
    (h : ∀ c ∈ after.head?, inRun c = false) :
    Split.run inRun ((Split.run inRun cs).taken ++ after) = ⟨(Split.run inRun cs).taken, after⟩ :=
  run_append_of_forall (List.all_eq_true.1 List.all_takeWhile) h

/-! ## Literals and comments

A closed literal or comment is read without a look at what follows it. -/

/-- What the readers of literals know of a character once it opens no escape. -/
theorem ne_backslash {c : Char} {cs : List Char} (hlast : c = '\\' → cs = [] → False)
    (hescape : ∀ d ds, c = '\\' → cs = d :: ds → False) : c ≠ '\\' := by
  intro hc
  -- a backslash at the end, or in front of another character, has rules of its own
  cases cs with
  | nil => exact hlast hc rfl
  | cons d ds => exact hescape d ds hc rfl

/-- Outside of escapes a literal is read character by character. -/
theorem literalTail?_cons {quote : Char} {oneLine : Bool} {c : Char} {cs : List Char}
    (hc : c ≠ '\\') :
    literalTail? quote oneLine (c :: cs) =
      if c = quote then some ⟨[c], cs⟩
      else if oneLine && c == '\n' then none
      else (literalTail? quote oneLine cs).map (·.push [c]) := by
  rw [literalTail?]
  · -- the rules for escapes do not apply
    exact fun h _ => hc h
  · exact fun _ _ h _ => hc h

theorem literalTail?_append {quote : Char} {oneLine : Bool} {cs : List Char} {s : Split}
    (h : literalTail? quote oneLine cs = some s) (after : List Char) :
    literalTail? quote oneLine (s.taken ++ after) = some ⟨s.taken, after⟩ := by
  fun_induction literalTail? quote oneLine cs generalizing s with
  | case1 => cases h
  | case2 => cases h
  | case3 => cases h
  | case4 c cs hc ih =>
    -- an escape takes two characters, and the rest is read as before
    obtain ⟨t, ht, rfl⟩ := Option.map_eq_some_iff.1 h
    simp [literalTail?, Split.push, hc, ih ht]
  | case5 cs hlast hescape =>
    cases h
    -- the closing quote is read at once
    rw [List.singleton_append, literalTail?_cons (ne_backslash hlast hescape), if_pos rfl]
  | case6 => cases h
  | case7 c cs hlast hescape hquote hfeed ih =>
    -- any other character is read the same way again
    obtain ⟨t, ht, rfl⟩ := Option.map_eq_some_iff.1 h
    simp [literalTail?_cons (ne_backslash hlast hescape), Split.push, hquote, hfeed, ih ht]

/-- Outside of escapes a regex body is read character by character. -/
theorem regexTail?_cons {inClass : Bool} {c : Char} {cs : List Char} (hc : c ≠ '\\') :
    regexTail? inClass (c :: cs) =
      if c = '\n' then none
      else if c = '/' ∧ inClass = false then some ⟨[c], cs⟩
      else
        (regexTail? (if c = '[' then true else if c = ']' then false else inClass) cs).map
          (·.push [c]) := by
  rw [regexTail?]
  · exact fun h _ => hc h
  · exact fun _ _ h _ => hc h

theorem regexTail?_append {inClass : Bool} {cs : List Char} {s : Split}
    (h : regexTail? inClass cs = some s) (after : List Char) :
    regexTail? inClass (s.taken ++ after) = some ⟨s.taken, after⟩ := by
  fun_induction regexTail? inClass cs generalizing s with
  | case1 => cases h
  | case2 => cases h
  | case3 => cases h
  | case4 inClass c cs hfeed ih =>
    -- both characters of an escape are of the body
    obtain ⟨t, ht, rfl⟩ := Option.map_eq_some_iff.1 h
    simp [regexTail?, Split.push, hfeed, ih ht]
  | case5 => cases h
  | case6 inClass c cs hlast hescape hfeed hclose =>
    cases h
    rw [List.singleton_append, regexTail?_cons (ne_backslash hlast hescape), if_neg hfeed, if_pos hclose]
  | case7 inClass c cs hlast hescape hfeed hclose ih =>
    obtain ⟨t, ht, rfl⟩ := Option.map_eq_some_iff.1 h
    -- a character of the body changes at most whether a class is open
    simp only [Split.push, List.cons_append, List.nil_append,
      regexTail?_cons (ne_backslash hlast hescape), if_neg hfeed, if_neg hclose, ih ht, Option.map_some]

/-- Something is left of a comment that is not closed yet. -/
private theorem commentTail?_taken_ne_nil {cs : List Char} {s : Split}
    (h : commentTail? cs = some s) : s.taken ≠ [] := by
  fun_induction commentTail? cs generalizing s with
  -- the end itself is taken
  | case1 => cases h; simp
  | case2 => cases h
  | case3 =>
    obtain ⟨t, -, rfl⟩ := Option.map_eq_some_iff.1 h
    simp [Split.push]

theorem commentTail?_append {cs : List Char} {s : Split} (h : commentTail? cs = some s)
    (after : List Char) : commentTail? (s.taken ++ after) = some ⟨s.taken, after⟩ := by
  fun_induction commentTail? cs generalizing s with
  | case1 cs =>
    cases h
    simp [commentTail?]
  | case2 => cases h
  | case3 c cs hopen ih =>
    obtain ⟨t, ht, rfl⟩ := Option.map_eq_some_iff.1 h
    have hcs : t.taken ++ t.rest = cs := commentTail?_joined ht
    -- what follows `c` begins as it did before, so `c` opens no `*/` here either
    have hopen' : ∀ ds, c = '*' → t.taken ++ after = '/' :: ds → False := by
      intro ds hc hds
      obtain ⟨d, taken, htaken⟩ := List.exists_cons_of_ne_nil (commentTail?_taken_ne_nil ht)
      rw [htaken, List.cons_append] at hds hcs
      cases hds
      exact hopen _ hc hcs.symm
    simp [Split.push, commentTail?.eq_3 _ _ hopen', ih ht]

/-- The flags of a regex literal end in front of a character that no word holds. -/
theorem regexLiteralTail?_append {cs : List Char} {s : Split} (h : regexLiteralTail? cs = some s)
    (after : List Char) (hafter : ∀ c ∈ after.head?, isWordPart c = false) :
    regexLiteralTail? (s.taken ++ after) = some ⟨s.taken, after⟩ := by
  -- the body is read up to its slash, and the flags are a run
  obtain ⟨body, hbody, rfl⟩ := Option.map_eq_some_iff.1 h
  simp only [regexLiteralTail?, Split.push, List.append_assoc, regexTail?_append hbody,
    Option.map_some, Split.run_append isWordPart body.rest hafter]

/-! ## Ends of lexemes -/

/-- Whether a lexeme of this kind ends in front of `c`. -/
def Token.Kind.endsBefore (kind : Token.Kind) (c : Char) : Bool :=
  match kind with
  | .keyword _ | .ident | .regex => !isWordPart c
  | .number => !isNumberPart c
  | .punct => !isPunct c
  | .lineComment => c == '\n'
  | .slash => c != '/' && c != '*'
  | _ => true

/-- A line break ends every lexeme. -/
theorem Token.Kind.endsBefore_newline (kind : Token.Kind) : kind.endsBefore '\n' = true := by
  cases kind <;> rfl

namespace Lexeme

/-- Words of every kind end alike. -/
theorem endsBefore_wordKind (word : List Char) (c : Char) :
    (wordKind word).endsBefore c = !isWordPart c := by
  unfold wordKind
  split <;> rfl

/-- What a slash opens is followed by a character that ends it, or by nothing. -/
theorem endsBefore_of_slash? {regexAllowed : Bool} {cs : List Char} {l : Lexeme}
    (h : slash? regexAllowed cs = some l) : ∀ c ∈ l.rest.head?, l.kind.endsBefore c := by
  intro c hc
  unfold slash? at h
  -- a line comment ends at a line break, a block comment anywhere
  split at h
  · cases h
    simpa [ofSplit, Split.push, Token.Kind.endsBefore] using Split.run_rest_head c hc
  · obtain ⟨s, -, rfl⟩ := Option.map_eq_some_iff.1 h
    rfl
  · next hline hblock =>
    split at h
    · -- flags end in front of a character that no word holds
      obtain ⟨s, hs, rfl⟩ := Option.map_eq_some_iff.1 h
      obtain ⟨body, -, rfl⟩ := Option.map_eq_some_iff.1 hs
      simpa [ofSplit, Split.push, Token.Kind.endsBefore] using Split.run_rest_head c hc
    · cases h
      obtain ⟨ds, rfl⟩ := List.head?_eq_some_iff.1 hc
      -- a division is followed by no slash and no star, or it would open a comment
      have hslash : c ≠ '/' := by rintro rfl; exact hline _ rfl
      have hstar : c ≠ '*' := by rintro rfl; exact hblock _ rfl
      simp [ofSplit, Token.Kind.endsBefore, hslash, hstar]

/-- A lexeme is followed by a character that ends it, or by nothing. -/
theorem endsBefore_of_first? {regexAllowed : Bool} {cs : List Char} {l : Lexeme}
    (h : first? regexAllowed cs = some l) : ∀ c ∈ l.rest.head?, l.kind.endsBefore c := by
  cases cs with
  | nil => simp [first?] at h
  | cons d cs =>
    intro c hc
    -- one case for each rule, in the order in which they are tried
    rw [first?] at h
    split_ifs at h with hfeed hsemi hslash hquote htick hword hdigit
    · -- single characters and closed literals may be followed by anything
      cases h; rfl
    · cases h; rfl
    · exact endsBefore_of_slash? h c hc
    · obtain ⟨s, -, rfl⟩ := Option.map_eq_some_iff.1 h; rfl
    · obtain ⟨s, -, rfl⟩ := Option.map_eq_some_iff.1 h; rfl
    · cases h
      -- words, numbers and operators are runs, which end in front of any other character
      simp [ofSplit, endsBefore_wordKind, Split.run_rest_head c hc]
    · cases h
      simp [ofSplit, Token.Kind.endsBefore, Split.run_rest_head c hc]
    · split at h
      · cases h; rfl
      · cases h; rfl
      · cases h
        simp [ofSplit, Token.Kind.endsBefore, Split.run_rest_head c hc]

theorem first?_slash (regexAllowed : Bool) (cs : List Char) :
    first? regexAllowed ('/' :: cs) = slash? regexAllowed cs := rfl

/-- A slash that opens no comment. -/
theorem slash?_of_head {regexAllowed : Bool} {cs : List Char}
    (h : ∀ c ∈ cs.head?, c ≠ '/' ∧ c ≠ '*') :
    slash? regexAllowed cs =
      if regexAllowed then (regexLiteralTail? cs).map (ofSplit .regex '/')
      else some (ofSplit .slash '/' ⟨[], cs⟩) := by
  rw [slash?]
  · -- neither of the two rules for comments applies
    rintro cs rfl
    exact (h '/' rfl).1 rfl
  · rintro cs rfl
    exact (h '*' rfl).2 rfl

/-- What a slash opens is read again in front of any text that does not prolong it. -/
theorem slash?_append {regexAllowed : Bool} {cs : List Char} {l : Lexeme}
    (h : slash? regexAllowed cs = some l) {after : List Char}
    (hafter : ∀ c ∈ after.head?, l.kind.endsBefore c) :
    slash? regexAllowed (l.text.tail ++ after) = some ⟨l.kind, l.text, after⟩ := by
  unfold slash? at h
  split at h
  · -- a line comment goes on up to the line break that ends it
    next cs =>
    cases h
    have hrun := Split.run_append (· != '\n') cs
      (by simpa [ofSplit, Token.Kind.endsBefore] using hafter)
    simp [ofSplit, Split.push, slash?, hrun]
  · -- a block comment has its own end
    obtain ⟨s, hs, rfl⟩ := Option.map_eq_some_iff.1 h
    simp [ofSplit, Split.push, slash?, commentTail?_append hs]
  · next hline hblock =>
    split at h
    · next hregex =>
      obtain ⟨s, hs, rfl⟩ := Option.map_eq_some_iff.1 h
      have hagain := regexLiteralTail?_append hs after
        (by simpa [ofSplit, Token.Kind.endsBefore] using hafter)
      -- the body opens as it did before, so no comment opens here either
      have hhead : ∀ c ∈ (s.taken ++ after).head?, c ≠ '/' ∧ c ≠ '*' := by
        intro c hc
        have hne : s.taken ≠ [] := by
          intro hnil
          have hnone := regexLiteralTail?_append hs [] (by simp)
          simp [hnil, regexLiteralTail?, regexTail?] at hnone
        have hcs : s.taken ++ s.rest = cs := regexLiteralTail?_joined hs
        obtain ⟨d, taken, htaken⟩ := List.exists_cons_of_ne_nil hne
        rw [htaken, List.cons_append] at hc hcs
        cases hc
        exact ⟨by rintro rfl; exact hline _ hcs.symm, by rintro rfl; exact hblock _ hcs.symm⟩
      simp [ofSplit, slash?_of_head hhead, hregex, hagain]
    · next hdivide =>
      cases h
      -- what follows a division opens no comment, since that would prolong the token
      have hhead : ∀ c ∈ after.head?, c ≠ '/' ∧ c ≠ '*' := by
        simpa [ofSplit, Token.Kind.endsBefore] using hafter
      simp [ofSplit, slash?_of_head hhead, hdivide]

/-- A lexeme is read again in front of any text that opens with a character that ends it. -/
theorem first?_append {regexAllowed : Bool} {cs : List Char} {l : Lexeme}
    (h : first? regexAllowed cs = some l) {after : List Char}
    (hafter : ∀ c ∈ after.head?, l.kind.endsBefore c) :
    first? regexAllowed (l.text ++ after) = some ⟨l.kind, l.text, after⟩ := by
  cases cs with
  | nil => simp [first?] at h
  | cons d cs =>
    obtain ⟨taken, htext, -⟩ := heads_of_first? h
    rw [htext, List.cons_append]
    -- the same rule applies again, since the first character alone chooses it
    rw [first?] at h ⊢
    split_ifs at h ⊢ with hfeed hsemi hslash hquote htick hword hdigit
    · -- single characters are read whatever follows
      cases h; cases htext; rfl
    · cases h; cases htext; rfl
    · have hagain := slash?_append h hafter
      rwa [htext] at hagain
    · -- closed literals bring their own end
      obtain ⟨s, hs, rfl⟩ := Option.map_eq_some_iff.1 h
      cases htext
      rw [literalTail?_append hs]; rfl
    · obtain ⟨s, hs, rfl⟩ := Option.map_eq_some_iff.1 h
      cases htext
      rw [literalTail?_append hs]; rfl
    · cases h
      cases htext
      -- the run of the word stops where the new text begins
      have hrun := Split.run_append isWordPart cs
        (by simpa [ofSplit, endsBefore_wordKind] using hafter)
      simp only [hrun, ofSplit]
    · cases h
      cases htext
      have hrun := Split.run_append isNumberPart cs
        (by simpa [ofSplit, Token.Kind.endsBefore] using hafter)
      simp only [hrun, ofSplit]
    · split at h
      · cases h; cases htext; rfl
      · cases h; cases htext; rfl
      · cases h
        cases htext
        have hrun := Split.run_append isPunct cs
          (by simpa [ofSplit, Token.Kind.endsBefore] using hafter)
        simp only [hrun, ofSplit]

end Lexeme

end Preload
