import Mathlib.Data.List.Induction
import Preload.Proofs.Token.Relexing

/-!
# Slashes in other contexts

Whether a regex literal may stand in front of some tokens matters only if the first of them that is
code opens with a slash. After them it matters only through the last one that is code.

Main statements:
* `Token.Readable.of_firstCode`: tokens whose code opens with no slash are readable anywhere;
* `Token.Readable.firstCode_ne_slash`: how to see that on their text;
* `Token.regexAfter_eq`: what the last token of code says about what follows.
-/

namespace Preload

/-- Whether the code of a text, comments in front of it left out, opens with a slash. -/
def opensWithSlash (cs : List Char) : Bool :=
  ((lexFrom 0 false cs).tokens.find? (!·.isTrivia)).any (·.text.head? = some '/')

namespace Lexeme

/-! ## What a slash opens -/

theorem kind_of_slash? {regexAllowed : Bool} {cs : List Char} {l : Lexeme}
    (h : slash? regexAllowed cs = some l) :
    l.kind.isTrivia ∨ l.kind = .regex ∨ l.kind = .slash := by
  -- the four rules for a slash: two comments, a regex literal, a division
  unfold slash? at h
  split at h
  · cases h
    exact .inl rfl
  · obtain ⟨s, -, rfl⟩ := Option.map_eq_some_iff.1 h
    exact .inl rfl
  · split at h
    · obtain ⟨s, -, rfl⟩ := Option.map_eq_some_iff.1 h
      exact .inr (.inl rfl)
    · cases h
      exact .inr (.inr rfl)

/-- A comment is one wherever it stands. -/
theorem slash?_of_isTrivia {before after : Bool} {cs : List Char} {l : Lexeme}
    (h : slash? before cs = some l) (htrivia : l.kind.isTrivia) : slash? after cs = some l := by
  unfold slash? at h ⊢
  -- a comment is found before it matters whether a regex literal may stand here
  split at h
  · exact h
  · exact h
  · split at h
    · obtain ⟨s, -, rfl⟩ := Option.map_eq_some_iff.1 h
      cases htrivia
    · cases h
      cases htrivia

/-- A slash of code divides where no regex literal may stand. -/
theorem slash?_false_of_not_isTrivia {before : Bool} {cs : List Char} {l : Lexeme}
    (h : slash? before cs = some l) (htrivia : ¬l.kind.isTrivia) :
    slash? false cs = some ⟨.slash, ['/'], cs⟩ := by
  unfold slash? at h ⊢
  split at h
  · cases h
    exact absurd rfl htrivia
  · obtain ⟨s, -, rfl⟩ := Option.map_eq_some_iff.1 h
    exact absurd rfl htrivia
  · rfl

theorem first?_of_ne_slash {c : Char} (h : c ≠ '/') (before after : Bool) (cs : List Char) :
    first? before (c :: cs) = first? after (c :: cs) := by
  rw [first?, first?, if_neg h, if_neg h]

/-- Only comments, regex literals and divisions open with a slash. -/
theorem head_ne_slash {regexAllowed : Bool} {cs : List Char} {l : Lexeme}
    (h : first? regexAllowed cs = some l) (htrivia : ¬l.kind.isTrivia) (hregex : l.kind ≠ .regex)
    (hslash : l.kind ≠ .slash) : l.text.head? ≠ some '/' := by
  -- a text that opens with a slash was read by the rules for slashes
  intro hhead
  obtain ⟨text, htext⟩ := List.head?_eq_some_iff.1 hhead
  rw [← text_append_rest h, htext, List.cons_append, first?_slash] at h
  obtain hkind | hkind | hkind := kind_of_slash? h
  · exact htrivia hkind
  · exact hregex hkind
  · exact hslash hkind

/-- Comments, and lexemes that open with no slash, are found wherever they stand. -/
theorem first?_of_isTrivia_or {before : Bool} {cs : List Char} {l : Lexeme}
    (h : first? before cs = some l) (hl : l.kind.isTrivia ∨ l.text.head? ≠ some '/') (after : Bool) :
    first? after cs = some l := by
  cases cs with
  | nil => cases h
  | cons c cs =>
    -- a slash opens a comment here, and all other characters have rules that do not ask
    by_cases hc : c = '/'
    · subst hc
      obtain ⟨taken, htext, -⟩ := heads_of_first? h
      refine slash?_of_isTrivia h (hl.resolve_right ?_)
      simp [htext]
    · rw [first?_of_ne_slash hc after before, h]

end Lexeme

namespace Token

theorem Kind.regexAfter_of_isTrivia {kind : Kind} (h : kind.isTrivia) (before : Bool)
    (text : List Char) : kind.regexAfter before text = before := by
  rw [Kind.regexAfter, if_pos h]

theorem Kind.regexAfter_of_code {kind : Kind} (h : ¬kind.isTrivia) (before : Bool)
    (text : List Char) : kind.regexAfter before text = kind.allowsRegex text := by
  rw [Kind.regexAfter, if_neg h]

/-! ## What stands in front -/

/-- The first token that is code. -/
def firstCode? (ts : List Token) : Option Token :=
  ts.find? (!·.isTrivia)

theorem firstCode?_cons_of_isTrivia {t : Token} (h : t.isTrivia) (ts : List Token) :
    firstCode? (t :: ts) = firstCode? ts := by
  simp [firstCode?, h]

theorem firstCode?_cons_of_code {t : Token} (h : ¬t.isTrivia) (ts : List Token) :
    firstCode? (t :: ts) = some t := by
  simp [firstCode?, h]

namespace Readable

/-- Tokens whose code opens with no slash are readable anywhere. -/
theorem of_firstCode {before : Bool} {ts : List Token} (h : Readable before ts)
    (hslash : ∀ t ∈ firstCode? ts, t.text.head? ≠ some '/') (after : Bool) : Readable after ts := by
  -- comments in front leave open what may stand, so the induction is for both answers
  induction h generalizing after with
  | nil => exact .nil
  | @cons before t ts gap head lexeme rest ih =>
    by_cases htrivia : t.isTrivia
    · rw [firstCode?_cons_of_isTrivia htrivia] at hslash
      exact .cons gap head (Lexeme.first?_of_isTrivia_or lexeme (.inl htrivia) after) (ih hslash _)
    · have hhead : t.text.head? ≠ some '/' :=
        hslash t (by rw [firstCode?_cons_of_code htrivia, Option.mem_some])
      refine .cons gap head (Lexeme.first?_of_isTrivia_or lexeme (.inr hhead) after) ?_
      -- behind code it does not matter what stood in front of it
      rwa [Kind.regexAfter_of_code htrivia] at rest ⊢

/-- Whether the code of readable tokens opens with a slash shows in their text. -/
theorem firstCode_ne_slash {before : Bool} {ts : List Token} (h : Readable before ts)
    (hslash : ¬opensWithSlash (spelling ts)) :
    ∀ t ∈ firstCode? ts, t.text.head? ≠ some '/' := by
  -- behind comments in front the same question is asked at another position
  suffices hpos : ∀ pos, ¬(firstCode? (lexFrom pos false (spelling ts)).tokens).any
      (·.text.head? = some '/') → ∀ t ∈ firstCode? ts, t.text.head? ≠ some '/' from hpos 0 hslash
  clear hslash
  induction h with
  | nil => simp [firstCode?]
  | @cons before t ts gap head lexeme rest ih =>
    intro pos hslash
    -- a comment in front is read the same way and skipped on both sides
    by_cases htrivia : t.isTrivia
    · have hlexeme := Lexeme.first?_of_isTrivia_or lexeme (.inl htrivia) false
      have htokens : (lexFrom pos false (spelling (t :: ts))).tokens =
          t.placeAt pos :: (lexFrom (t.placeAt pos).stop false (spelling ts)).tokens := by
        rw [spelling_cons, lexFrom_of_lexeme gap head hlexeme, Kind.regexAfter_of_isTrivia htrivia]
      have hplaced : (t.placeAt pos).isTrivia := htrivia
      rw [htokens, firstCode?_cons_of_isTrivia hplaced] at hslash
      rw [firstCode?_cons_of_isTrivia htrivia]
      exact ih _ hslash
    · rw [firstCode?_cons_of_code htrivia]
      -- the first token of code would be a slash, and then the text opens with one
      rintro _ ⟨⟩ hhead
      obtain ⟨text, htext⟩ := List.head?_eq_some_iff.1 hhead
      rw [htext, List.cons_append, Lexeme.first?_slash] at lexeme
      -- where no regex literal may stand, the same slash is found and divides
      have hdivides := Lexeme.slash?_false_of_not_isTrivia lexeme htrivia
      have hlex : lexFrom pos false (t.gap ++ (['/'] ++ (text ++ spelling ts))) = _ :=
        lexFrom_of_lexeme (t := ⟨t.gap, .slash, ['/'], 0⟩) gap (by simp [isBlank]) hdivides
      refine hslash ?_
      rw [spelling_cons, htext, List.cons_append, ← List.singleton_append, hlex]
      rfl

end Readable

/-! ## What stands behind -/

/-- The last token that is code. -/
def lastCode? (ts : List Token) : Option Token :=
  (ts.filter (!·.isTrivia)).getLast?

theorem mem_of_lastCode? {ts : List Token} {t : Token} (h : lastCode? ts = some t) : t ∈ ts :=
  (List.mem_filter.1 (List.mem_of_getLast? h)).1

theorem lastCode?_concat_of_isTrivia {t : Token} (h : t.isTrivia) (ts : List Token) :
    lastCode? (ts ++ [t]) = lastCode? ts := by
  rw [lastCode?, List.filter_append, List.filter_cons_of_neg (by simp [h]), List.filter_nil,
    List.append_nil, lastCode?]

theorem lastCode?_concat_of_code {t : Token} (h : ¬t.isTrivia) (ts : List Token) :
    lastCode? (ts ++ [t]) = some t := by
  rw [lastCode?, List.filter_append, List.filter_cons_of_pos (by simp [h]), List.filter_nil,
    List.getLast?_concat]

/-- The last token of code is the same at other places. -/
theorem map_unplaced_lastCode?_place (pos : Nat) (ts : List Token) :
    (lastCode? (place pos ts)).map unplaced = (lastCode? ts).map unplaced := by
  -- moving tokens keeps their kinds, so the same ones are left out
  have hmap (us : List Token) : (lastCode? us).map unplaced = lastCode? (us.map unplaced) := by
    rw [lastCode?, lastCode?, List.filter_map, List.getLast?_map]
    rfl
  rw [hmap, map_unplaced_place, hmap]

/-- Whether a regex literal may stand after some tokens depends on the last one that is code, if
there is one. -/
theorem regexAfter_eq (before : Bool) (ts : List Token) :
    regexAfter before ts = (lastCode? ts).elim before fun t => t.kind.allowsRegex t.text := by
  -- the induction is from the back, since only what stands last counts
  induction ts using List.reverseRecOn with
  | nil => rfl
  | append_singleton ts u ih =>
    rw [regexAfter_append]
    show u.kind.regexAfter (regexAfter before ts) u.text = _
    by_cases htrivia : u.isTrivia
    · rw [lastCode?_concat_of_isTrivia htrivia, Kind.regexAfter_of_isTrivia htrivia, ih]
    · rw [lastCode?_concat_of_code htrivia, Kind.regexAfter_of_code htrivia, Option.elim_some]

/-- Whether the last token that is code is an operator. -/
def endInOperator (ts : List Token) : Bool :=
  (lastCode? ts).any (·.kind.carriesOn)

theorem endInOperator_concat_of_isTrivia {t : Token} (h : t.isTrivia) (ts : List Token) :
    endInOperator (ts ++ [t]) = endInOperator ts := by
  rw [endInOperator, lastCode?_concat_of_isTrivia h, endInOperator]

theorem endInOperator_concat_of_code {t : Token} (h : ¬t.isTrivia) (ts : List Token) :
    endInOperator (ts ++ [t]) = t.kind.carriesOn := by
  rw [endInOperator, lastCode?_concat_of_code h, Option.any_some]

end Token

end Preload
