import Preload.Proofs.Nesting

/-!
# Balanced brackets and who is to blame

Balanced tokens are a word of a grammar: each bracket has its partner behind it, with balanced
tokens in between. In front of any place up to the first bracket without a partner, the tokens are
balanced but for the brackets that are still open there (`LeavesOpen`). This is what `checkNesting`
keeps on its stack, so it can say which bracket to blame.

Main statements:
* `LeavesOpen.snoc_closing`: a matching bracket closes the innermost open one;
* `checkNesting_cases`: the check of some tokens behind others;
* `checkNesting_eq_ok_iff_balanced` and `checkNesting_eq_error_iff`: what the check says of a text.
-/

namespace Preload

/-! ## Balanced tokens -/

/-- Whether each bracket among some tokens has its partner, with balanced tokens in between. -/
inductive Balanced : List Token → Prop
  | nil : Balanced []
  | plain {t : Token} {ts : List Token} (hkind : t.kind.isBracket = false) (rest : Balanced ts) :
      Balanced (t :: ts)
  | pair {bracket : Bracket} {t u : Token} {ts us : List Token} (hopening : t.kind = .opening bracket)
      (hclosing : u.kind = .closing bracket) (inner : Balanced ts) (rest : Balanced us) :
      Balanced (t :: (ts ++ u :: us))

namespace Balanced

theorem append {ts us : List Token} (hts : Balanced ts) (hus : Balanced us) : Balanced (ts ++ us) := by
  induction hts with
  | nil => exact hus
  | plain hkind _ ih => exact .plain hkind ih
  | @pair bracket t u inner rest hopening hclosing hinner _ _ ih =>
    -- the new tokens go behind what follows the closing bracket
    rw [List.cons_append, List.append_assoc]
    exact .pair hopening hclosing hinner ih

end Balanced

/-- The tokens are balanced but for some open brackets, innermost first. -/
inductive LeavesOpen : List OpenBracket → List Token → Prop
  | balanced {ts : List Token} (h : Balanced ts) : LeavesOpen [] ts
  | opening {stack : List OpenBracket} {bracket : Bracket} {t : Token} {ts us : List Token}
      (front : LeavesOpen stack ts) (hopening : t.kind = .opening bracket) (h : Balanced us) :
      LeavesOpen (⟨bracket, t.start⟩ :: stack) (ts ++ t :: us)

namespace LeavesOpen

variable {stack : List OpenBracket} {ts us : List Token} {t : Token} {bracket : Bracket}

/-- Balanced tokens leave no more brackets open. -/
theorem append (h : LeavesOpen stack ts) (hus : Balanced us) : LeavesOpen stack (ts ++ us) := by
  -- what is behind the innermost open bracket grows, the brackets stay open
  cases h with
  | balanced hts => exact .balanced (hts.append hus)
  | opening front hopening hbalanced =>
    rw [List.append_assoc, List.cons_append]
    exact .opening front hopening (hbalanced.append hus)

theorem snoc_plain (h : LeavesOpen stack ts) (hkind : t.kind.isBracket = false) :
    LeavesOpen stack (ts ++ [t]) :=
  h.append (.plain hkind .nil)

theorem snoc_opening (h : LeavesOpen stack ts) (hopening : t.kind = .opening bracket) :
    LeavesOpen (⟨bracket, t.start⟩ :: stack) (ts ++ [t]) :=
  .opening h hopening .nil

/-- A matching bracket closes the innermost open one. -/
theorem snoc_closing {o : OpenBracket} (h : LeavesOpen (o :: stack) ts)
    (hclosing : t.kind = .closing o.bracket) : LeavesOpen stack (ts ++ [t]) := by
  cases h with
  | @opening _ bracket u ts us front hopening hbalanced =>
    -- the bracket and its partner, with what is between them, are balanced and end the front
    rw [List.append_assoc, List.cons_append]
    exact front.append (.pair hopening hclosing hbalanced .nil)

/-- An open bracket is one of the tokens. -/
theorem exists_token {o : OpenBracket} (h : LeavesOpen (o :: stack) ts) :
    ∃ t ∈ ts, t.kind = .opening o.bracket ∧ t.start = o.pos := by
  cases h with
  | opening front hopening => exact ⟨_, by simp, hopening, rfl⟩

end LeavesOpen

/-! ## Blame -/

/-- Whether `delimiter` at `pos` is to blame for tokens that are not balanced: at the first bracket
that closes none, the innermost open one or else that bracket itself; without such a bracket, the
innermost one that is open at the end. -/
inductive Blames (ts : List Token) : Char → Nat → Prop
  | mismatch {o : OpenBracket} {stack : List OpenBracket} {bracket : Bracket} {t : Token}
      {before after : List Token} (hts : ts = before ++ t :: after)
      (hbefore : LeavesOpen (o :: stack) before) (hclosing : t.kind = .closing bracket)
      (hne : o.bracket ≠ bracket) : Blames ts o.bracket.opener o.pos
  | unopened {bracket : Bracket} {t : Token} {before after : List Token}
      (hts : ts = before ++ t :: after) (hbefore : LeavesOpen [] before)
      (hclosing : t.kind = .closing bracket) : Blames ts bracket.closer t.start
  | unclosed {o : OpenBracket} {stack : List OpenBracket} (h : LeavesOpen (o :: stack) ts) :
      Blames ts o.bracket.opener o.pos

/-- A bracket that is to blame is one of the tokens. -/
theorem Blames.exists_token {ts : List Token} {delimiter : Char} {pos : Nat}
    (h : Blames ts delimiter pos) : ∃ t ∈ ts, t.start = pos ∧ ∃ bracket,
      (t.kind = .opening bracket ∧ delimiter = bracket.opener) ∨
        (t.kind = .closing bracket ∧ delimiter = bracket.closer) := by
  -- each of the three names a token: open inside, closing nothing, or open at the end
  cases h with
  | mismatch hts hbefore =>
    obtain ⟨t, ht, hkind, hstart⟩ := hbefore.exists_token
    rw [hts]
    exact ⟨t, List.mem_append_left _ ht, hstart, _, .inl ⟨hkind, rfl⟩⟩
  | unopened hts _ hclosing =>
    rw [hts]
    exact ⟨_, List.mem_append_right _ List.mem_cons_self, rfl, _, .inr ⟨hclosing, rfl⟩⟩
  | unclosed h =>
    obtain ⟨t, ht, hkind, hstart⟩ := h.exists_token
    exact ⟨t, ht, hstart, _, .inl ⟨hkind, rfl⟩⟩

/-! ## The check -/

theorem checkNesting_opening {t : Token} {bracket : Bracket} (h : t.kind = .opening bracket)
    (stack : List OpenBracket) (ts : List Token) :
    checkNesting stack (t :: ts) = checkNesting (⟨bracket, t.start⟩ :: stack) ts := by
  -- an opening bracket is pushed whatever is open
  cases stack <;> simp [checkNesting, h]

theorem checkNesting_closing {t : Token} {bracket : Bracket} (h : t.kind = .closing bracket)
    (o : OpenBracket) (stack : List OpenBracket) (ts : List Token) :
    checkNesting (o :: stack) (t :: ts) =
      if o.bracket = bracket then checkNesting stack ts else .error o.error := by
  simp [checkNesting, h]

theorem checkNesting_unopened {t : Token} {bracket : Bracket} (h : t.kind = .closing bracket)
    (ts : List Token) :
    checkNesting [] (t :: ts) = .error (.unbalanced bracket.closer t.start) := by
  simp [checkNesting, h]

theorem checkNesting_plain {t : Token} (h : t.kind.isBracket = false) (stack : List OpenBracket)
    (ts : List Token) : checkNesting stack (t :: ts) = checkNesting stack ts := by
  -- of all kinds only brackets touch the stack
  cases hkind : t.kind with
  | opening bracket =>
    rw [hkind] at h
    cases h
  | closing bracket =>
    rw [hkind] at h
    cases h
  | _ => cases stack <;> simp [checkNesting, hkind]

/-- Balanced tokens leave the stack as it is. -/
theorem checkNesting_balanced {ts : List Token} (h : Balanced ts) (stack : List OpenBracket)
    (us : List Token) : checkNesting stack (ts ++ us) = checkNesting stack us := by
  induction h generalizing stack us with
  | nil => rfl
  | plain hkind _ ih => rw [List.cons_append, checkNesting_plain hkind, ih]
  | pair hopening hclosing _ _ ihInner ihRest =>
    -- the pair pushes and pops its bracket, and what is inside leaves the stack alone
    rw [List.cons_append, List.append_assoc, List.cons_append, checkNesting_opening hopening, ihInner,
      checkNesting_closing hclosing, if_pos rfl, ihRest]

/-- Behind other tokens, the stack holds the brackets that those leave open. -/
theorem checkNesting_append {stack : List OpenBracket} {ts : List Token} (h : LeavesOpen stack ts)
    (us : List Token) : checkNesting [] (ts ++ us) = checkNesting stack us := by
  induction h generalizing us with
  | balanced hts => exact checkNesting_balanced hts [] us
  | opening front hopening hbalanced ih =>
    -- the front leaves its brackets open, then this one is pushed
    rw [List.append_assoc, List.cons_append, ih, checkNesting_opening hopening,
      checkNesting_balanced hbalanced]

/-- The check of some tokens behind others that leave its stack open. -/
theorem checkNesting_cases {stack : List OpenBracket} {before : List Token}
    (h : LeavesOpen stack before) (ts : List Token) :
    (checkNesting stack ts = .ok () ∧ Balanced (before ++ ts)) ∨
      ∃ delimiter pos, checkNesting stack ts = .error (.unbalanced delimiter pos) ∧
        Blames (before ++ ts) delimiter pos := by
  -- the induction is over the tokens that are left; those in front of them keep what the stack says
  induction ts generalizing stack before with
  | nil =>
    rw [List.append_nil]
    -- at the end every bracket still open is one too many
    cases stack with
    | nil =>
      cases h with
      | balanced hbefore => exact .inl ⟨rfl, hbefore⟩
    | cons o stack => exact .inr ⟨_, _, rfl, .unclosed h⟩
  | cons t ts ih =>
    -- the token read is now in front
    have hfront : before ++ t :: ts = before ++ [t] ++ ts := by simp
    cases hkind : t.kind with
    | opening bracket =>
      rw [checkNesting_opening hkind, hfront]
      exact ih (h.snoc_opening hkind)
    | closing bracket =>
      -- with nothing open it closes nothing
      cases stack with
      | nil =>
        rw [checkNesting_unopened hkind]
        exact .inr ⟨_, _, rfl, .unopened rfl h hkind⟩
      | cons o stack =>
        -- it closes the innermost open bracket, or it is the wrong one
        rw [checkNesting_closing hkind]
        by_cases hbracket : o.bracket = bracket
        · rw [if_pos hbracket, hfront]
          exact ih (h.snoc_closing (hbracket ▸ hkind))
        · rw [if_neg hbracket]
          exact .inr ⟨_, _, rfl, .mismatch rfl h hkind hbracket⟩
    | _ =>
      have hplain : t.kind.isBracket = false := by rw [hkind]; rfl
      rw [checkNesting_plain hplain, hfront]
      exact ih (h.snoc_plain hplain)

/-- The check accepts balanced tokens. -/
theorem checkNesting_eq_ok_iff_balanced (ts : List Token) :
    checkNesting [] ts = .ok () ↔ Balanced ts := by
  constructor
  · intro hok
    -- the check ends in one of two ways, and it was said to accept
    obtain ⟨-, hbalanced⟩ | ⟨_, _, herror, -⟩ := checkNesting_cases (.balanced .nil) ts
    · exact hbalanced
    · rw [hok] at herror
      cases herror
  · intro hbalanced
    have hcheck := checkNesting_balanced hbalanced [] []
    rwa [List.append_nil] at hcheck

/-- The check blames the bracket that is to blame, and there is only one. -/
theorem checkNesting_eq_error_iff (ts : List Token) (delimiter : Char) (pos : Nat) :
    checkNesting [] ts = .error (.unbalanced delimiter pos) ↔ Blames ts delimiter pos := by
  constructor
  · intro herror
    -- it is said to refuse, so what it blames is to blame
    obtain ⟨hok, -⟩ | ⟨_, _, hother, hblames⟩ := checkNesting_cases (.balanced .nil) ts
    · rw [herror] at hok
      cases hok
    · rw [herror] at hother
      cases hother
      exact hblames
  · intro hblames
    -- up to the token at fault the check keeps what the front leaves open
    cases hblames with
    | mismatch hts hbefore hclosing hne =>
      rw [hts, checkNesting_append hbefore, checkNesting_closing hclosing, if_neg hne]
      rfl
    | unopened hts hbefore hclosing =>
      rw [hts, checkNesting_append hbefore, checkNesting_unopened hclosing]
    | unclosed h =>
      -- all tokens are read, and a bracket is left
      have hcheck := checkNesting_append h []
      rw [List.append_nil] at hcheck
      rw [hcheck]
      rfl

/-! ## One token after the other -/

namespace LeavesOpen

variable {stack : List OpenBracket} {ts us : List Token} {t : Token}

/-- Behind balanced tokens no bracket is open. -/
theorem eq_nil_of_balanced (h : LeavesOpen stack ts) (hbalanced : Balanced ts) : stack = [] := by
  -- a stack that is left would be an error, but balanced tokens are accepted
  have hcheck := checkNesting_append h []
  rw [List.append_nil, (checkNesting_eq_ok_iff_balanced ts).2 hbalanced] at hcheck
  cases stack with
  | nil => rfl
  | cons o stack => cases hcheck

theorem balanced_of_length (h : LeavesOpen stack ts) (hlength : stack.length = 0) : Balanced ts := by
  obtain rfl := List.length_eq_zero_iff.1 hlength
  cases h with
  | balanced h => exact h

/-- One more token of a text with nested brackets keeps what the check has on its stack. -/
theorem exists_concat (h : LeavesOpen stack ts)
    (hcheck : checkNesting stack (t :: us) = .ok ()) :
    ∃ stack', LeavesOpen stack' (ts ++ [t]) ∧ checkNesting stack' us = .ok () ∧
      stack'.length = t.kind.depthAfter stack.length := by
  -- each kind of token does to the depth what it does to the stack
  cases hkind : t.kind with
  | opening bracket =>
    rw [checkNesting_opening hkind] at hcheck
    exact ⟨_, h.snoc_opening hkind, hcheck, rfl⟩
  | closing bracket =>
    cases stack with
    | nil =>
      rw [checkNesting_unopened hkind] at hcheck
      cases hcheck
    | cons o stack =>
      rw [checkNesting_closing hkind] at hcheck
      split at hcheck
      · next hbracket => exact ⟨stack, h.snoc_closing (hbracket ▸ hkind), hcheck, rfl⟩
      · cases hcheck
  | _ =>
    have hplain : t.kind.isBracket = false := by rw [hkind]; rfl
    rw [checkNesting_plain hplain] at hcheck
    exact ⟨stack, h.snoc_plain hplain, hcheck, rfl⟩

end LeavesOpen

end Preload
