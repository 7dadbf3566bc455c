import Preload.Proofs.Group.Rule

/-!
# Splitting by the rule

The pass over some tokens finds just the groups that the rule lays over them. One induction follows
the pass and shows that what it finds keeps the rule; another one follows a statement of the rule
and shows that the pass takes all of it, and no more.

Main statements:
* `cutsByRule_cut`: behind the front of a group, the pass goes on by the rule;
* `cut_of_isStatement`: of a statement the pass takes just the tokens that are left;
* `splitsInto_iff`: tokens with nested brackets are split into the groups of the rule, and no
  others.
-/

namespace Preload.Group

variable {front : List Token} {t : Token}

/-! ## The groups that the pass finds -/

theorem SplitsInto.newline_cons {ts : List Token} {gs : List Group} (h : SplitsInto ts gs)
    (hkind : t.kind = .newline) : SplitsInto (t :: ts) gs := by
  -- one more line break is skipped in front of the first group
  cases h with
  | nil newlines => exact .nil (List.forall_mem_cons.2 ⟨hkind, newlines⟩)
  | cons newlines isStatement endsBefore rest =>
    exact .cons (List.forall_mem_cons.2 ⟨hkind, newlines⟩) isStatement endsBefore rest

theorem SplitsInto.tokens_append {g : Group} {gs : List Group} {behind : List Token}
    (h : SplitsInto behind gs) (hg : IsStatement g.tokens) (hends : EndsBefore g.tokens behind) :
    SplitsInto (g.tokens ++ behind) (g :: gs) := by
  -- no line breaks are skipped in front of it
  have hnone : ∀ t ∈ ([] : List Token), t.kind = .newline := by simp
  exact .cons hnone hg hends h

/-- Whether the pass, behind the front of a group, finds the rest of a statement and then the groups
of the rule. -/
def CutsByRule (front ts : List Token) (c : Cut) : Prop :=
  ∃ behind, ts = c.tail ++ behind ∧ SplitsInto behind c.later ∧
    (front ≠ [] → (∀ t ∈ (front ++ c.tail).getLast?, t.kind ≠ .newline) →
      IsStatement (front ++ c.tail) ∧ EndsBefore (front ++ c.tail) behind)

theorem CutsByRule.join {c : Cut} {ts : List Token} (h : CutsByRule (front ++ [t]) ts c) :
    CutsByRule front (t :: ts) (c.extend t .join) := by
  obtain ⟨behind, hts, hsplits, hstatement⟩ := h
  -- the token goes on with the group, so it belongs to its front
  rw [List.append_assoc] at hstatement
  exact ⟨behind, congrArg (t :: ·) hts, hsplits, fun _ => hstatement (by simp)⟩

/-- A token that opens a group is the first of a statement. -/
theorem CutsByRule.start {c : Cut} {ts : List Token} (h : CutsByRule [t] ts c)
    (hlast : ∀ u ∈ (t :: c.tail).getLast?, u.kind ≠ .newline) :
    SplitsInto (t :: ts) (⟨t, c.tail⟩ :: c.later) := by
  obtain ⟨behind, hts, hsplits, hstatement⟩ := h
  obtain ⟨hgroup, hends⟩ := hstatement (by simp) hlast
  -- the tail is the rest of the group, and then the rule goes on
  rw [hts]
  exact hsplits.tokens_append (g := ⟨t, c.tail⟩) hgroup hends

/-- Nothing of a group is left where it ends. -/
theorem Front.cutsByRule {cursor : Cursor} (h : Front front cursor []) {ts : List Token}
    {gs : List Group} (hsplits : SplitsInto ts gs) (hends : front ≠ [] → EndsBefore front ts) :
    CutsByRule front ts ⟨[], gs⟩ := by
  refine ⟨ts, rfl, hsplits, fun hne hlast => ?_⟩
  -- nothing more belongs to the front, so it is a statement as it stands
  rw [List.append_nil] at hlast ⊢
  exact ⟨h.isStatement hlast, hends hne⟩

theorem last_ne_newline_cons {ts : List Token} (ht : t.kind ≠ .newline)
    (hts : ∀ u ∈ ts.getLast?, u.kind ≠ .newline) : ∀ u ∈ (t :: ts).getLast?, u.kind ≠ .newline := by
  cases ts with
  | nil => simpa using ht
  | cons u us => simpa using hts

/-- Outside of brackets the pass leaves no line break at the end of what goes on. -/
theorem last_tail_cut {cursor : Cursor} {depth : Nat} (hfits : cursor.Fits depth) {ts : List Token}
    (hdepth : (cursor.run depth ts).2 = 0) :
    ∀ t ∈ (cut cursor depth ts).tail.getLast?, t.kind ≠ .newline := by
  induction ts generalizing cursor depth with
  | nil => simp [cut_nil]
  | cons t ts ih =>
    by_cases hstops : Stops cursor depth t ts
    · -- the pass stops, and nothing is left
      simp [cut_of_stops hstops]
    · have hfits' := cursor.next_fits (t.kind.depthAfter depth) t.kind
      have hih := ih hfits' hdepth
      have hend := (separated_cut hfits' hdepth).1
      rw [cut_cons hstops]
      cases haction : cursor.action (t.kind.depthAfter depth) t.kind with
      -- the token is no part of the tail
      | start => simp
      | skip => simp
      | join =>
        rw [Cut.extend_join]
        generalize hc : (cut (cursor.next (t.kind.depthAfter depth) t.kind)
          (t.kind.depthAfter depth) ts).tail = tail at hih hend ⊢
        cases tail with
        -- more of the group follows, and it ends as it should
        | cons u us => simpa using hih
        | nil =>
          -- a line break goes on with a group only if more of the group follows it
          rintro _ ⟨⟩ hkind
          have hkind : t.kind = .newline := hkind
          have hzero : t.kind.depthAfter depth = 0 := hend
          rw [hzero, hkind] at haction hc
          obtain rfl := Cursor.eq_inside_of_takes (.inl haction)
          have hmore : ¬allNewlines ts := fun hall => hstops ⟨hzero, hkind, rfl, hall⟩
          have htail := not_allNewlines_tail hmore
          rw [show (cut (.inside true) 0 ts).tail = [] from hc] at htail
          exact htail rfl

/-- Nor does it at the end of a group that a token opens. -/
theorem last_group_cut {stack : List OpenBracket} {ts : List Token} (ht : t.kind ≠ .newline)
    (hcheck : checkNesting stack ts = .ok ()) :
    let cursor := Cursor.between.next stack.length t.kind
    ∀ u ∈ (t :: (cut cursor stack.length ts).tail).getLast?, u.kind ≠ .newline := by
  intro cursor
  have hnested := (checkNesting_eq_ok_iff stack ts).1 hcheck
  have hend : (cursor.run stack.length ts).2 = 0 := by
    have hrun := run_depth_of_nested hnested cursor
    rwa [List.length_map] at hrun
  -- nested brackets are closed at the end of the text
  exact last_ne_newline_cons ht (last_tail_cut (Cursor.next_fits _ _ _) hend)

/-- Behind the front of a group, the pass goes on by the rule. -/
theorem cutsByRule_cut {cursor : Cursor} {stack : List OpenBracket} {ts : List Token}
    (h : Front front cursor stack) (hcheck : checkNesting stack ts = .ok ()) :
    CutsByRule front ts (cut cursor stack.length ts) := by
  induction ts generalizing front cursor stack with
  | nil =>
    cases stack with
    -- an open bracket at the end was refused
    | cons o stack => cases hcheck
    | nil =>
      refine h.cutsByRule (.nil (by simp)) fun _ => ⟨?_, ?_⟩
      · simp
      · -- at the end of the text a group may end
        exact fun _ => .inl (by simp)
  | cons t ts ih =>
    by_cases hstops : Stops cursor stack.length t ts
    · obtain ⟨hzero, hkind, rfl, hall⟩ := hstops
      rw [cut_of_stops ⟨hzero, hkind, rfl, hall⟩]
      rw [hkind] at hzero
      obtain rfl : stack = [] := List.length_eq_zero_iff.1 hzero
      have hnewlines : ∀ u ∈ t :: ts, u.kind = .newline :=
        List.forall_mem_cons.2 ⟨hkind, by simpa [allNewlines] using hall⟩
      refine h.cutsByRule (.nil hnewlines) fun _ => ⟨?_, ?_⟩
      · -- the pass stands inside of the group, so no semicolon was there
        exact fun hterminated => absurd hterminated h.knows.2.2
      · exact fun _ => .inl hnewlines
    · rw [cut_cons hstops]
      cases haction : cursor.action (t.kind.depthAfter stack.length) t.kind with
      | join =>
        obtain ⟨stack', hopen, hcheck', hdepth⟩ := h.leavesOpen.exists_concat hcheck
        -- one more token of the front, and the brackets stay nested
        rw [← hdepth] at haction ⊢
        exact (ih (h.concat hopen hdepth (.inl haction)) hcheck').join
      | start =>
        have hends (hne : front ≠ []) : EndsBefore front (t :: ts) :=
          (h.endsBefore_of_not_join hne (by simp [haction]) ts).2.2
        obtain ⟨houtside, hbetween, hnext⟩ := Cursor.of_action_eq_start haction
        obtain rfl : stack = [] := h.eq_nil_of_outside houtside
        -- the group that the token opens is passed from its own start
        obtain ⟨stack', hopen, hcheck', hdepth⟩ := Front.nil.leavesOpen.exists_concat hcheck
        rw [← hnext]
        rw [← hdepth] at hbetween ⊢
        have hcut := ih (Front.nil.concat hopen hdepth (.inr ⟨rfl, hbetween⟩)) hcheck'
        have hkind : t.kind ≠ .newline := by
          -- the token opens a group, which no line break does
          intro hkind
          rw [hdepth, hkind] at hbetween
          cases hbetween
        exact h.cutsByRule (hcut.start (last_group_cut hkind hcheck')) hends
      | skip =>
        have hends (hne : front ≠ []) : EndsBefore front (t :: ts) :=
          (h.endsBefore_of_not_join hne (by simp [haction]) ts).2.2
        obtain ⟨hzero, hkind, -, hnext⟩ := Cursor.of_action_eq_skip haction
        rw [hnext, hzero]
        rw [hkind] at hzero
        obtain rfl : stack = [] := List.length_eq_zero_iff.1 hzero
        -- a line break opens and closes no bracket
        rw [checkNesting_plain (by rw [hkind]; rfl)] at hcheck
        obtain ⟨behind, hts, hsplits, -⟩ := ih Front.nil hcheck
        rw [List.length_nil, tail_cut_between, List.nil_append] at hts
        subst hts
        exact h.cutsByRule (hsplits.newline_cons hkind) hends

/-! ## Statements that the pass is given -/

/-- Where the pass takes no token for the group it stands in, it goes on as between groups. -/
theorem cut_of_not_join {cursor : Cursor} {t : Token} {ts : List Token}
    (hstops : ¬Stops cursor 0 t ts)
    (haction : cursor.action (t.kind.depthAfter 0) t.kind ≠ .join) :
    cut cursor 0 (t :: ts) = ⟨[], split (t :: ts)⟩ := by
  -- between groups the token opens a group or is skipped
  rw [split, cut_cons hstops, cut_cons (not_stops_of_ne (by simp) 0 t ts)]
  cases haction' : cursor.action (t.kind.depthAfter 0) t.kind with
  | join => exact absurd haction' haction
  | start =>
    obtain ⟨-, hstart, hnext⟩ := Cursor.of_action_eq_start haction'
    rw [hstart, hnext]
    rfl
  | skip =>
    obtain ⟨hzero, hkind, -, hnext⟩ := Cursor.of_action_eq_skip haction'
    rw [hnext, hzero, hkind]
    rfl

/-- Behind a statement, the pass goes on as between groups. -/
theorem cut_of_endsBefore {cursor : Cursor} (h : Front front cursor []) (hne : front ≠ [])
    {behind : List Token} (hends : EndsBefore front behind) :
    cut cursor 0 behind = ⟨[], split behind⟩ := by
  have hknows := h.knows
  cases cursor with
  | between => exact absurd hknows hne
  | inside carriesOn =>
    obtain ⟨-, hoperator, hopen⟩ := hknows
    obtain hall | ⟨hend, t, ts, rfl, hkind⟩ := hends.of_not_isTerminated hopen
    · -- nothing but line breaks is left, and no group follows
      have hall : allNewlines behind := by simpa [allNewlines] using hall
      rw [split, cut_allNewlines hall, cut_allNewlines hall]
    · obtain rfl : carriesOn = false := by
        rw [← hoperator]
        simpa using hend
      -- a line break without an operator in front is not joined
      refine cut_of_not_join (not_stops_of_ne (by simp) 0 t ts) ?_
      rw [hkind]
      simp [Cursor.action, Token.Kind.depthAfter]
  | closed =>
    cases behind with
    | nil => rfl
    | cons t ts =>
      -- behind the semicolon comments alone are joined
      have hcomment : ¬t.isComment := hends.of_isTerminated hknows.1 t rfl
      refine cut_of_not_join (not_stops_of_ne (by simp) 0 t ts) fun hjoin => hcomment ?_
      exact (h.isComment_of_takes hknows.1 (.inl hjoin)).2.2

/-- The pass goes on with a statement as long as there is more of it. -/
theorem Front.action_eq_join {cursor : Cursor} {stack : List OpenBracket}
    (h : Front front cursor stack) (hne : front ≠ []) {rest : List Token}
    (hstatement : IsStatement (front ++ t :: rest)) :
    cursor.action (t.kind.depthAfter stack.length) t.kind = .join := by
  have hknows := h.knows
  cases cursor with
  | between => exact absurd hknows hne
  | inside carriesOn =>
    refine if_neg fun hskip => ?_
    -- a line break that the pass would skip stands behind an operator
    obtain ⟨hzero, hkind, rfl⟩ := hskip
    rw [hkind] at hzero
    have hbalanced : Balanced front := h.leavesOpen.balanced_of_length hzero
    have hoperator := hstatement.operator front rest ⟨hbalanced, t, hkind, rfl⟩
    rw [hknows.2.1] at hoperator
    cases hoperator
  | closed =>
    obtain ⟨⟨before, after, hstands⟩, rfl⟩ := hknows
    have hcomment : t.kind.isComment :=
      -- behind the semicolon of a statement there are only comments
      hstatement.comments before _ (hstands.append (t :: rest)) t (by simp)
    cases hkind : t.kind with
    | lineComment => rfl
    | blockComment => rfl
    | _ =>
      rw [hkind] at hcomment
      cases hcomment

/-- The pass does not stop within a statement. -/
theorem IsStatement.not_stops {rest : List Token} (h : IsStatement (front ++ t :: rest))
    (cursor : Cursor) (depth : Nat) (behind : List Token) :
    ¬Stops cursor depth t (rest ++ behind) := by
  rintro ⟨-, hkind, -, hall⟩
  rw [allNewlines, List.all_append, Bool.and_eq_true] at hall
  -- a statement does not end in a line break, and here all that is left would be one
  have hnewlines : ∀ u ∈ t :: rest, u.kind = .newline :=
    List.forall_mem_cons.2 ⟨hkind, by simpa using hall.1⟩
  have hlast := List.getLast?_eq_some_getLast (List.cons_ne_nil t rest)
  refine h.last_ne_newline ((t :: rest).getLast (List.cons_ne_nil t rest)) ?_
    (hnewlines _ (List.getLast_mem _))
  rw [List.getLast?_append, hlast]
  rfl

/-- Of a statement the pass takes just the tokens that are left. -/
theorem cut_of_isStatement {cursor : Cursor} {stack : List OpenBracket} {rest behind : List Token}
    (h : Front front cursor stack) (hne : front ≠ []) (hstatement : IsStatement (front ++ rest))
    (hends : EndsBefore (front ++ rest) behind) :
    cut cursor stack.length (rest ++ behind) = ⟨rest, split behind⟩ := by
  induction rest generalizing front cursor stack with
  | nil =>
    rw [List.append_nil] at hstatement hends
    -- all of the statement is read, and the pass is where the rule lets it end
    obtain rfl : stack = [] := h.leavesOpen.eq_nil_of_balanced hstatement.balanced
    exact cut_of_endsBefore h hne hends
  | cons t rest ih =>
    -- the brackets of the rest close what the front leaves open
    have hcheck : checkNesting stack (t :: rest) = .ok () := by
      rw [← checkNesting_append h.leavesOpen]
      exact (checkNesting_eq_ok_iff_balanced _).2 hstatement.balanced
    obtain ⟨stack', hopen, -, hdepth⟩ := h.leavesOpen.exists_concat hcheck
    -- there is more of the statement, so the pass joins the token
    have hjoin := h.action_eq_join hne hstatement
    rw [List.cons_append, cut_cons (hstatement.not_stops cursor stack.length behind)]
    rw [← hdepth] at hjoin ⊢
    rw [hjoin, ih (h.concat hopen hdepth (.inl hjoin)) (by simp) (by simpa using hstatement)
      (by simpa using hends)]
    rfl

theorem split_append_of_newlines {skipped : List Token}
    (h : ∀ t ∈ skipped, t.kind = .newline) (ts : List Token) : split (skipped ++ ts) = split ts := by
  induction skipped with
  | nil => rfl
  | cons t skipped ih =>
    rw [List.forall_mem_cons] at h
    -- between groups a line break is skipped
    rw [← ih h.2, split, List.cons_append, cut_cons (not_stops_of_ne (by simp) 0 t (skipped ++ ts)), h.1]
    rfl

/-- A statement is the first group of the tokens that it opens. -/
theorem split_tokens_append {g : Group} (hg : IsStatement g.tokens) {behind : List Token}
    (hends : EndsBefore g.tokens behind) : split (g.tokens ++ behind) = g :: split behind := by
  have hcheck : checkNesting [] g.tokens = .ok () :=
    (checkNesting_eq_ok_iff_balanced g.tokens).2 hg.balanced
  obtain ⟨stack, hopen, -, hdepth⟩ := Front.nil.leavesOpen.exists_concat hcheck
  -- the first token of a statement is no line break, so it starts a group
  have hstart : Cursor.between.action stack.length g.first.kind = .start :=
    if_neg fun hskip => hg.first_ne_newline g.first rfl hskip.2
  have hfront := Front.nil.concat hopen hdepth (.inr ⟨rfl, hstart⟩)
  have hcut := cut_of_isStatement hfront (by simp) hg hends
  rw [split, tokens, List.cons_append, cut_cons (not_stops_of_ne (by simp) 0 _ _)]
  rw [List.length_nil] at hdepth
  rw [← hdepth, hstart, hcut]
  rfl

/-- The pass finds the groups of the rule. -/
theorem SplitsInto.split_eq {ts : List Token} {gs : List Group} (h : SplitsInto ts gs) :
    split ts = gs := by
  induction h with
  | @nil ts newlines =>
    have hsplit := split_append_of_newlines newlines []
    rw [List.append_nil] at hsplit
    rw [hsplit]
    rfl
  | cons newlines isStatement endsBefore rest ih =>
    -- the line breaks are skipped, and the statement is split off
    rw [split_append_of_newlines newlines, split_tokens_append isStatement endsBefore, ih]

theorem balanced_of_newlines {ts : List Token} (h : ∀ t ∈ ts, t.kind = .newline) : Balanced ts := by
  induction ts with
  | nil => exact .nil
  | cons t ts ih =>
    rw [List.forall_mem_cons] at h
    -- a line break is no bracket
    exact .plain (by rw [h.1]; rfl) (ih h.2)

theorem SplitsInto.balanced {ts : List Token} {gs : List Group} (h : SplitsInto ts gs) :
    Balanced ts := by
  induction h with
  | nil newlines => exact balanced_of_newlines newlines
  | cons newlines isStatement endsBefore rest ih =>
    exact (balanced_of_newlines newlines).append (isStatement.balanced.append ih)

/-- Tokens whose brackets are nested are split into the groups of the rule, and into no others. -/
theorem splitsInto_iff (ts : List Token) (gs : List Group) :
    checkNesting [] ts = .ok () ∧ split ts = gs ↔ SplitsInto ts gs := by
  constructor
  · intro h
    obtain ⟨hcheck, rfl⟩ := h
    obtain ⟨behind, hts, hsplits, -⟩ := cutsByRule_cut Front.nil hcheck
    -- between groups nothing goes on, so all tokens are behind the empty front
    rw [List.length_nil, tail_cut_between, List.nil_append] at hts
    rwa [← hts] at hsplits
  · intro h
    exact ⟨(checkNesting_eq_ok_iff_balanced ts).2 h.balanced, h.split_eq⟩

end Preload.Group
