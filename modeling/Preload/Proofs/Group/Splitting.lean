import Preload.Group

/-!
# Splitting into groups

What one token does to a pass over the tokens, as a step of its own: where the pass stands then
(`Cursor.next`) and whether the token joins a group, opens one or is skipped (`Cursor.action`).
`cut_cons` is the step lemma that the inductions over `cut` rest on.

Main statements:
* `isWhole_of_mem_split`: a group by itself is one group again;
* `cut_append_newline`: where a group ends at a line break, what follows is split by itself;
* `separated_split`: every group but the last one ends at a line break that follows it.
-/

namespace Preload.Group

/-! ## One step of the pass -/

/-- Where the pass stands behind a token of kind `kind`, where `depth` brackets are open behind
it. -/
def Cursor.next (cursor : Cursor) (depth : Nat) (kind : Token.Kind) : Cursor :=
  if depth ≠ 0 then cursor.advance kind
  else
    match kind, cursor with
    | .newline, .inside true => .inside true
    | .newline, _ => .between
    | .semicolon, _ => .closed
    | .lineComment, .closed | .blockComment, .closed => .closed
    | kind, _ => cursor.advance kind

/-- What becomes of a token. -/
inductive Action where
  /-- It goes on with the group the pass stands in. -/
  | join
  /-- It opens a group. -/
  | start
  /-- It belongs to no group. -/
  | skip
  deriving DecidableEq

/-- What becomes of a token of kind `kind`, where `depth` brackets are open behind it. -/
def Cursor.action (cursor : Cursor) (depth : Nat) (kind : Token.Kind) : Action :=
  match cursor with
  | .between => if depth = 0 ∧ kind = .newline then .skip else .start
  | .inside carriesOn => if depth = 0 ∧ kind = .newline ∧ carriesOn = false then .skip else .join
  | .closed =>
    if depth = 0 ∧ kind = .newline then .skip
    else if depth = 0 ∧ kind.isComment then .join
    else .start

/-- Puts a token in front of what a pass makes of the tokens behind it. -/
def Cut.extend (t : Token) (cut : Cut) : Action → Cut
  | .join => ⟨t :: cut.tail, cut.later⟩
  | .start => ⟨[], ⟨t, cut.tail⟩ :: cut.later⟩
  | .skip => ⟨[], cut.later⟩

@[simp] theorem Cut.extend_join (t : Token) (cut : Cut) :
    cut.extend t .join = ⟨t :: cut.tail, cut.later⟩ := rfl

@[simp] theorem Cut.extend_start (t : Token) (cut : Cut) :
    cut.extend t .start = ⟨[], ⟨t, cut.tail⟩ :: cut.later⟩ := rfl

@[simp] theorem Cut.extend_skip (t : Token) (cut : Cut) :
    cut.extend t .skip = ⟨[], cut.later⟩ := rfl

/-- Whether tokens are line breaks and nothing else. -/
def allNewlines (ts : List Token) : Bool :=
  ts.all (·.kind = .newline)

/-- Whether the pass drops a line break, and all tokens behind it, after an operator. -/
def Stops (cursor : Cursor) (depth : Nat) (t : Token) (ts : List Token) : Prop :=
  t.kind.depthAfter depth = 0 ∧ t.kind = .newline ∧ cursor = .inside true ∧ allNewlines ts

/-- Only behind an operator does the pass drop anything. -/
theorem not_stops_of_ne {cursor : Cursor} (h : cursor ≠ .inside true) (depth : Nat) (t : Token)
    (ts : List Token) : ¬Stops cursor depth t ts :=
  fun hstops => h hstops.2.2.1

theorem cut_nil (cursor : Cursor) (depth : Nat) : cut cursor depth [] = ⟨[], []⟩ := rfl

theorem cut_of_stops {cursor : Cursor} {depth : Nat} {t : Token} {ts : List Token}
    (h : Stops cursor depth t ts) : cut cursor depth (t :: ts) = ⟨[], []⟩ := by
  obtain ⟨hdepth, hkind, rfl, hall⟩ := h
  rw [hkind] at hdepth
  rw [allNewlines] at hall
  -- nothing is left but line breaks, so the pass is over
  unfold cut
  simp [hkind, hdepth, hall]

/-- The step lemma: what the pass makes of a token and those behind it. -/
theorem cut_cons {cursor : Cursor} {depth : Nat} {t : Token} {ts : List Token}
    (h : ¬Stops cursor depth t ts) :
    let depth' := t.kind.depthAfter depth
    cut cursor depth (t :: ts) =
      (cut (cursor.next depth' t.kind) depth' ts).extend t (cursor.action depth' t.kind) := by
  intro depth'
  conv => lhs; unfold cut
  -- inside of brackets every token advances the pass; outside there are rules for some kinds
  by_cases hdepth : depth' = 0
  · rw [Stops, show t.kind.depthAfter depth = 0 from hdepth] at h
    simp only [show t.kind.depthAfter depth = 0 from hdepth, hdepth, ne_eq, not_true_eq_false,
      if_false]
    generalize t.kind = kind at h ⊢
    split
    · -- there is more than line breaks, so the line break goes on with the group
      have hall : ¬ts.all (·.kind = .newline) := fun hall => h ⟨rfl, rfl, rfl, hall⟩
      rw [if_neg hall]
      rfl
    · next hcursor =>
      rcases cursor with _ | (_ | _) | _
      · rfl
      · rfl
      · -- behind an operator the line break has the rule above
        exact absurd rfl hcursor
      · rfl
    · cases cursor <;> rfl
    · rfl
    · rfl
    · next hfeed hsemi hcarry hline hblock =>
      -- a token without a rule advances the pass as well
      have hnext : cursor.next 0 kind = cursor.advance kind := by
        cases kind <;> cases cursor <;> first | rfl | simp_all
      rw [hnext]
      cases cursor with
      | between => rw [Cursor.action, if_neg fun h => hfeed h.2]; rfl
      | inside carriesOn => rw [Cursor.action, if_neg fun h => hfeed h.2.1]; rfl
      | closed =>
        have hcomment : kind.isComment = false := by
          -- a comment behind a semicolon has a rule of its own
          cases kind <;> first | rfl | simp_all
        rw [Cursor.action, if_neg fun h => hfeed h.2, hcomment]
        rfl
  · rw [if_pos hdepth]
    cases cursor <;> simp [Cursor.next, Cursor.action, Cut.extend, Cut.cons, hdepth, depth']

/-! ## What the kinds of steps mean -/

/-- Whether the pass may stand at `cursor` while `depth` brackets are open: outside of a group there
are none. -/
def Cursor.Fits (cursor : Cursor) (depth : Nat) : Prop :=
  (∀ carriesOn, cursor ≠ .inside carriesOn) → depth = 0

theorem Cursor.between_fits : Cursor.between.Fits 0 :=
  fun _ => rfl

theorem Cursor.advance_eq_inside (cursor : Cursor) (kind : Token.Kind) :
    ∃ carriesOn, cursor.advance kind = .inside carriesOn := by
  unfold Cursor.advance
  -- what is no code keeps the pass inside, and what is code puts it there
  split
  · cases cursor <;> exact ⟨_, rfl⟩
  · exact ⟨_, rfl⟩

theorem Cursor.next_fits (cursor : Cursor) (depth : Nat) (kind : Token.Kind) :
    (cursor.next depth kind).Fits depth := by
  intro houtside
  by_cases hdepth : depth = 0
  · exact hdepth
  · -- within brackets the pass is inside of a group
    obtain ⟨carriesOn, hinside⟩ := cursor.advance_eq_inside kind
    have hnext : cursor.next depth kind = cursor.advance kind := by
      unfold Cursor.next
      rw [if_pos hdepth]
    exact absurd (hnext.trans hinside) (houtside carriesOn)

/-- Only line breaks outside of brackets are skipped, and the pass then stands between groups. -/
theorem Cursor.of_action_eq_skip {cursor : Cursor} {depth : Nat} {kind : Token.Kind}
    (h : cursor.action depth kind = .skip) :
    depth = 0 ∧ kind = .newline ∧ cursor ≠ .inside true ∧ cursor.next depth kind = .between := by
  rcases cursor with _ | carriesOn | _
  all_goals
    simp only [Cursor.action] at h
    split at h
  · -- each of the three places has its own rule for a line break
    next hskip => obtain ⟨rfl, rfl⟩ := hskip; exact ⟨rfl, rfl, by simp, rfl⟩
  · cases h
  · next hskip => obtain ⟨rfl, rfl, rfl⟩ := hskip; exact ⟨rfl, rfl, by simp, rfl⟩
  · cases h
  · next hskip => obtain ⟨rfl, rfl⟩ := hskip; exact ⟨rfl, rfl, by simp, rfl⟩
  · split at h <;> cases h

/-- A token that opens a group does so between groups as well. -/
theorem Cursor.of_action_eq_start {cursor : Cursor} {depth : Nat} {kind : Token.Kind}
    (h : cursor.action depth kind = .start) :
    (∀ carriesOn, cursor ≠ .inside carriesOn) ∧ Cursor.between.action depth kind = .start ∧
      Cursor.between.next depth kind = cursor.next depth kind := by
  cases cursor with
  | between => exact ⟨by simp, h, rfl⟩
  | inside carriesOn =>
    -- inside of a group nothing opens another one
    simp only [Cursor.action] at h
    split at h <;> cases h
  | closed =>
    simp only [Cursor.action] at h
    split at h
    · cases h
    · next hfeed =>
      refine ⟨by simp, by rw [Cursor.action, if_neg hfeed], ?_⟩
      split at h
      · cases h
      · next hcomment =>
        -- no comment behind a semicolon, so the token opens a group as it would between groups
        by_cases hdepth : depth = 0
        · subst hdepth
          cases kind <;> first | rfl | simp_all [Token.Kind.isComment]
        · unfold Cursor.next Cursor.advance
          rw [if_pos hdepth, if_pos hdepth]

/-! ## Groups taken by themselves -/

/-- Between groups nothing goes on. -/
theorem tail_cut_between (depth : Nat) (ts : List Token) : (cut .between depth ts).tail = [] := by
  -- between groups a token opens a group or is skipped
  cases ts with
  | nil => rfl
  | cons t ts =>
    rw [cut_cons (not_stops_of_ne (by simp) depth t ts)]
    simp only [Cursor.action]
    split <;> rfl

/-- What goes on after an operator does so up to a token that is no line break. -/
theorem not_allNewlines_tail {ts : List Token} (h : ¬allNewlines ts) :
    ¬allNewlines (cut (.inside true) 0 ts).tail := by
  induction ts with
  | nil => exact absurd rfl h
  | cons t ts ih =>
    by_cases hkind : t.kind = .newline
    · -- more than line breaks is left, so the pass goes on past this one
      have hts : ¬allNewlines ts := by simpa [allNewlines, hkind] using h
      have hstops : ¬Stops (.inside true) 0 t ts := fun hstops => hts hstops.2.2.2
      have hcut : cut (.inside true) 0 (t :: ts) = (cut (.inside true) 0 ts).extend t .join := by
        rw [cut_cons hstops, hkind]
        rfl
      rw [hcut]
      simpa [allNewlines, hkind] using ih hts
    · have hstops : ¬Stops (.inside true) 0 t ts := fun hstops => hkind hstops.2.1
      rw [cut_cons hstops]
      simp [Cursor.action, hkind, allNewlines]

/-- The pass drops no token of what it makes of others. -/
theorem not_stops_tail {cursor : Cursor} {depth : Nat} {t : Token} {ts : List Token}
    (h : ¬Stops cursor depth t ts) :
    ¬Stops cursor depth t
      (cut (cursor.next (t.kind.depthAfter depth) t.kind) (t.kind.depthAfter depth) ts).tail := by
  rintro ⟨hdepth, hkind, rfl, hall⟩
  -- what is left of the tokens behind goes on up to one that is no line break
  rw [hdepth, hkind] at hall
  exact not_allNewlines_tail (fun hts => h ⟨hdepth, hkind, rfl, hts⟩) hall

/-- Whether the tokens of a group are one group: its first token opens one, and all others go on
with it. -/
def IsWhole (g : Group) : Prop :=
  let depth := g.first.kind.depthAfter 0
  Cursor.between.action depth g.first.kind = .start ∧
    cut (Cursor.between.next depth g.first.kind) depth g.rest = ⟨g.rest, []⟩

theorem IsWhole.split_tokens {g : Group} (h : g.IsWhole) : split g.tokens = [g] := by
  rw [split, tokens, cut_cons (not_stops_of_ne (by simp) 0 g.first g.rest), h.1, h.2]
  rfl

/-- What goes on, and each group after it, is cut in the same way without what follows. -/
theorem cut_again {cursor : Cursor} {depth : Nat} (hfits : cursor.Fits depth) (ts : List Token) :
    cut cursor depth (cut cursor depth ts).tail = ⟨(cut cursor depth ts).tail, []⟩ ∧
      ∀ g ∈ (cut cursor depth ts).later, g.IsWhole := by
  induction ts generalizing cursor depth with
  | nil => exact ⟨rfl, by simp [cut_nil]⟩
  | cons t ts ih =>
    by_cases hstops : Stops cursor depth t ts
    · -- the pass drops this token and all behind it
      rw [cut_of_stops hstops]
      exact ⟨rfl, by simp⟩
    · obtain ⟨htail, hlater⟩ := ih (cursor.next_fits (t.kind.depthAfter depth) t.kind)
      rw [cut_cons hstops]
      cases haction : cursor.action (t.kind.depthAfter depth) t.kind with
      | join =>
        refine ⟨?_, hlater⟩
        -- the same token is joined, and what is behind it is cut as before
        rw [Cut.extend_join, cut_cons (not_stops_tail hstops), haction, htail, Cut.extend_join]
      | start =>
        -- a group opens outside of brackets, where a pass of its own starts
        obtain ⟨houtside, hbetween, hnext⟩ := Cursor.of_action_eq_start haction
        obtain rfl : depth = 0 := hfits houtside
        refine ⟨rfl, ?_⟩
        rw [Cut.extend_start, List.forall_mem_cons]
        rw [← hnext] at htail hlater ⊢
        exact ⟨⟨hbetween, htail⟩, hlater⟩
      | skip => exact ⟨rfl, hlater⟩

/-- The groups that tokens are split into are whole. -/
theorem isWhole_of_mem_split {ts : List Token} {g : Group} (h : g ∈ split ts) : g.IsWhole :=
  (cut_again Cursor.between_fits ts).2 g h

/-- What goes on is the front of the tokens. -/
theorem tail_cut_isPrefix (cursor : Cursor) (depth : Nat) (ts : List Token) :
    (cut cursor depth ts).tail <+: ts := by
  induction ts generalizing cursor depth with
  | nil => exact List.prefix_rfl
  | cons t ts ih =>
    by_cases hstops : Stops cursor depth t ts
    · rw [cut_of_stops hstops]
      exact List.nil_prefix
    · rw [cut_cons hstops]
      cases cursor.action (t.kind.depthAfter depth) t.kind with
      -- what is joined is in front of all that is joined behind it
      | join => exact List.cons_prefix_cons.2 ⟨rfl, ih _ _⟩
      | start => exact List.nil_prefix
      | skip => exact List.nil_prefix

/-- Only line breaks belong to no group. -/
theorem filter_cut (cursor : Cursor) (depth : Nat) (ts : List Token) :
    ((cut cursor depth ts).tail ++ (cut cursor depth ts).later.flatMap tokens).filter
      (·.kind ≠ .newline) = ts.filter (·.kind ≠ .newline) := by
  induction ts generalizing cursor depth with
  | nil => rfl
  | cons t ts ih =>
    by_cases hstops : Stops cursor depth t ts
    · -- all that is dropped is line breaks
      have hall : ts.filter (·.kind ≠ .newline) = [] := by
        simpa [allNewlines] using hstops.2.2.2
      rw [cut_of_stops hstops, List.filter_cons_of_neg (by simpa using hstops.2.1), hall]
      rfl
    · have hih := ih (cursor.next (t.kind.depthAfter depth) t.kind) (t.kind.depthAfter depth)
      rw [cut_cons hstops]
      cases haction : cursor.action (t.kind.depthAfter depth) t.kind with
      | join =>
        -- the token stands in front on both sides
        rw [Cut.extend_join, List.cons_append, List.filter_cons, hih, List.filter_cons]
      | start =>
        rw [Cut.extend_start, List.nil_append, List.flatMap_cons, tokens, List.cons_append,
          List.filter_cons, hih, List.filter_cons]
      | skip =>
        -- what is skipped is a line break
        obtain ⟨-, hkind, -, hnext⟩ := Cursor.of_action_eq_skip haction
        rw [hnext, tail_cut_between] at hih
        rw [Cut.extend_skip, hnext, hih, List.filter_cons_of_neg (by simpa using hkind)]

/-- The pass looks at the kinds of tokens only. -/
theorem cut_map {f : Token → Token} (hf : ∀ t, (f t).kind = t.kind) (cursor : Cursor) (depth : Nat)
    (ts : List Token) :
    cut cursor depth (ts.map f) =
      ⟨(cut cursor depth ts).tail.map f,
        (cut cursor depth ts).later.map fun g => ⟨f g.first, g.rest.map f⟩⟩ := by
  induction ts generalizing cursor depth with
  | nil => rfl
  | cons t ts ih =>
    -- mapped tokens are line breaks where the tokens are
    have hall : allNewlines (ts.map f) = allNewlines ts := by
      simp [allNewlines, hf, Function.comp_def]
    by_cases hstops : Stops cursor depth t ts
    · have hmapped : Stops cursor depth (f t) (ts.map f) := by
        rw [Stops, hf, hall]
        exact hstops
      rw [List.map_cons, cut_of_stops hmapped, cut_of_stops hstops]
      rfl
    · have hmapped : ¬Stops cursor depth (f t) (ts.map f) := by
        rw [Stops, hf, hall]
        exact hstops
      rw [List.map_cons, cut_cons hmapped, cut_cons hstops, hf, ih]
      cases cursor.action (t.kind.depthAfter depth) t.kind <;> rfl

/-- Tokens of the same kinds as those of one group go on as one group too. -/
theorem cut_of_map_kind {cursor : Cursor} {depth : Nat} {ts us : List Token}
    (h : us.map (·.kind) = ts.map (·.kind)) (hcut : cut cursor depth ts = ⟨ts, []⟩) :
    cut cursor depth us = ⟨us, []⟩ := by
  -- both are cut as what is left of them when only the kinds are kept
  let ofKind (kind : Token.Kind) : Token := ⟨[], kind, [], 0⟩
  let erase (t : Token) : Token := ofKind t.kind
  have herase : us.map erase = ts.map erase := by
    have hkinds := congrArg (List.map ofKind) h
    rwa [List.map_map, List.map_map] at hkinds
  have hts := cut_map (f := erase) (fun _ => rfl) cursor depth ts
  have hus := cut_map (f := erase) (fun _ => rfl) cursor depth us
  rw [herase, hts, hcut] at hus
  -- the tail is as long as all of the tokens, and a front of them
  obtain ⟨htail, hlater⟩ := Cut.mk.inj hus
  have hlength : (cut cursor depth us).tail.length = us.length := by
    have htails := congrArg List.length htail
    have herased := congrArg List.length herase
    simp only [List.length_map] at htails herased
    omega
  have hwhole : (cut cursor depth us).tail = us :=
    (tail_cut_isPrefix cursor depth us).eq_of_length hlength
  have hnone : (cut cursor depth us).later = [] := List.map_eq_nil_iff.1 hlater.symm
  calc cut cursor depth us = ⟨(cut cursor depth us).tail, (cut cursor depth us).later⟩ := rfl
    _ = ⟨us, []⟩ := by rw [hwhole, hnone]

/-- Tokens of the same kinds as those of one group are one group. -/
theorem IsWhole.congr {g h : Group} (hg : g.IsWhole)
    (hkinds : h.tokens.map (·.kind) = g.tokens.map (·.kind)) : h.IsWhole := by
  obtain ⟨hfirst, hrest⟩ := List.cons.inj hkinds
  have hfirst : h.first.kind = g.first.kind := hfirst
  obtain ⟨hstart, hcut⟩ := hg
  -- the first token opens a group as before, and the others go on with it
  rw [IsWhole, hfirst]
  exact ⟨hstart, cut_of_map_kind hrest hcut⟩

/-! ## Ends of groups -/

/-- Where the pass stands behind some tokens, and how many brackets are open there. -/
def Cursor.run (cursor : Cursor) (depth : Nat) : List Token → Cursor × Nat
  | [] => (cursor, depth)
  | t :: ts =>
    let depth' := t.kind.depthAfter depth
    (cursor.next depth' t.kind).run depth' ts

/-- Tokens of the same kinds lead to the same place. -/
theorem Cursor.run_congr {ts us : List Token} (h : us.map (·.kind) = ts.map (·.kind))
    (cursor : Cursor) (depth : Nat) : cursor.run depth us = cursor.run depth ts := by
  induction ts generalizing us cursor depth with
  | nil =>
    obtain rfl : us = [] := List.map_eq_nil_iff.1 h
    rfl
  | cons t ts ih =>
    -- the same kind leads to the same place
    obtain ⟨u, us, rfl, hkind, hus⟩ := List.map_eq_cons_iff.1 h
    rw [Cursor.run, Cursor.run, hkind, ih hus]

/-- Line breaks after an operator lead nowhere. -/
theorem run_allNewlines {ts : List Token} (h : allNewlines ts) :
    Cursor.run (.inside true) 0 ts = (.inside true, 0) := by
  induction ts with
  | nil => rfl
  | cons t ts ih =>
    have hkind : t.kind = .newline ∧ allNewlines ts := by simpa [allNewlines] using h
    rw [Cursor.run, hkind.1]
    exact ih hkind.2

/-- Line breaks make no group. -/
theorem cut_allNewlines {ts : List Token} (h : allNewlines ts) (cursor : Cursor) :
    cut cursor 0 ts = ⟨[], []⟩ := by
  induction ts generalizing cursor with
  | nil => rfl
  | cons t ts ih =>
    obtain ⟨hkind, hts⟩ : t.kind = .newline ∧ allNewlines ts := by simpa [allNewlines] using h
    -- behind an operator all line breaks are dropped together, elsewhere one by one
    by_cases hcursor : cursor = .inside true
    · exact cut_of_stops ⟨by rw [hkind]; rfl, hkind, hcursor, hts⟩
    · rw [cut_cons (not_stops_of_ne hcursor 0 t ts), hkind]
      rcases cursor with _ | (_ | _) | _
      · exact congrArg (Cut.extend t · .skip) (ih hts _)
      · exact congrArg (Cut.extend t · .skip) (ih hts _)
      · exact absurd rfl hcursor
      · exact congrArg (Cut.extend t · .skip) (ih hts _)

/-- Line breaks behind a group that ends outside of brackets change nothing. -/
theorem cut_append_allNewlines {cursor : Cursor} {depth : Nat} {ts us : List Token}
    (hrun : (cursor.run depth ts).2 = 0) (hus : allNewlines us) :
    cut cursor depth (ts ++ us) = cut cursor depth ts := by
  induction ts generalizing cursor depth with
  | nil =>
    obtain rfl : depth = 0 := hrun
    exact cut_allNewlines hus cursor
  | cons t ts ih =>
    -- line breaks at the end do not change whether only line breaks are left
    have hall : allNewlines (ts ++ us) = allNewlines ts := by
      rw [allNewlines] at hus
      rw [allNewlines, List.all_append, hus, Bool.and_true, allNewlines]
    have hiff : Stops cursor depth t (ts ++ us) ↔ Stops cursor depth t ts := by
      rw [Stops, hall, Stops]
    by_cases hstops : Stops cursor depth t ts
    · rw [List.cons_append, cut_of_stops hstops, cut_of_stops (hiff.2 hstops)]
    · rw [List.cons_append, cut_cons hstops, cut_cons (mt hiff.1 hstops), ih hrun]

/-- Where a group ends at a line break, what follows is split by itself. -/
theorem cut_append_newline {cursor : Cursor} {depth : Nat} {ts : List Token}
    (hdepth : (cursor.run depth ts).2 = 0) (hends : (cursor.run depth ts).1 ≠ .inside true)
    {t : Token} (ht : t.kind = .newline) (us : List Token) :
    cut cursor depth (ts ++ t :: us) =
      ⟨(cut cursor depth ts).tail, (cut cursor depth ts).later ++ split us⟩ := by
  induction ts generalizing cursor depth with
  | nil =>
    obtain rfl : depth = 0 := hdepth
    -- the line break is the first token behind the group
    have hends : cursor ≠ .inside true := hends
    rw [List.nil_append, cut_cons (not_stops_of_ne hends 0 t us), ht]
    rcases cursor with _ | (_ | _) | _
    · rfl
    · rfl
    · exact absurd rfl hends
    · rfl
  | cons u ts ih =>
    -- line breaks up to the end of the group would leave the pass behind the operator
    have hstops : ¬Stops cursor depth u ts := by
      rintro ⟨hzero, hkind, rfl, hall⟩
      rw [Cursor.run, hzero, hkind] at hends
      exact hends (congrArg Prod.fst (run_allNewlines hall))
    have hstops' : ¬Stops cursor depth u (ts ++ t :: us) := by
      rintro ⟨hzero, hkind, hcursor, hall⟩
      refine hstops ⟨hzero, hkind, hcursor, ?_⟩
      simp only [allNewlines, List.all_append, Bool.and_eq_true] at hall ⊢
      exact hall.1
    rw [List.cons_append, cut_cons hstops', cut_cons hstops, ih hdepth hends]
    cases cursor.action (u.kind.depthAfter depth) u.kind <;> rfl

/-- Whether each group ends outside of brackets, and each but the last one in front of any line
break. -/
def Separated : List Group → Prop
  | [] => True
  | g :: gs =>
    (Cursor.between.run 0 g.tokens).2 = 0 ∧
      (gs ≠ [] → (Cursor.between.run 0 g.tokens).1 ≠ .inside true) ∧ Separated gs

/-- Groups of the same kinds of tokens are separated as well. -/
theorem Separated.map {f : Group → Group}
    (hf : ∀ g, (f g).tokens.map (·.kind) = g.tokens.map (·.kind)) {gs : List Group}
    (h : Separated gs) : Separated (gs.map f) := by
  induction gs with
  | nil => trivial
  | cons g gs ih =>
    obtain ⟨hdepth, hends, hgs⟩ := h
    -- only kinds are looked at
    rw [List.map_cons, Separated, Cursor.run_congr (hf g)]
    exact ⟨hdepth, fun hne => hends (mt (congrArg (List.map f)) hne), ih hgs⟩

/-- Where all brackets are closed in the end, what goes on and the groups after it are separated. -/
theorem separated_cut {cursor : Cursor} {depth : Nat} (hfits : cursor.Fits depth) {ts : List Token}
    (hdepth : (cursor.run depth ts).2 = 0) :
    let c := cut cursor depth ts
    (cursor.run depth c.tail).2 = 0 ∧
      (c.later ≠ [] → (cursor.run depth c.tail).1 ≠ .inside true) ∧ Separated c.later := by
  induction ts generalizing cursor depth with
  | nil => exact ⟨hdepth, fun h => absurd rfl h, trivial⟩
  | cons t ts ih =>
    by_cases hstops : Stops cursor depth t ts
    · rw [cut_of_stops hstops]
      obtain ⟨hzero, hkind, -, -⟩ := hstops
      rw [hkind] at hzero
      exact ⟨hzero, fun h => absurd rfl h, trivial⟩
    · -- behind the token the pass goes on as it did
      have hih := ih (cursor.next_fits (t.kind.depthAfter depth) t.kind) hdepth
      rw [cut_cons hstops]
      cases haction : cursor.action (t.kind.depthAfter depth) t.kind with
      | join => exact hih
      | start =>
        -- what goes on ends where the next group opens, so not behind an operator
        obtain ⟨houtside, -, hnext⟩ := Cursor.of_action_eq_start haction
        obtain rfl : depth = 0 := hfits houtside
        refine ⟨rfl, fun _ => houtside true, ?_⟩
        rw [← hnext] at hih ⊢
        exact hih
      | skip =>
        -- what goes on ends in front of a line break that does not go on
        obtain ⟨hzero, hkind, hcursor, -⟩ := Cursor.of_action_eq_skip haction
        rw [hkind] at hzero
        exact ⟨hzero, fun _ => hcursor, hih.2.2⟩

end Preload.Group
