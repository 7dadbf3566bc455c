import Mathlib.Data.List.Basic
import Preload.Proofs.Balance
import Preload.Proofs.Token.Slash

/-!
# The rule of splitting

What the groups of some tokens are, said without the pass that finds them: `SplitsInto` lays groups
over tokens, with a rule for what may stand in a group outside of its brackets and for what may
follow it.

The pass knows a group only up to where it stands. `Front` is what it knows there: each token that
it takes for the group keeps it, and where it takes none, the group may end.

Main statements:
* `Front.concat`: a token that the pass takes keeps what it knows;
* `Front.isStatement` and `Front.endsBefore_of_not_join`: what it knows where a group ends.
-/

namespace Preload.Group

/-! ## The rule -/

/-- Whether a token of some kind stands outside of all brackets behind `before` and in front of
`after`. -/
def StandsOutside (kind : Token.Kind) (ts before after : List Token) : Prop :=
  Balanced before ∧ ∃ t : Token, t.kind = kind ∧ ts = before ++ t :: after

/-- Whether a semicolon stands outside of all brackets. -/
def IsTerminated (ts : List Token) : Prop :=
  ∃ before after, StandsOutside .semicolon ts before after

/-- Whether semicolons and line breaks outside of brackets stand only where they may: only comments
are behind a semicolon, and an operator is in front of a line break. -/
structure IsRegular (ts : List Token) : Prop where
  comments : ∀ before after, StandsOutside .semicolon ts before after → ∀ t ∈ after, t.isComment
  operator : ∀ before after, StandsOutside .newline ts before after → Token.endInOperator before

/-- Whether tokens may be those of one statement. -/
structure IsStatement (ts : List Token) : Prop extends IsRegular ts where
  balanced : Balanced ts
  semicolon_unique : ∀ before after before' after', StandsOutside .semicolon ts before after →
    StandsOutside .semicolon ts before' after' → before = before'
  first_ne_newline : ∀ t ∈ ts.head?, t.kind ≠ .newline
  last_ne_newline : ∀ t ∈ ts.getLast?, t.kind ≠ .newline

/-- Whether a statement may end in front of some tokens. A semicolon ends it, and the comments right
behind that still belong to it. Without a semicolon it ends where nothing but line breaks is left,
or at a line break, unless an operator carries it on. -/
structure EndsBefore (ts behind : List Token) : Prop where
  of_isTerminated : IsTerminated ts → ∀ t ∈ behind.head?, ¬t.isComment
  of_not_isTerminated : ¬IsTerminated ts →
    (∀ t ∈ behind, t.kind = .newline) ∨
      ¬Token.endInOperator ts ∧ ∃ t us, behind = t :: us ∧ t.kind = .newline

/-- Whether tokens are those of some groups, one after the other, each a statement that ends where
it may, with nothing but line breaks in between. -/
inductive SplitsInto : List Token → List Group → Prop
  | nil {ts : List Token} (newlines : ∀ t ∈ ts, t.kind = .newline) : SplitsInto ts []
  | cons {skipped behind : List Token} {g : Group} {gs : List Group}
      (newlines : ∀ t ∈ skipped, t.kind = .newline) (isStatement : IsStatement g.tokens)
      (endsBefore : EndsBefore g.tokens behind) (rest : SplitsInto behind gs) :
      SplitsInto (skipped ++ (g.tokens ++ behind)) (g :: gs)

variable {kind : Token.Kind} {front before after : List Token} {t : Token}

theorem StandsOutside.append (h : StandsOutside kind front before after) (ts : List Token) :
    StandsOutside kind (front ++ ts) before (after ++ ts) := by
  obtain ⟨hbalanced, u, hkind, hfront⟩ := h
  refine ⟨hbalanced, u, hkind, ?_⟩
  -- more tokens go behind what was behind it
  rw [hfront, List.append_assoc, List.cons_append]

/-- What stands outside of brackets does so without the last token, or is the last token. -/
theorem StandsOutside.of_concat (h : StandsOutside kind (front ++ [t]) before after) :
    (∃ after', after = after' ++ [t] ∧ StandsOutside kind front before after') ∨
      before = front ∧ after = [] ∧ t.kind = kind := by
  obtain ⟨hbalanced, u, hkind, hfront⟩ := h
  -- the last token is the one that stands there, or one behind it
  obtain rfl | ⟨after, last, rfl⟩ := List.eq_nil_or_concat' after
  · obtain ⟨hbefore, hlast⟩ := List.append_inj' hfront rfl
    obtain rfl : t = u := List.singleton_inj.1 hlast
    exact .inr ⟨hbefore.symm, rfl, hkind⟩
  · obtain ⟨hbefore, hlast⟩ : front = before ++ u :: after ∧ [t] = [last] :=
      List.append_inj' (by rw [hfront]; simp) rfl
    obtain rfl : t = last := List.singleton_inj.1 hlast
    exact .inl ⟨after, rfl, hbalanced, u, hkind, hbefore⟩

theorem IsTerminated.append (h : IsTerminated front) (ts : List Token) :
    IsTerminated (front ++ ts) := by
  obtain ⟨before, after, h⟩ := h
  exact ⟨before, after ++ ts, h.append ts⟩

theorem not_isTerminated_nil : ¬IsTerminated [] := by
  rintro ⟨before, after, -, t, -, hnil⟩
  simp at hnil

/-- There is one semicolon at most, since one behind another would have to be a comment. -/
theorem IsRegular.semicolon_unique (h : IsRegular front) {before' after' : List Token}
    (hfirst : StandsOutside .semicolon front before after)
    (hsecond : StandsOutside .semicolon front before' after') : before = before' := by
  -- the later of two would be behind the earlier one, where only comments are
  have hbehind {before after before' after' middle : List Token}
      (hfirst : StandsOutside .semicolon front before after)
      (hsecond : StandsOutside .semicolon front before' after')
      (hbefore : before' = before ++ middle) : middle = [] := by
    have hcomments := h.comments before after hfirst
    obtain ⟨-, t, -, hfront⟩ := hfirst
    obtain ⟨-, u, hu, hfront'⟩ := hsecond
    cases middle with
    | nil => rfl
    | cons v middle =>
      rw [hfront', hbefore, List.append_assoc] at hfront
      obtain ⟨-, hafter⟩ := List.cons.inj (List.append_cancel_left hfront)
      -- a semicolon is no comment
      have hcomment : u.isComment := hcomments u (by rw [← hafter]; simp)
      rw [Token.isComment, hu] at hcomment
      cases hcomment
  obtain ⟨t, -, hfront⟩ := hfirst.2
  obtain ⟨u, -, hfront'⟩ := hsecond.2
  -- of two fronts of one list, one is a front of the other
  obtain ⟨middle, hmiddle, -⟩ | ⟨middle, hmiddle, -⟩ :=
    List.append_eq_append_iff.1 (hfront.symm.trans hfront')
  · rw [hmiddle, hbehind hfirst hsecond hmiddle, List.append_nil]
  · rw [hmiddle, hbehind hsecond hfirst hmiddle, List.append_nil]

/-! ## What the pass knows of a group -/

/-- What the pass says of the part of a group that it has read, `front`, if the brackets of `stack`
are open there. -/
def Cursor.Knows (front : List Token) (stack : List OpenBracket) : Cursor → Prop
  | .between => front = []
  | .inside carriesOn =>
    front ≠ [] ∧ Token.endInOperator front = carriesOn ∧ ¬IsTerminated front
  | .closed => IsTerminated front ∧ stack = []

/-- What is known behind the part of a group that the pass has read. -/
structure Front (front : List Token) (cursor : Cursor) (stack : List OpenBracket) : Prop where
  isRegular : IsRegular front
  leavesOpen : LeavesOpen stack front
  knows : cursor.Knows front stack

/-- Whether the pass takes a token of some kind for the group it stands in, or for a first one. -/
def Cursor.Takes (cursor : Cursor) (depth : Nat) (kind : Token.Kind) : Prop :=
  cursor.action depth kind = .join ∨ cursor = .between ∧ cursor.action depth kind = .start

theorem Cursor.eq_inside_of_takes {cursor : Cursor} (h : cursor.Takes 0 .newline) :
    cursor = .inside true := by
  rcases cursor with _ | (_ | _) | _
  · -- between groups a line break is skipped or starts one, but is never joined
    obtain hjoin | ⟨-, hstart⟩ := h
    · cases hjoin
    · cases hstart
  · obtain hjoin | ⟨hbetween, -⟩ := h
    · cases hjoin
    · cases hbetween
  · rfl
  · obtain hjoin | ⟨hbetween, -⟩ := h
    · cases hjoin
    · cases hbetween

theorem Cursor.next_closed_of_isComment {kind : Token.Kind} (h : kind.isComment) :
    Cursor.closed.next 0 kind = .closed := by
  cases kind with
  | lineComment => rfl
  | blockComment => rfl
  | _ => cases h

/-- A token that the pass takes advances it, but for a semicolon outside of brackets and what stands
behind one. -/
theorem Cursor.next_eq_advance {cursor : Cursor} {depth : Nat} {kind : Token.Kind}
    (htakes : cursor.Takes depth kind) (hclosed : cursor ≠ .closed)
    (hsemicolon : ¬(depth = 0 ∧ kind = .semicolon)) :
    cursor.next depth kind = cursor.advance kind := by
  unfold Cursor.next
  -- within brackets nothing but the last token of code counts
  by_cases hdepth : depth = 0
  · subst hdepth
    have hkind : kind ≠ .semicolon := fun hkind => hsemicolon ⟨rfl, hkind⟩
    rw [if_neg (not_not_intro rfl)]
    -- the rule for line breaks agrees where the pass takes one, and no other rule is left
    split
    · rfl
    · next hcarries => exact absurd (Cursor.eq_inside_of_takes htakes) hcarries
    · exact absurd rfl hkind
    · exact absurd rfl hclosed
    · exact absurd rfl hclosed
    · rfl
  · rw [if_pos hdepth]

namespace Front

variable {cursor : Cursor} {stack stack' : List OpenBracket}

theorem nil : Front [] .between [] := by
  -- nothing was read, so nothing stands anywhere
  refine ⟨⟨?_, ?_⟩, .balanced .nil, rfl⟩
  · rintro before after ⟨-, t, -, hnil⟩
    simp at hnil
  · rintro before after ⟨-, t, -, hnil⟩
    simp at hnil

/-- Behind a semicolon the pass takes comments only. -/
theorem isComment_of_takes (h : Front front cursor stack) (hterminated : IsTerminated front)
    {depth : Nat} {kind : Token.Kind} (htakes : cursor.Takes depth kind) :
    cursor = .closed ∧ depth = 0 ∧ kind.isComment := by
  have hknows := h.knows
  cases cursor with
  | between =>
    rw [show front = [] from hknows] at hterminated
    exact absurd hterminated not_isTerminated_nil
  | inside carriesOn => exact absurd hterminated hknows.2.2
  | closed =>
    obtain hjoin | ⟨hbetween, -⟩ := htakes
    · -- behind a semicolon only comments are joined
      simp only [Cursor.action] at hjoin
      split at hjoin
      · cases hjoin
      · split at hjoin
        · next hcomment => exact ⟨rfl, hcomment⟩
        · cases hjoin
    · cases hbetween

/-- The pass takes a line break outside of brackets only behind an operator. -/
theorem endInOperator_of_takes (h : Front front cursor stack) (htakes : cursor.Takes 0 .newline) :
    Token.endInOperator front := by
  have hknows := h.knows
  rw [Cursor.eq_inside_of_takes htakes] at hknows
  exact hknows.2.1

/-- Outside of a statement that has its semicolon, the pass goes on as the last token of code
says. -/
theorem advance_eq (h : Front front cursor stack) (hclosed : cursor ≠ .closed) (t : Token) :
    cursor.advance t.kind = .inside (Token.endInOperator (front ++ [t])) := by
  have hknows := h.knows
  unfold Cursor.advance
  -- what is no code leaves the last token of code as it was
  by_cases htrivia : t.isTrivia
  · rw [if_pos (show t.kind.isTrivia from htrivia), Token.endInOperator_concat_of_isTrivia htrivia]
    cases cursor with
    | between =>
      rw [show front = [] from hknows]
      rfl
    | inside carriesOn => rw [hknows.2.1]
    | closed => exact absurd rfl hclosed
  · rw [if_neg (show ¬t.kind.isTrivia from htrivia), Token.endInOperator_concat_of_code htrivia]

/-- A token that the pass takes keeps what it knows. -/
theorem concat (h : Front front cursor stack) (hopen : LeavesOpen stack' (front ++ [t]))
    (hdepth : stack'.length = t.kind.depthAfter stack.length)
    (htakes : cursor.Takes stack'.length t.kind) :
    Front (front ++ [t]) (cursor.next stack'.length t.kind) stack' := by
  have hterminated (hfront : IsTerminated front) :
      cursor = .closed ∧ stack'.length = 0 ∧ t.kind.isComment :=
    h.isComment_of_takes hfront htakes
  -- where the front is balanced, no bracket is open
  have houtside (hbalanced : Balanced front) : stack.length = 0 := by
    rw [h.leavesOpen.eq_nil_of_balanced hbalanced, List.length_nil]
  refine ⟨⟨?_, ?_⟩, hopen, ?_⟩
  · -- behind a semicolon of the front, the token is a comment
    intro before after hstands
    obtain ⟨after', rfl, hfront⟩ | ⟨-, rfl, -⟩ := hstands.of_concat
    · have hcomment : t.isComment := (hterminated ⟨before, after', hfront⟩).2.2
      exact List.forall_mem_append.2
        ⟨h.isRegular.comments before after' hfront, List.forall_mem_singleton.2 hcomment⟩
    · simp
  · -- a line break of the front has its operator; a new one has it since the pass takes it
    intro before after hstands
    obtain ⟨after', -, hfront⟩ | ⟨rfl, -, hkind⟩ := hstands.of_concat
    · exact h.isRegular.operator before after' hfront
    · rw [hkind, houtside hstands.1] at hdepth
      -- outside of brackets
      rw [hkind, hdepth] at htakes
      exact h.endInOperator_of_takes htakes
  · by_cases hsemicolon : stack'.length = 0 ∧ t.kind = .semicolon
    · -- the semicolon stands outside of brackets, since it closes none
      obtain ⟨hzero, hkind⟩ := hsemicolon
      rw [hzero, hkind] at hdepth ⊢
      have hbalanced := h.leavesOpen.balanced_of_length hdepth.symm
      exact ⟨⟨front, [], hbalanced, t, hkind, rfl⟩, List.length_eq_zero_iff.1 hzero⟩
    · -- behind its semicolon the group stays closed
      by_cases hclosed : cursor = .closed
      · have hknows := h.knows
        rw [hclosed] at hknows
        obtain ⟨-, hzero, hcomment⟩ := hterminated hknows.1
        have hnext : cursor.next stack'.length t.kind = .closed := by
          rw [hclosed, hzero]
          exact Cursor.next_closed_of_isComment hcomment
        rw [hnext]
        exact ⟨hknows.1.append [t], List.length_eq_zero_iff.1 hzero⟩
      · rw [Cursor.next_eq_advance htakes hclosed hsemicolon, h.advance_eq hclosed]
        refine ⟨by simp, rfl, ?_⟩
        -- neither the front nor the token has a semicolon outside of brackets
        intro hsemicolons
        obtain ⟨before, after, hstands⟩ := hsemicolons
        obtain ⟨after', -, hfront⟩ | ⟨rfl, -, hkind⟩ := hstands.of_concat
        · exact hclosed (hterminated ⟨before, after', hfront⟩).1
        · rw [hkind, houtside hstands.1] at hdepth
          exact hsemicolon ⟨hdepth, hkind⟩

/-- A group that the pass leaves outside of all brackets, and not behind a line break, is a
statement. -/
theorem isStatement (h : Front front cursor []) (hlast : ∀ t ∈ front.getLast?, t.kind ≠ .newline) :
    IsStatement front := by
  refine ⟨h.isRegular, h.leavesOpen.balanced_of_length rfl, ?_, ?_, hlast⟩
  · -- each of its semicolons is the same one
    intro before after before' after' hfirst hsecond
    exact h.isRegular.semicolon_unique hfirst hsecond
  · -- in front of the first token stands no operator
    intro t ht hkind
    obtain ⟨ts, hfront⟩ := List.head?_eq_some_iff.1 ht
    have hoperator := h.isRegular.operator [] ts ⟨.nil, t, hkind, hfront⟩
    cases hoperator

theorem eq_nil_of_outside (h : Front front cursor stack)
    (houtside : ∀ carriesOn, cursor ≠ .inside carriesOn) : stack = [] := by
  -- between groups nothing was read, and behind a semicolon nothing is open
  have hknows := h.knows
  cases cursor with
  | between =>
    obtain rfl : front = [] := hknows
    exact h.leavesOpen.eq_nil_of_balanced .nil
  | inside carriesOn => exact absurd rfl (houtside carriesOn)
  | closed => exact hknows.2

/-- Where the next token does not go on with the group, the group may end in front of it. -/
theorem endsBefore_of_not_join (h : Front front cursor stack) (hne : front ≠ []) {t : Token}
    (haction : cursor.action (t.kind.depthAfter stack.length) t.kind ≠ .join) (ts : List Token) :
    stack = [] ∧ cursor ≠ .inside true ∧ EndsBefore front (t :: ts) := by
  have hknows := h.knows
  cases cursor with
  | between => exact absurd hknows hne
  | inside carriesOn =>
    obtain ⟨-, hoperator, hopen⟩ := hknows
    obtain ⟨hzero, hkind, rfl⟩ : t.kind.depthAfter stack.length = 0 ∧ t.kind = .newline ∧
        -- all but a line break outside of brackets, without an operator in front, would be joined
        carriesOn = false := by
      by_contra hnot
      rw [Cursor.action, if_neg hnot] at haction
      exact haction rfl
    rw [hkind] at hzero
    refine ⟨List.length_eq_zero_iff.1 hzero, by simp, fun hterminated => absurd hterminated hopen,
      fun _ => .inr ⟨by simp [hoperator], t, ts, rfl, hkind⟩⟩
  | closed =>
    obtain ⟨hterminated, rfl⟩ := hknows
    refine ⟨rfl, by simp, fun _ => ?_, fun hopen => absurd hterminated hopen⟩
    -- a comment would go on with the group
    rintro _ ⟨⟩ hcomment
    apply haction
    rw [Token.isComment] at hcomment
    cases hkind : t.kind with
    | lineComment => rfl
    | blockComment => rfl
    | _ =>
      rw [hkind] at hcomment
      cases hcomment

end Front

end Preload.Group
