import Preload.Proofs.Nesting
import Preload.Proofs.Token.Relexing

/-!
# Groups as lines

A printed program has each group on a line of its own. `Group.lines` are the tokens of that text:
those of the groups, without the blanks in front of each, and a line break behind each.

Main statements:
* `spelling_lines`: the text of the lines;
* `readable_lines`: where tokens are readable, so are the lines of their groups;
* `split_linesWith`: the lines are split into the same groups, whatever blanks stand in front of the
  line breaks;
* `nested_lines`: their brackets are nested as before.
-/

namespace Preload

/-- A line break from no source. -/
def Token.lineFeed : Token :=
  ⟨[], .newline, ['\n'], 0⟩

/-- The token without the blanks in front of it. -/
def Token.flush (t : Token) : Token :=
  { t with gap := [] }

namespace Token.Readable

/-- A line break is readable in front of any readable tokens. -/
theorem lineFeed_cons {regexAllowed : Bool} {ts : List Token} (h : Readable regexAllowed ts) :
    Readable regexAllowed (lineFeed :: ts) :=
  .cons (by simp [lineFeed]) (by simp [lineFeed, isBlank]) rfl h

/-- Blanks in front of a token are not needed to read it. -/
theorem flush_cons {regexAllowed : Bool} {t : Token} {ts : List Token}
    (h : Readable regexAllowed (t :: ts)) : Readable regexAllowed (t.flush :: ts) := by
  obtain _ | ⟨_, head, lexeme, rest⟩ := h
  exact .cons (by simp [flush]) head lexeme rest

end Token.Readable

namespace Group

/-- The group without the blanks in front of it. -/
def flush (g : Group) : Group :=
  ⟨g.first.flush, g.rest⟩

/-- The tokens of groups that stand each on a line of its own. -/
def lines (gs : List Group) : List Token :=
  gs.flatMap fun g => g.flush.tokens ++ [.lineFeed]

/-- The tokens of groups that stand each on a line of its own, with the line breaks that `feed`
gives. -/
def linesWith (feed : Group → Token) (gs : List Group) : List Token :=
  gs.flatMap fun g => g.flush.tokens ++ [feed g]

@[simp] theorem linesWith_cons (feed : Group → Token) (g : Group) (gs : List Group) :
    linesWith feed (g :: gs) = g.flush.tokens ++ feed g :: linesWith feed gs := by
  simp [linesWith]

@[simp] theorem lines_nil : lines [] = [] := rfl

@[simp] theorem lines_cons (g : Group) (gs : List Group) :
    lines (g :: gs) = g.flush.tokens ++ .lineFeed :: lines gs := by
  simp [lines]

@[simp] theorem lines_append (gs hs : List Group) : lines (gs ++ hs) = lines gs ++ lines hs := by
  simp [lines]

theorem spelling_tokens_flush (g : Group) : Token.spelling g.flush.tokens = g.text := by
  simp [flush, tokens, Token.flush, text, Token.spelling]

/-- The text of the lines is that of the groups, each with a line break behind it. -/
theorem spelling_lines_cons (g : Group) (gs : List Group) :
    Token.spelling (lines (g :: gs)) = g.text ++ '\n' :: Token.spelling (lines gs) := by
  rw [lines_cons, Token.spelling_append, spelling_tokens_flush, Token.spelling_cons]
  rfl

theorem spelling_lines (gs : List Group) :
    Token.spelling (lines gs) = gs.flatMap fun g => g.text ++ ['\n'] := by
  induction gs with
  | nil => rfl
  | cons g gs ih =>
    -- each group is followed by its own line break, in the text as among the tokens
    rw [spelling_lines_cons, ih, List.flatMap_cons, List.append_assoc, List.singleton_append]

/-! ## Reading the lines -/

/-- Where tokens are readable, so is what a pass makes of them, with a line break behind what goes
on and behind each group. -/
theorem readable_lines_cut {regexAllowed : Bool} {ts : List Token}
    (h : Token.Readable regexAllowed ts) (cursor : Cursor) (depth : Nat) :
    Token.Readable regexAllowed
      ((cut cursor depth ts).tail ++ .lineFeed :: lines (cut cursor depth ts).later) := by
  -- the pass makes the last of its groups first, so this is about any cursor and any depth
  induction ts generalizing regexAllowed cursor depth with
  | nil => exact .lineFeed_cons .nil
  | cons t ts ih =>
    by_cases hstops : Stops cursor depth t ts
    · rw [cut_of_stops hstops]
      exact .lineFeed_cons .nil
    · have hih := ih h.tail (cursor.next (t.kind.depthAfter depth) t.kind) (t.kind.depthAfter depth)
      rw [cut_cons hstops]
      generalize hc : cut (cursor.next (t.kind.depthAfter depth) t.kind) (t.kind.depthAfter depth) ts
        = c at hih ⊢
      -- behind the token stands what stood there before, or a line break
      have hcons : Token.Readable regexAllowed (t :: (c.tail ++ .lineFeed :: lines c.later)) := by
        refine .cons_of_endsBefore h hih fun d hd => ?_
        cases htail : c.tail with
        | nil =>
          rw [htail] at hd
          cases hd
          exact t.kind.endsBefore_newline
        | cons u us =>
          obtain ⟨vs, hvs⟩ := hc ▸ tail_cut_isPrefix _ _ ts
          rw [htail, List.cons_append] at hvs
          subst hvs
          rw [htail, List.cons_append, h.tail.head?_spelling] at hd
          exact h.endsBefore d hd
      cases haction : cursor.action (t.kind.depthAfter depth) t.kind with
      | join => exact hcons
      | start =>
        -- a new group has a line break in front, and blanks are no longer needed there
        rw [Cut.extend_start, lines_cons]
        exact .lineFeed_cons hcons.flush_cons
      | skip =>
        -- the line break is dropped, and one is put there anyway
        obtain ⟨-, hkind, -, hnext⟩ := Cursor.of_action_eq_skip haction
        have htail : c.tail = [] := by rw [← hc, hnext, tail_cut_between]
        rw [htail, hkind] at hih
        exact hih

/-- Where tokens are readable, so are the lines of their groups. -/
theorem readable_lines {regexAllowed : Bool} {ts : List Token}
    (h : Token.Readable regexAllowed ts) : Token.Readable regexAllowed (lines (split ts)) := by
  have hcut := readable_lines_cut h .between 0
  rw [tail_cut_between] at hcut
  -- in front of the first group stands a line break, which changes nothing for what follows
  exact hcut.tail

/-! ## Splitting the lines -/

/-- Separated whole groups are split off their lines again, whatever blanks these end in. -/
theorem split_linesWith (feed : Group → Token) (hfeed : ∀ g, (feed g).kind = .newline)
    {gs : List Group} (hwhole : ∀ g ∈ gs, g.IsWhole) (hseparated : Separated gs) :
    split (linesWith feed gs) = gs.map flush := by
  induction gs with
  | nil => rfl
  | cons g gs ih =>
    rw [List.forall_mem_cons] at hwhole
    obtain ⟨hdepth, hends, hgs⟩ := hseparated
    have hflush : split g.flush.tokens = [g.flush] := IsWhole.split_tokens hwhole.1
    have hdepth : (Cursor.between.run 0 g.flush.tokens).2 = 0 := hdepth
    rw [linesWith_cons, split]
    by_cases hempty : gs = []
    · -- the line break behind the last group is dropped
      subst hempty
      have hlast : allNewlines (feed g :: linesWith feed []) := by
        simp [allNewlines, linesWith, hfeed]
      rw [cut_append_allNewlines hdepth hlast]
      exact hflush
    · -- every other line break ends its group, and the rest is split by itself
      have hends : (Cursor.between.run 0 g.flush.tokens).1 ≠ .inside true := hends hempty
      rw [cut_append_newline hdepth hends (hfeed g), ih hwhole.2 hgs, List.map_cons]
      exact congrArg (· ++ gs.map flush) hflush

/-- Separated whole groups are split off their lines again. -/
theorem split_lines {gs : List Group} (hwhole : ∀ g ∈ gs, g.IsWhole) (hseparated : Separated gs) :
    split (lines gs) = gs.map flush :=
  split_linesWith (fun _ => .lineFeed) (fun _ => rfl) hwhole hseparated

/-- Apart from line breaks, the lines hold the kinds of tokens that the groups hold. -/
theorem filter_kinds_lines (gs : List Group) :
    ((lines gs).map (·.kind)).filter (· ≠ .newline) =
      ((gs.flatMap tokens).map (·.kind)).filter (· ≠ .newline) := by
  induction gs with
  | nil => rfl
  | cons g gs ih =>
    -- losing its blanks, a token keeps its kind
    have hflush : g.flush.tokens.map (·.kind) = g.tokens.map (·.kind) := rfl
    rw [lines_cons, List.map_append, List.filter_append, hflush, List.map_cons,
      List.filter_cons_of_neg (by simp [Token.lineFeed]), ih, List.flatMap_cons, List.map_append,
      List.filter_append]

/-- The brackets of the lines are nested as those of the tokens that were split. -/
theorem nested_lines (stack : List Bracket) (ts : List Token) :
    nested stack ((lines (split ts)).map (·.kind)) = nested stack (ts.map (·.kind)) := by
  -- only line breaks between the groups are lost by the split
  have hfilter : ((split ts).flatMap tokens).filter (·.kind ≠ .newline) =
      ts.filter (·.kind ≠ .newline) := by
    have hcut := filter_cut .between 0 ts
    rwa [tail_cut_between, List.nil_append] at hcut
  have hkinds : (((split ts).flatMap tokens).map (·.kind)).filter (· ≠ .newline) =
      (ts.map (·.kind)).filter (· ≠ .newline) := by
    rw [List.filter_map, List.filter_map]
    exact congrArg (List.map (·.kind)) hfilter
  rw [← nested_filter, filter_kinds_lines, hkinds, nested_filter]

end Group

end Preload
