import Mathlib.Data.List.ModifyLast
import Preload.Proofs.Program.Outline
import Preload.Proofs.Token.Grammar

/-!
# Groups as lines that end in carriage returns

Where each line ends in a carriage return and a line break, the carriage return is a blank in front
of the line break, unless the line ends in a line comment. Then it is the last character of the
comment.

Main statements:
* `Group.spelling_returnLines`: the text of such lines;
* `Group.readable_returnLines`: they are read as groups with their carriage returns;
* `Group.split_returnLines`: they are split into these groups.
-/

namespace Preload

/-! ## Carriage returns behind tokens -/

/-- Every lexeme but a line comment ends in front of a carriage return. -/
theorem Token.Kind.endsBefore_return {kind : Token.Kind} (h : kind ≠ .lineComment) :
    kind.endsBefore '\r' := by
  cases kind with
  | lineComment => exact absurd rfl h
  | _ => rfl

/-- A line comment is read up to a line break. -/
theorem Lexeme.first?_of_lineComment {text after : List Char}
    (h : Token.Kind.lineComment.Spells text) (hafter : ∀ c ∈ after.head?, c = '\n')
    (regexAllowed : Bool) :
    first? regexAllowed (text ++ after) = some ⟨.lineComment, text, after⟩ := by
  cases h with
  | @lineComment cs hfeed =>
    -- there is no line break in the comment, so all of it is in the run
    have hall : ∀ c ∈ cs, (c != '\n') = true := by
      intro c hc
      simpa using ne_of_mem_of_not_mem hc hfeed
    have hrun : Split.run (· != '\n') (cs ++ after) = ⟨cs, after⟩ :=
      Split.run_append_of_forall hall (by simpa using hafter)
    rw [List.cons_append, List.cons_append, first?_slash, slash?, hrun]
    rfl

/-- A line comment with a carriage return behind it is one as well. -/
theorem Token.Kind.Spells.append_return {text : List Char} (h : Token.Kind.lineComment.Spells text) :
    Token.Kind.lineComment.Spells (text ++ ['\r']) := by
  cases h with
  -- a carriage return is no line break
  | lineComment hfeed => exact .lineComment (List.not_mem_append hfeed (by simp))

namespace Token

/-- The token with a carriage return behind it, if it takes that in. -/
def returned (t : Token) : Token :=
  if t.kind = .lineComment then { t with text := t.text ++ ['\r'] } else t

@[simp] theorem kind_returned (t : Token) : t.returned.kind = t.kind := by
  unfold returned
  split <;> rfl

@[simp] theorem gap_returned (t : Token) : t.returned.gap = t.gap := by
  unfold returned
  split <;> rfl

theorem flush_returned (t : Token) : t.returned.flush = t.flush.returned := by
  unfold returned flush
  split <;> rfl

/-- A token says of an outline what it says without a carriage return. -/
theorem shape_returned (t : Token) : t.returned.shape = t.shape := by
  unfold returned
  split
  · next h => simp [shape, h]
  · rfl

/-- The line break behind a token of some kind. In front of it stands a carriage return, unless the
token took that in. -/
def returnFeed (kind : Kind) : Token :=
  { lineFeed with gap := if kind = .lineComment then [] else ['\r'] }

/-- Between them, a token and the line break behind it hold the carriage return. -/
theorem text_returned_append (t : Token) :
    t.returned.text ++ ((returnFeed t.kind).gap ++ (returnFeed t.kind).text) =
      t.text ++ ['\r', '\n'] := by
  unfold returned returnFeed
  -- the carriage return is in the text of the token, or in the gap of the line break
  by_cases h : t.kind = .lineComment
  · simp [h, lineFeed]
  · simp [h, lineFeed]

namespace Readable

theorem returnFeed_cons {regexAllowed : Bool} (kind : Kind) {ts : List Token}
    (h : Readable regexAllowed ts) : Readable regexAllowed (returnFeed kind :: ts) := by
  -- a carriage return is a blank, and a line break ends every line
  refine .cons ?_ (by simp [returnFeed, lineFeed, isBlank]) rfl h
  unfold returnFeed
  split
  · simp
  · simp [isBlank]

/-- A carriage return changes nothing in front of a token. -/
theorem head?_spelling_returned {regexAllowed : Bool} {t : Token} {ts : List Token}
    (h : Readable regexAllowed (t :: ts)) (us : List Token) :
    (spelling (t.returned :: us)).head? = (spelling (t :: ts)).head? := by
  obtain _ | ⟨_, _, lexeme, _⟩ := h
  -- a token has a first character, and the carriage return goes behind the last one
  obtain ⟨c, text, htext : t.text = c :: text⟩ :=
    List.exists_cons_of_ne_nil (Lexeme.text_ne_nil lexeme)
  unfold returned
  split <;> simp [htext, List.head?_append]

/-- A token at the end of a line is readable with a carriage return behind it. -/
theorem returned_cons {regexAllowed : Bool} {t : Token} {ts us : List Token}
    (h : Readable regexAllowed (t :: ts))
    (hus : Readable (t.kind.regexAfter regexAllowed t.text) us) :
    Readable regexAllowed (t.returned :: returnFeed t.kind :: us) := by
  by_cases hkind : t.kind = .lineComment
  · -- the comment goes on up to the line break
    have hspells : Kind.lineComment.Spells t.text := hkind ▸ h.spells t List.mem_cons_self
    have hreturned : t.returned = { t with text := t.text ++ ['\r'] } := if_pos hkind
    obtain _ | ⟨gap, head, lexeme, -⟩ := h
    have hne : t.text ≠ [] := Lexeme.text_ne_nil lexeme
    rw [hreturned, hkind]
    rw [hkind] at hus
    refine .cons gap (fun c hc => head c ?_) ?_ (hus.returnFeed_cons .lineComment)
    · -- the first character is that of the comment
      rwa [List.head?_append_of_ne_nil _ hne] at hc
    · exact Lexeme.first?_of_lineComment hspells.append_return
        (by simp [returnFeed, lineFeed]) regexAllowed
  · have hreturned : t.returned = t := if_neg hkind
    rw [hreturned]
    -- elsewhere the carriage return ends the token, and is a gap of the line break
    refine h.cons_of_endsBefore (hus.returnFeed_cons t.kind) fun c hc => ?_
    obtain rfl : '\r' = c := by simpa [returnFeed, hkind] using hc
    exact Kind.endsBefore_return hkind

end Readable

end Token

namespace Group

/-! ## Carriage returns behind groups -/

/-- The last token of the group. -/
def last (g : Group) : Token :=
  g.rest.getLast?.getD g.first

theorem exists_tokens_eq_concat (g : Group) : ∃ ts, g.tokens = ts ++ [g.last] :=
  List.getLast?_eq_some_iff.1 List.getLast?_cons

/-- Whether the group ends in a line comment. -/
def EndsInLineComment (g : Group) : Prop :=
  g.last.kind = .lineComment

instance (g : Group) : Decidable g.EndsInLineComment :=
  inferInstanceAs (Decidable (_ = _))

/-- The group with a carriage return behind it, if its last token takes that in. -/
def returned (g : Group) : Group :=
  ⟨if g.rest = [] then g.first.returned else g.first, g.rest.modifyLast Token.returned⟩

theorem tokens_returned (g : Group) : g.returned.tokens = g.tokens.modifyLast Token.returned := by
  obtain ⟨first, rest⟩ := g
  cases rest with
  -- with one token alone the first is the last
  | nil => rfl
  | cons t ts => exact (List.modifyLast_append_of_right_ne_nil _ [first] (t :: ts) (by simp)).symm

theorem tokens_returned_eq {g : Group} {ts : List Token} (h : g.tokens = ts ++ [g.last]) :
    g.returned.tokens = ts ++ [g.last.returned] := by
  rw [tokens_returned, h, List.modifyLast_concat]

theorem flush_returned (g : Group) : g.returned.flush = g.flush.returned := by
  unfold flush returned
  split <;> simp [Token.flush_returned]

@[simp] theorem kind_last_flush (g : Group) : g.flush.last.kind = g.last.kind := by
  obtain ⟨first, rest⟩ := g
  -- the same token is the last one, at its place or without it
  cases rest <;> rfl

@[simp] theorem kind_last_returned (g : Group) : g.returned.last.kind = g.last.kind := by
  obtain ⟨ts, htokens⟩ := g.exists_tokens_eq_concat
  obtain ⟨us, hreturned⟩ := g.returned.exists_tokens_eq_concat
  -- both are the last tokens of the group with its carriage return
  rw [tokens_returned_eq htokens] at hreturned
  obtain ⟨-, hlast⟩ := List.append_inj' hreturned rfl
  rw [← (List.cons.inj hlast).1, Token.kind_returned]

theorem map_kind_tokens_returned (g : Group) :
    g.returned.tokens.map (·.kind) = g.tokens.map (·.kind) := by
  obtain ⟨ts, htokens⟩ := g.exists_tokens_eq_concat
  rw [tokens_returned_eq htokens, htokens]
  simp

/-- A group says of an outline what it says without a carriage return. -/
theorem shape_returned (g : Group) : g.returned.shape = g.shape := by
  obtain ⟨ts, htokens⟩ := g.exists_tokens_eq_concat
  -- two groups of the same tokens are the same
  have hshapes : g.returned.shape.tokens = g.shape.tokens := by
    rw [tokens_shape, tokens_shape, tokens_returned_eq htokens, htokens, List.map_append,
      List.map_append, List.map_singleton, List.map_singleton, Token.shape_returned]
  obtain ⟨hfirst, hrest⟩ := List.cons.inj hshapes
  calc g.returned.shape = ⟨g.returned.shape.first, g.returned.shape.rest⟩ := rfl
    _ = ⟨g.shape.first, g.shape.rest⟩ := by rw [hfirst, hrest]

/-- The text of a group is that of its tokens, the last one at the end. -/
theorem text_eq {g : Group} {ts : List Token} (h : g.flush.tokens = ts ++ [g.flush.last]) :
    g.text = Token.spelling ts ++ (g.flush.last.gap ++ g.flush.last.text) := by
  rw [← spelling_tokens_flush, h]
  simp

/-- The carriage return belongs to the text of a group that ends in a line comment, and to no
other. -/
theorem text_returned (g : Group) :
    g.returned.text = if g.EndsInLineComment then g.text ++ ['\r'] else g.text := by
  -- all tokens but the last one are untouched
  obtain ⟨ts, htokens⟩ := g.flush.exists_tokens_eq_concat
  have hreturned : g.returned.text =
      Token.spelling ts ++ (g.flush.last.gap ++ g.flush.last.returned.text) := by
    rw [← spelling_tokens_flush, flush_returned, tokens_returned_eq htokens]
    simp
  rw [hreturned, text_eq htokens]
  by_cases hends : g.EndsInLineComment
  · -- the group without its place ends alike
    have hkind : g.flush.last.kind = .lineComment := (kind_last_flush g).trans hends
    rw [if_pos hends, Token.returned, if_pos hkind]
    simp
  · have hkind : g.flush.last.kind ≠ .lineComment := by rwa [kind_last_flush]
    rw [if_neg hends, Token.returned, if_neg hkind]

theorem source_returned (g : Group) :
    g.returned.source = if g.EndsInLineComment then g.source ++ "\r" else g.source := by
  rw [source, text_returned, apply_ite String.ofList, String.ofList_append]
  rfl

/-! ## Lines that end in carriage returns -/

/-- The tokens of the text in which each group stands on a line of its own that ends in a carriage
return and a line break. -/
def returnLines (gs : List Group) : List Token :=
  linesWith (fun g => Token.returnFeed g.last.kind) (gs.map returned)

theorem returnLines_cons (g : Group) (gs : List Group) :
    returnLines (g :: gs) =
      g.flush.returned.tokens ++ Token.returnFeed g.flush.last.kind :: returnLines gs := by
  rw [returnLines, List.map_cons, linesWith_cons, flush_returned, kind_last_returned, kind_last_flush]
  rfl

/-- The text of lines that end in carriage returns. -/
theorem spelling_returnLines (gs : List Group) :
    Token.spelling (returnLines gs) = gs.flatMap fun g => g.text ++ ['\r', '\n'] := by
  induction gs with
  | nil => rfl
  | cons g gs ih =>
    -- the last token of the group and the line break share the carriage return between them
    obtain ⟨ts, htokens⟩ := g.flush.exists_tokens_eq_concat
    have hreturn := congrArg (· ++ Token.spelling (returnLines gs))
      (Token.text_returned_append g.flush.last)
    simp only [List.append_assoc] at hreturn
    rw [returnLines_cons, tokens_returned_eq htokens, List.flatMap_cons, ← ih, text_eq htokens]
    simp only [List.append_assoc, List.singleton_append, Token.spelling_append,
      Token.spelling_cons, Token.gap_returned, hreturn]

/-- Where the lines of groups are readable, so are those that end in carriage returns. -/
theorem readable_returnLines {regexAllowed : Bool} {gs : List Group}
    (h : Token.Readable regexAllowed (lines gs)) :
    Token.Readable regexAllowed (returnLines gs) := by
  induction gs generalizing regexAllowed with
  | nil => exact .nil
  | cons g gs ih =>
    obtain ⟨ts, htokens⟩ := g.flush.exists_tokens_eq_concat
    rw [lines_cons, htokens, List.append_assoc, List.singleton_append] at h
    rw [returnLines_cons, tokens_returned_eq htokens, List.append_assoc, List.singleton_append]
    -- the last token takes the carriage return in or ends in front of it
    have hlast := h.right_of_append
    have hreturned := hlast.returned_cons (ih hlast.tail.tail)
    refine h.left_of_append.append_of_endsBefore ?_ hreturned
    rw [hlast.head?_spelling_returned]
    exact h.endsBefore_of_append

/-- The lines hold the kinds of tokens that they hold without carriage returns. -/
theorem map_kind_returnLines (gs : List Group) :
    (returnLines gs).map (·.kind) = (lines gs).map (·.kind) := by
  induction gs with
  | nil => rfl
  | cons g gs ih =>
    -- line by line; the carriage return changes the kind of no token
    rw [returnLines_cons, lines_cons, List.map_append, map_kind_tokens_returned, List.map_cons, ih,
      List.map_append, List.map_cons]
    rfl

/-- Separated whole groups are split off such lines with their carriage returns. -/
theorem split_returnLines {gs : List Group} (hwhole : ∀ g ∈ gs, g.IsWhole)
    (hseparated : Separated gs) : split (returnLines gs) = (gs.map returned).map flush := by
  -- the groups are whole and separated as before, since that shows in the kinds
  refine split_linesWith _ (fun _ => rfl) (fun g hg => ?_)
    (hseparated.map map_kind_tokens_returned)
  obtain ⟨h, hh, rfl⟩ := List.mem_map.1 hg
  exact (hwhole h hh).congr (map_kind_tokens_returned h)

/-- Each group that ends in a line comment makes the lines longer by its carriage return. -/
theorem length_flatMap_text_returned (gs : List Group) :
    ((gs.map returned).flatMap fun g => g.text ++ ['\r', '\n']).length =
      (gs.flatMap fun g => g.text ++ ['\r', '\n']).length +
        gs.countP fun g => g.EndsInLineComment := by
  induction gs with
  | nil => rfl
  | cons g gs ih =>
    rw [List.map_cons, List.flatMap_cons, List.flatMap_cons, List.length_append, ih,
      List.length_append, List.countP_cons, text_returned]
    -- a line is longer by one character if it ends in a line comment, and else as long as before
    by_cases hends : g.EndsInLineComment
    · simp only [hends, if_true, decide_true, List.length_append, List.length_singleton]
      omega
    · simp only [hends, if_false, decide_false, Bool.false_eq_true, Nat.add_zero,
        List.length_append]
      omega

end Group

end Preload
