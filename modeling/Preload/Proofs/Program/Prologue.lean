import Preload.Proofs.Program.Reading
import Preload.Proofs.Token.Slash

/-!
# Groups behind the prologue

The groups of a program are cut behind the last directive (`Group.cutPrologue`). A group of code put
in between becomes the first statement of the body, and nothing else changes.

Main statements:
* `Program.ofParts_insert`: what the groups make up with one put in between;
* `Group.Legible.insert`: the groups stay legible with one put in between.
-/

namespace Preload

/-- Whether tokens of this kind stand in comments and directives. -/
def Token.Kind.inPrologue (kind : Token.Kind) : Bool :=
  kind.isComment || kind == .string || kind == .semicolon

/-- Whether the last token of code in a text is a semicolon. -/
def endsInSemicolon (cs : List Char) : Bool :=
  (Token.lastCode? (lex 0 cs).tokens).any (·.kind = .semicolon)

theorem Token.Kind.isBracket_of_inPrologue {kind : Token.Kind} (h : kind.inPrologue) :
    kind.isBracket = false := by
  cases kind <;> first | rfl | cases h

theorem Token.Kind.carriesOn_of_inPrologue {kind : Token.Kind} (h : kind.inPrologue) :
    kind.carriesOn = false := by
  cases kind <;> first | rfl | cases h

theorem Token.Kind.carriesOn_of_isTrivia {kind : Token.Kind} (h : kind.isTrivia) :
    kind.carriesOn = false := by
  cases kind <;> first | rfl | cases h

namespace Group

/-- Cuts groups behind the last directive, where the comments in `pending` stand in front of
them. -/
def cutPrologue (pending : List Group) : List Group → List Group × List Group
  | [] => ([], pending)
  | g :: gs =>
    if g.code.isEmpty then cutPrologue (pending ++ [g]) gs
    else if g.literal?.isSome then
      let cut := cutPrologue [] gs
      (pending ++ g :: cut.1, cut.2)
    else ([], pending ++ g :: gs)

theorem cutPrologue_append (pending gs : List Group) :
    (cutPrologue pending gs).1 ++ (cutPrologue pending gs).2 = pending ++ gs := by
  fun_induction cutPrologue pending gs with
  -- without more groups the comments that wait are behind the last directive
  | case1 => simp
  | case2 pending g gs _ ih => simpa using ih
  | case3 pending g gs _ _ cut ih =>
    rw [List.append_assoc, List.cons_append, ih]
    rfl
  | case4 => rfl

/-! ## What stands in a prologue -/

/-- Whether a group may belong to a prologue. -/
def InPrologue (g : Group) : Prop :=
  ∀ t ∈ g.tokens, t.kind.inPrologue

theorem inPrologue_of_isEmpty_code {g : Group} (h : g.code.isEmpty) : g.InPrologue := by
  -- no code means that all tokens are comments
  intro t ht
  have hcomment : t.isComment := by
    rw [code, List.isEmpty_iff, List.filter_eq_nil_iff] at h
    simpa using h t ht
  rw [Token.Kind.inPrologue, show t.kind.isComment = true from hcomment]
  rfl

/-- A string by itself is made of comments, the string and semicolons. -/
theorem inPrologue_of_literal? {g : Group} (h : g.literal?.isSome) : g.InPrologue := by
  have hwords : ∃ literal, g.words = [(.string, literal)] := by
    unfold literal? at h
    split at h
    · next literal hliteral => exact ⟨literal, hliteral⟩
    · cases h
  obtain ⟨literal, hwords⟩ := hwords
  -- a string alone leaves nothing but strings in the core
  have hcore : ∀ t ∈ g.core, t.kind = .string := by
    intro t ht
    have hword : (t.kind, t.text) ∈ g.words := List.mem_map_of_mem ht
    rw [hwords, List.mem_singleton] at hword
    exact congrArg Prod.fst hword
  intro t ht
  by_cases hcomment : t.isComment
  · rw [Token.Kind.inPrologue, show t.kind.isComment = true from hcomment]
    rfl
  · have hcode : t ∈ g.code := List.mem_filter.2 ⟨ht, by simp [hcomment]⟩
    have hkind : t.kind = .string ∨ t.kind = .semicolon := by
      unfold core at hcore
      split at hcore
      · next hlast =>
        -- the core is all of the code but its last token, a semicolon
        obtain ⟨u, hu, hsemicolon⟩ := Option.map_eq_some_iff.1 hlast
        obtain ⟨us, hus⟩ := List.getLast?_eq_some_iff.1 hu
        rw [hus, List.dropLast_concat] at hcore
        rw [hus, List.mem_append, List.mem_singleton] at hcode
        obtain hmem | rfl := hcode
        · exact .inl (hcore t hmem)
        · exact .inr hsemicolon
      · exact .inl (hcore t hcode)
    obtain hkind | hkind := hkind
    · rw [hkind]; rfl
    · rw [hkind]; rfl

theorem inPrologue_of_mem_cutPrologue {pending : List Group}
    (hpending : ∀ g ∈ pending, g.InPrologue) (gs : List Group) :
    ∀ g ∈ (cutPrologue pending gs).1, g.InPrologue := by
  fun_induction cutPrologue pending gs with
  | case1 => simp
  | case2 pending g gs hcode ih =>
    -- a comment joins those that wait
    have hg : g.InPrologue := inPrologue_of_isEmpty_code hcode
    exact ih (List.forall_mem_append.2 ⟨hpending, List.forall_mem_singleton.2 hg⟩)
  | case3 pending g gs _ hliteral cut ih =>
    -- a string closes the part in front of it, with the comments that waited
    have hg : g.InPrologue := inPrologue_of_literal? hliteral
    exact List.forall_mem_append.2 ⟨hpending, List.forall_mem_cons.2 ⟨hg, ih (by simp)⟩⟩
  | case4 => simp

theorem InPrologue.not_endInOperator {g : Group} (h : g.InPrologue) :
    ¬Token.endInOperator g.tokens := by
  intro hoperator
  -- an operator is neither a comment nor a string nor a semicolon
  obtain ⟨t, ht, hcarries⟩ := (Option.any_eq_true _ _).1 hoperator
  rw [Token.Kind.carriesOn_of_inPrologue (h t (Token.mem_of_lastCode? ht))] at hcarries
  cases hcarries

end Group

/-! ## What the groups make up -/

namespace Program

/-- Comments wait for the directive behind them. -/
theorem ofGroups_comments {comments : List Group} (h : ∀ g ∈ comments, g.code.isEmpty)
    (pending gs : List Group) :
    ofGroups pending (comments ++ gs) = ofGroups (pending ++ comments) gs := by
  induction comments generalizing pending with
  | nil => rw [List.nil_append, List.append_nil]
  | cons g comments ih =>
    rw [List.forall_mem_cons] at h
    rw [List.cons_append, ofGroups, if_pos h.1, ih h.2, List.append_assoc, List.singleton_append]

/-- A group of code put in behind the last directive is the first statement of the body. -/
theorem ofGroups_insert {g : Group} (hcode : ¬g.code.isEmpty) (hliteral : g.literal? = none)
    {pending : List Group} (hpending : ∀ h ∈ pending, h.code.isEmpty) (gs : List Group) :
    ofGroups [] ((Group.cutPrologue pending gs).1 ++ g :: (Group.cutPrologue pending gs).2) =
      (ofGroups pending gs).prepend g.toStatement := by
  -- in front of a body the group is a statement, and so is all behind it
  have hbody (hs : List Group) :
      ofGroups [] (g :: hs) = ofBody (g.toStatement :: hs.map Group.toStatement) := by
    rw [ofGroups, if_neg hcode, hliteral]
    rfl
  fun_induction Group.cutPrologue pending gs with
  | case1 pending => exact hbody pending
  | case2 pending h gs hempty ih =>
    -- comments wait on both sides
    rw [ih (List.forall_mem_append.2 ⟨hpending, List.forall_mem_singleton.2 hempty⟩), ofGroups,
      if_pos hempty]
  | case3 pending h gs hempty hsome cut ih =>
    -- a directive takes the comments that wait, and the prologue goes on behind it
    obtain ⟨literal, hliteral'⟩ := Option.isSome_iff_exists.1 hsome
    rw [List.append_assoc, ofGroups_comments hpending, List.nil_append, List.cons_append, ofGroups,
      if_neg hempty, hliteral', ih (by simp), ofGroups, if_neg hempty, hliteral']
    rfl
  | case4 pending h gs hempty hnone =>
    -- the prologue ends in front of this group, and the new one goes there
    rw [List.nil_append, hbody, ofGroups, if_neg hempty, Option.not_isSome_iff_eq_none.1 hnone]
    rfl

theorem ofParts_insert {g : Group} (hcode : ¬g.code.isEmpty) (hliteral : g.literal? = none)
    (shebang : Option String) (gs : List Group) :
    ofParts shebang ((Group.cutPrologue [] gs).1 ++ g :: (Group.cutPrologue [] gs).2) =
      (ofParts shebang gs).prepend g.toStatement := by
  rw [ofParts, ofGroups_insert hcode hliteral (by simp)]
  rfl

/-- The body is made of the groups behind the last directive. -/
theorem body_ofGroups (pending gs : List Group) :
    (ofGroups pending gs).body = (Group.cutPrologue pending gs).2.map Group.toStatement := by
  fun_induction Group.cutPrologue pending gs with
  -- without more groups there is no body but the comments
  | case1 => rfl
  | case2 pending g gs hcode ih => rw [ofGroups, if_pos hcode, ih]
  | case3 pending g gs hcode hliteral cut ih =>
    obtain ⟨literal, hliteral'⟩ := Option.isSome_iff_exists.1 hliteral
    rw [ofGroups, if_neg hcode, hliteral']
    exact ih
  | case4 pending g gs hcode hnone =>
    rw [ofGroups, if_neg hcode, Option.not_isSome_iff_eq_none.1 hnone]
    rfl

/-- The last directive is the last group of the prologue. -/
theorem text_getLast?_directives (pending gs : List Group) :
    (ofGroups pending gs).directives.getLast?.map Directive.text =
      (Group.cutPrologue pending gs).1.getLast?.map Group.source := by
  -- the last group of the prologue is the last one that became a directive
  fun_induction Group.cutPrologue pending gs with
  | case1 => rfl
  | case2 pending g gs hcode ih => rw [ofGroups, if_pos hcode, ih]
  | case3 pending g gs hcode hliteral cut ih =>
    obtain ⟨literal, hliteral'⟩ := Option.isSome_iff_exists.1 hliteral
    rw [ofGroups, if_neg hcode, hliteral', List.getLast?_append, List.getLast?_cons,
      List.getLast?_cons, Option.some_or, Option.map_some, Option.map_some,
      ← Option.getD_map Directive.text, ih, ← Option.getD_map Group.source]
    rfl
  | case4 pending g gs hcode hnone =>
    rw [ofGroups, if_neg hcode, Option.not_isSome_iff_eq_none.1 hnone]
    rfl

end Program

/-! ## Legible groups with one put in between -/

theorem nested_append_of_no_bracket {front : List Token.Kind}
    (h : ∀ kind ∈ front, kind.isBracket = false) (stack : List Bracket)
    (kinds : List Token.Kind) : nested stack (front ++ kinds) = nested stack kinds := by
  induction front with
  | nil => rfl
  | cons kind front ih =>
    -- brackets are all that changes the stack
    rw [List.forall_mem_cons] at h
    rw [List.cons_append, nested_cons_of_no_bracket h.1, ih h.2]

namespace Group

/-- Whether a group may be put on a line of its own between any others. -/
structure StandsAlone (g : Group) : Prop where
  readable : ∀ before, Token.Readable before (lines [g])
  /-- What follows is read as at the start of a text. -/
  regexAfter : ∀ before, Token.regexAfter before (lines [g]) = true
  nested : ∀ kinds, nested [] ((lines [g]).map (·.kind) ++ kinds) = nested [] kinds
  whole : g.IsWhole
  ends : Cursor.between.run 0 g.tokens = (.closed, 0)

/-- The pass stands behind an operator only where it just met one, or comments and line breaks
behind one. -/
theorem Cursor.advance_ne {cursor : Cursor} {kind : Token.Kind} (hkind : kind.carriesOn = false)
    (hcursor : kind.isTrivia → cursor ≠ .inside true) : cursor.advance kind ≠ .inside true := by
  unfold Cursor.advance
  split
  · -- comments and line breaks leave the pass as it stands
    next htrivia =>
    split
    · exact hcursor htrivia
    · simp
  · rw [hkind]
    simp

theorem Cursor.next_ne {cursor : Cursor} {kind : Token.Kind} (hkind : kind.carriesOn = false)
    (hcursor : kind.isTrivia → cursor ≠ .inside true) (depth : Nat) :
    cursor.next depth kind ≠ .inside true := by
  unfold Cursor.next
  split
  · exact Cursor.advance_ne hkind hcursor
  · -- outside of brackets line breaks and semicolons have rules of their own
    split
    · exact hcursor rfl
    · simp
    · simp
    · simp
    · simp
    · exact Cursor.advance_ne hkind hcursor

theorem Cursor.run_concat (cursor : Cursor) (depth : Nat) (ts : List Token) (t : Token) :
    cursor.run depth (ts ++ [t]) =
      let depth' := t.kind.depthAfter (cursor.run depth ts).2
      ((cursor.run depth ts).1.next depth' t.kind, depth') := by
  induction ts generalizing cursor depth with
  | nil => rfl
  | cons u ts ih => exact ih _ _

/-- A pass over tokens whose code ends in no operator does not stand behind one. -/
theorem run_of_not_endInOperator {ts : List Token} (h : ¬Token.endInOperator ts) (depth : Nat) :
    (Cursor.between.run depth ts).1 ≠ .inside true := by
  induction ts using List.reverseRecOn with
  | nil => exact nofun
  | append_singleton ts t ih =>
    -- from the back: only the last token matters, and what stood in front of it if it is no code
    rw [Cursor.run_concat]
    by_cases htrivia : t.isTrivia
    · rw [Token.endInOperator_concat_of_isTrivia htrivia] at h
      exact Cursor.next_ne (Token.Kind.carriesOn_of_isTrivia htrivia) (fun _ => ih h) _
    · rw [Token.endInOperator_concat_of_code htrivia] at h
      exact Cursor.next_ne (by simpa using h) (fun hkind => absurd hkind htrivia) _

/-- Groups stay separated when one that ends in front of any line break is put behind some that end
so as well. -/
theorem Separated.insert {front back : List Group} (h : Separated (front ++ back)) {g : Group}
    (hfront : ∀ h ∈ front, (Cursor.between.run 0 h.tokens).1 ≠ .inside true)
    (hg : Cursor.between.run 0 g.tokens = (.closed, 0)) : Separated (front ++ g :: back) := by
  induction front with
  | nil =>
    -- the new group ends behind its semicolon, in front of any line break
    refine ⟨?_, fun _ => ?_, h⟩
    · rw [hg]
    · rw [hg]
      simp
  | cons f front ih =>
    rw [List.forall_mem_cons] at hfront
    exact ⟨h.1, fun _ => hfront.1, ih h.2.2 hfront.2⟩

theorem kind_of_mem_getLast?_lines (gs : List Group) :
    ∀ t ∈ (lines gs).getLast?, t.kind = .newline := by
  induction gs using List.reverseRecOn with
  | nil => simp
  | append_singleton gs g _ =>
    -- each line ends in a line break
    rw [lines_append, lines_cons, lines_nil, ← List.append_assoc, List.getLast?_concat]
    rintro _ ⟨⟩
    rfl

theorem kind_of_mem_lines {gs : List Group} {t : Token} (h : t ∈ lines gs) :
    t.kind = .newline ∨ ∃ g ∈ gs, ∃ u ∈ g.tokens, u.kind = t.kind := by
  -- a token of a line is one of its group, or the line break behind it
  obtain ⟨g, hg, ht⟩ := List.mem_flatMap.1 h
  obtain ht | ht := List.mem_append.1 ht
  · refine .inr ⟨g, hg, ?_⟩
    obtain rfl | ht := List.mem_cons.1 ht
    · exact ⟨g.first, List.mem_cons_self, rfl⟩
    · exact ⟨t, List.mem_cons_of_mem _ ht, rfl⟩
  · rw [List.mem_singleton.1 ht]
    exact .inl rfl

/-- Legible groups stay legible when a group that stands alone is put in behind a prologue, if what
is behind it can be read at the start of a text. -/
theorem Legible.insert {front back : List Group} (h : Legible (front ++ back))
    (hfront : ∀ g ∈ front, g.InPrologue) (hback : Token.Readable true (lines back)) {g : Group}
    (hg : g.StandsAlone) : Legible (front ++ g :: back) := by
  have hlines : lines (front ++ g :: back) = lines front ++ (lines [g] ++ lines back) := by
    simp
  have hreadable := h.readable
  rw [lines_append] at hreadable
  refine ⟨?_, ?_, ?_, h.separated.insert (fun f hf => ?_) hg.ends⟩
  · -- each of the three parts ends in a line break, so the next one is read by itself
    rw [hlines]
    refine hreadable.left_of_append.append (kind_of_mem_getLast?_lines front) ?_
    refine (hg.readable _).append (kind_of_mem_getLast?_lines [g]) ?_
    rwa [hg.regexAfter]
  · -- a prologue holds no brackets, so the new group stands in front of all that are open
    have hnested := h.nested
    have hbracket : ∀ kind ∈ (lines front).map (·.kind), kind.isBracket = false := by
      intro kind hkind
      obtain ⟨t, ht, rfl⟩ := List.mem_map.1 hkind
      obtain hkind | ⟨f, hf, u, hu, hkind⟩ := kind_of_mem_lines ht
      · rw [hkind]
        rfl
      · rw [← hkind]
        exact Token.Kind.isBracket_of_inPrologue (hfront f hf u hu)
    rw [lines_append, List.map_append, nested_append_of_no_bracket hbracket] at hnested
    rw [hlines, List.map_append, nested_append_of_no_bracket hbracket, List.map_append, hg.nested]
    exact hnested
  · -- all groups were whole before, and so is the new one
    have hwhole := List.forall_mem_append.1 h.whole
    exact List.forall_mem_append.2 ⟨hwhole.1, List.forall_mem_cons.2 ⟨hg.whole, hwhole.2⟩⟩
  · -- no group of a prologue ends in an operator
    exact run_of_not_endInOperator (hfront f hf).not_endInOperator 0

/-! ## What stands behind a prologue -/

theorem Legible.exists_readable_tokens {gs : List Group} (h : Legible gs) {g : Group}
    (hg : g ∈ gs) : ∃ before, Token.Readable before g.flush.tokens := by
  obtain ⟨front, back, rfl⟩ := List.append_of_mem hg
  have hreadable := h.readable
  -- the tokens of the group are part of those of its line
  rw [lines_append, lines_cons] at hreadable
  exact ⟨_, hreadable.right_of_append.left_of_append⟩

theorem InPrologue.flush {g : Group} (h : g.InPrologue) : g.flush.InPrologue := by
  rw [InPrologue, tokens, List.forall_mem_cons] at h ⊢
  exact h

/-- No token of a prologue that is code opens with a slash. -/
theorem readable_of_inPrologue {g : Group} (hg : g.InPrologue) {before : Bool}
    (h : Token.Readable before g.tokens) (after : Bool) : Token.Readable after g.tokens := by
  refine h.of_firstCode (fun t ht => ?_) after
  have hcode : ¬t.isTrivia := by simpa using List.find?_some ht
  have hmem : t ∈ g.tokens := List.mem_of_find?_eq_some ht
  -- a lexeme of code that opens with a slash is a regex literal or divides
  obtain ⟨before', rest, hlexeme⟩ := h.exists_lexeme hmem
  have hkind := hg t hmem
  refine Lexeme.head_ne_slash hlexeme hcode (fun hregex => ?_) (fun hslash => ?_)
  · rw [show t.kind = .regex from hregex] at hkind
    cases hkind
  · rw [show t.kind = .slash from hslash] at hkind
    cases hkind

/-- Behind a prologue whose last group ends in a semicolon, a regex literal may stand. -/
theorem Legible.regexAfter_prologue {front back : List Group} (h : Legible (front ++ back))
    (hfront : ∀ g ∈ front, g.InPrologue)
    (hlast : ∀ g ∈ front.getLast?, endsInSemicolon g.text) :
    Token.regexAfter true (lines front) = true := by
  obtain rfl | ⟨front, g, rfl⟩ := List.eq_nil_or_concat' front
  · rfl
  have hg : g ∈ front ++ [g] := List.mem_append_right front List.mem_cons_self
  obtain ⟨before, hreadable⟩ := h.exists_readable_tokens (List.mem_append_left back hg)
  have hstart : Token.Readable true g.flush.tokens :=
    readable_of_inPrologue (hfront g hg).flush hreadable true
  -- the text of the last group is read again, and its last token of code is the semicolon
  have hsemicolon : endsInSemicolon g.text := hlast g (by simp)
  rw [endsInSemicolon, lex, ← spelling_tokens_flush, lexFrom_spelling hstart] at hsemicolon
  obtain ⟨t, ht, hkind⟩ : ∃ t, Token.lastCode? g.flush.tokens = some t ∧ t.kind = .semicolon := by
    have hplaced : ((Token.lastCode? (Token.place 0 g.flush.tokens)).map Token.unplaced).any
        (·.kind = .semicolon) := by
      rw [Option.any_map]
      exact hsemicolon
    rw [Token.map_unplaced_lastCode?_place, Option.any_map, Option.any_eq_true] at hplaced
    obtain ⟨t, ht, hkind⟩ := hplaced
    exact ⟨t, ht, of_decide_eq_true hkind⟩
  -- the line break behind the group is no code
  have hfeed : Token.lastCode? (g.flush.tokens ++ [.lineFeed]) = some t := by
    rw [Token.lastCode?_concat_of_isTrivia rfl, ht]
  rw [lines_append, lines_cons, lines_nil, Token.regexAfter_append, Token.regexAfter_eq, hfeed,
    Option.elim_some, hkind]
  rfl

/-- What is behind a prologue can be read at the start of a text, if a semicolon stands in between
or no slash opens it. -/
theorem Legible.readable_back {front back : List Group} (h : Legible (front ++ back))
    (hfront : ∀ g ∈ front, g.InPrologue)
    (hcontext : (∀ g ∈ front.getLast?, endsInSemicolon g.text) ∨
      ¬opensWithSlash (Token.spelling (lines back))) : Token.Readable true (lines back) := by
  have hreadable := h.readable
  rw [lines_append] at hreadable
  have hback := hreadable.right_of_append
  obtain hlast | hslash := hcontext
  · -- behind a semicolon, what was read there may be read at the start of a text
    rwa [h.regexAfter_prologue hfront hlast] at hback
  · exact hback.of_firstCode (hback.firstCode_ne_slash hslash) true

end Group

end Preload
