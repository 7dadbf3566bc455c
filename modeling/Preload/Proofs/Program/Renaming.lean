import Preload.Proofs.Program.Outline
import Preload.Proofs.Program.Verdict
import Preload.Proofs.Token.Renaming

/-!
# Names in programs

What a program is made of does not depend on the names in it: under another name a source is read
into a program of the same outline, token by token and group by group of the same shape.

Main statements:
* `readGroups_of_map_shape`: texts whose tokens are of one shape are read alike;
* `readGroups_rename`: the groups of a text under another name;
* `Program.parse_rename`: a source under another name;
* `Program.parse_of_foreign_name`: words of letters outside of ASCII are no names.
-/

namespace Preload

namespace Token

theorem shape_rename {t : Token} (h : t.kind ≠ .string) (name : List Char) :
    (t.rename name).shape = t.shape := by
  -- only the value of a string is part of a shape, and this is none
  have hname : (t.rename name).kind ≠ .string := h
  rw [shape, shape, if_neg h, if_neg hname]
  rfl

/-- Tokens at other places are of the same shape. -/
theorem map_shape_place (pos : Nat) (ts : List Token) :
    (place pos ts).map shape = ts.map shape :=
  map_place (fun _ => rfl) pos ts

theorem map_kind_of_map_shape {ts us : List Token} (h : ts.map shape = us.map shape) :
    ts.map (·.kind) = us.map (·.kind) := by
  have hkinds := congrArg (List.map (·.kind)) h
  rwa [List.map_map, List.map_map] at hkinds

end Token

/-- Texts whose tokens are of one shape are read alike. -/
theorem readGroups_of_map_shape {pos pos' : Nat} {cs ds : List Char} {gs : List Group}
    (h : readGroups pos cs = .ok gs) (hlexed : (lex pos' ds).errorAt = none)
    (hshape : (lex pos' ds).tokens.map Token.shape = (lex pos cs).tokens.map Token.shape) :
    ∃ hs, readGroups pos' ds = .ok hs ∧ hs.map Group.shape = gs.map Group.shape := by
  obtain ⟨-, hnested, rfl⟩ := of_readGroups h
  -- brackets are nested by the kinds of tokens, and those are the same
  have hnesting : checkNesting [] (lex pos' ds).tokens = .ok () := by
    rw [checkNesting_eq_ok_iff, Token.map_kind_of_map_shape hshape]
    exact hnested
  refine ⟨Group.split (lex pos' ds).tokens, ?_, ?_⟩
  · rw [readGroups_of_lexed hlexed, hnesting]
    rfl
  · rw [← Group.split_map_shape, hshape, Group.split_map_shape]

/-- A text in which a name was replaced is read into groups of the same shape. -/
theorem readGroups_rename {pos : Nat} {cs : List Char} {gs : List Group}
    (h : readGroups pos cs = .ok gs) {t : Token} (ht : t ∈ (lex pos cs).tokens)
    (hkind : t.kind = .ident) (hoperator : operatorWords.contains (String.ofList t.text) = false)
    (hnumber : ∀ u ∈ (lex pos cs).tokens, u.kind = .number → u.stop ≠ t.start) {name : List Char}
    (hname : IsName name) :
    ∃ front back hs, cs = front ++ (t.text ++ back) ∧ t.start = pos + byteLength front ∧
      (lex pos (front ++ (name ++ back))).tokens.map Token.shape =
        (lex pos cs).tokens.map Token.shape ∧
      readGroups pos (front ++ (name ++ back)) = .ok hs ∧
      hs.map Group.shape = gs.map Group.shape := by
  -- the tokens in front of the name and those behind it
  obtain ⟨ts, us, hsplit⟩ := List.append_of_mem ht
  have hlexing : lexFrom pos true cs = ⟨ts ++ t :: us, none⟩ := by
    rw [← hsplit, ← (of_readGroups h).1]
    rfl
  have hapart : ∀ u ∈ ts, u.kind = .number → u.stop ≠ t.start := fun u hu =>
    hnumber u (hsplit ▸ List.mem_append_left _ hu)
  obtain ⟨front, back, hcs, hstart, hrelexing⟩ :=
    lexFrom_rename hlexing hkind hoperator hapart hname
  -- a name is no string, so replacing it does not show in any shape
  have hword : t.kind ≠ .string := by
    rw [hkind]
    decide
  have hshape : (lex pos (front ++ (name ++ back))).tokens.map Token.shape =
      (lex pos cs).tokens.map Token.shape := by
    rw [lex, lex, hrelexing, hlexing, Token.map_shape_place, List.map_append, List.map_append,
      List.map_cons, List.map_cons, Token.shape_rename hword]
  obtain ⟨hs, hread, hgroups⟩ := readGroups_of_map_shape h (by rw [lex, hrelexing]) hshape
  exact ⟨front, back, hs, hcs, hstart, hshape, hread, hgroups⟩

namespace Program

/-- A shebang line stays one in front of another word. -/
theorem IsShebangLine.rename {line front back text : List Char} {shebang : Option String}
    (h : IsShebangLine line (front ++ (text ++ back)) shebang)
    (htext : Token.Kind.ident.Spells text) (name : List Char) :
    IsShebangLine line (front ++ (name ++ back)) shebang := by
  cases shebang with
  | none => exact h
  | some interpreter =>
    obtain ⟨hinterpreter, hrest, hline⟩ := h
    refine ⟨hinterpreter, ?_, hline⟩
    cases front with
    | cons d front => exact hrest
    | nil =>
      -- a line break stands between the shebang line and any word
      obtain ⟨c, cs, rfl, hstart⟩ := htext.exists_isWordStart
      exact absurd (hrest c rfl) (ne_of_isWordStart hstart rfl)

/-- No word takes part in what a shebang line opens with. -/
theorem not_marker_rename {front back text name : List Char} (hname : Token.Kind.ident.Spells name)
    (h : ¬['#', '!'] <+: front ++ (text ++ back)) : ¬['#', '!'] <+: front ++ (name ++ back) := by
  obtain ⟨c, cs, rfl, hstart⟩ := hname.exists_isWordStart
  -- no word opens with a character of the marker
  have hhead : ∀ d ∈ ((c :: cs) ++ back).head?, d ≠ '#' ∧ d ≠ '!' := by
    rintro d hd
    obtain rfl : c = d := by simpa using hd
    exact ⟨ne_of_isWordStart hstart rfl, ne_of_isWordStart hstart rfl⟩
  rw [marker_isPrefix_append_iff hhead]
  exact fun hmarker => h (hmarker.trans (List.prefix_append front _))

/-- Under another name a source is read as before. It stays a program with the same outline, each
token keeps its kind, so that a slash that divides still does, and the groups are those from before,
so that a line break ends a statement where it did. The name has to be an ASCII word, and the one
that it replaces must end an operand and not touch a number. -/
theorem parse_rename {source : String} {p : Program} (hparse : parse source = .ok p) {t : Token}
    (ht : t ∈ scriptTokens source) (hkind : t.kind = .ident)
    (hoperator : operatorWords.contains (String.ofList t.text) = false)
    (hnumber : ∀ u ∈ scriptTokens source, u.kind = .number → u.stop ≠ t.start)
    {front back : List Char} (hsource : source.toList = front ++ (t.text ++ back))
    (hfront : t.start = byteLength front) {name : List Char} (hname : IsName name) :
    let renamed := String.ofList (front ++ (name ++ back))
    ∃ q, parse renamed = .ok q ∧ q.shebang = p.shebang ∧ q.outline = p.outline ∧
      (scriptTokens renamed).map Token.shape = (scriptTokens source).map Token.shape ∧
      ∃ gs hs, scriptGroups source = .ok gs ∧ scriptGroups renamed = .ok hs ∧
        hs.map Group.shape = gs.map Group.shape := by
  intro renamed
  obtain ⟨line, rest, shebang, hparts, hscript, hline, hmarker, hprogram⟩ := parse_eq_groups source
  rw [hprogram] at hparse
  obtain ⟨gs, hgs, rfl⟩ := exists_of_map_eq_ok hparse
  have hread : readGroups (byteLength line) rest = .ok gs := by rwa [scriptGroups, hscript] at hgs
  have htokens : scriptTokens source = (lex (byteLength line) rest).tokens := by
    rw [scriptTokens, hscript]
  rw [htokens] at ht hnumber
  have hspells : Token.Kind.ident.Spells t.text := by
    rw [← hkind]
    exact (readable_lexFrom (byteLength line) true rest).1.spells t ht
  obtain ⟨before, after, hs, rfl, hstart, hshape, hreread, hgroups⟩ :=
    readGroups_rename hread ht hkind hoperator hnumber hname
  -- the name stands behind the shebang line, in which neither name has a part
  obtain ⟨rfl, hback⟩ : front = line ++ before ∧ t.text ++ back = t.text ++ after := by
    refine append_inj_of_byteLength ?_ ?_
    · rw [← hsource, hparts, List.append_assoc]
    · rw [← hfront, hstart, byteLength_append]
  obtain rfl : back = after := List.append_cancel_left hback
  have hrenamed : renamed = String.ofList (line ++ (before ++ (name ++ back))) := by
    simp only [renamed, List.append_assoc]
  have hline' : IsShebangLine line (before ++ (name ++ back)) shebang := hline.rename hspells name
  have hmarker' : shebang = none → ¬['#', '!'] <+: before ++ (name ++ back) := fun hnone =>
    not_marker_rename hname.ident (hmarker hnone)
  have hscript' : scriptParts renamed.toList = ⟨line, before ++ (name ++ back)⟩ := by
    rw [hrenamed, String.toList_ofList, scriptParts_append hline' hmarker']
  refine ⟨ofParts shebang hs, ?_, rfl, outline_ofParts_congr hgroups shebang shebang, ?_, gs, hs, hgs,
    ?_, hgroups⟩
  · rw [hrenamed, parse_append hline' hmarker', hreread]
    rfl
  · rw [scriptTokens, hscript', htokens, hshape]
  · rw [scriptGroups, hscript', hreread]

/-- The name that is replaced stands in front of a slash, and the new one opens as an operator
does. -/
theorem parse_rename_of_division :
    let source := "#!é\n'a'\nx / y / 2\nrequire('./b')"
    let renamed := "#!é\n'a'\nyields / y / 2\nrequire('./b')"
    let p : Program := ⟨some "é", [⟨"'a'", ⟨5, 8⟩, some "'a'", []⟩],
      [.ofKind (.other "x / y / 2") ⟨9, 18⟩,
        ⟨.load .requireCall "./b", ⟨19, 33⟩, .standard, some "require('./b')"⟩]⟩
    let t : Token := ⟨[], .ident, ['x'], 9⟩
    parse source = .ok p ∧ t ∈ scriptTokens source ∧
      (∀ u ∈ scriptTokens source, u.kind = .number → u.stop ≠ t.start) ∧
      IsName "yields".toList ∧
      ∃ q, parse renamed = .ok q ∧ q.outline = p.outline := by
  intro source renamed p t
  have hparse : parse source = .ok p := by decide +kernel
  have ht : t ∈ scriptTokens source := by decide +kernel
  have hnumber : ∀ u ∈ scriptTokens source, u.kind = .number → u.stop ≠ t.start := by decide +kernel
  have hname : IsName "yields".toList :=
    ⟨.ident rfl (List.all_eq_true.1 rfl) (by decide), by decide⟩
  have hsource : source.toList =
      "#!é\n'a'\n".toList ++ (t.text ++ " / y / 2\nrequire('./b')".toList) := by decide +kernel
  have hfront : t.start = byteLength "#!é\n'a'\n".toList := by decide +kernel
  obtain ⟨q, hq, -, houtline, -⟩ :=
    parse_rename hparse ht rfl (by decide) hnumber hsource hfront hname
  exact ⟨hparse, ht, hnumber, hname, q, hq, houtline⟩

/-- A word of letters outside of ASCII is none of the names: a slash behind it opens a regex
literal, and a line break behind it carries on, so that the next statement is lost. -/
theorem parse_of_foreign_name :
    let t : Token := ⟨[], .ident, ['a'], 0⟩
    (t ∈ scriptTokens "a / b" ∧ (∃ p, parse "a / b" = .ok p) ∧
      parse "é / b" = .error (.unclosed 3)) ∧
    (t ∈ scriptTokens "a\nrequire('./b')" ∧
      (parse "a\nrequire('./b')").map outline = .ok ⟨[], [none, some (.requireCall, "./b")]⟩ ∧
      (parse "é\nrequire('./b')").map outline = .ok ⟨[], [none]⟩) := by
  refine ⟨⟨by decide +kernel, ⟨.ofBody [.ofKind (.other "a / b") ⟨0, 5⟩], by decide +kernel⟩,
    by decide +kernel⟩, by decide +kernel, by decide +kernel, by decide +kernel⟩

end Program

end Preload
