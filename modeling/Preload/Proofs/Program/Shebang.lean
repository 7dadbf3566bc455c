import Mathlib.Data.List.DropRight
import Preload.Proofs.Program.Joining

/-!
# Shebang lines

The text behind a shebang line is read as by itself, further on: its tokens, the groups they are
split into, the brackets to blame and the nodes of the program all move by the size of the line.
Nothing else of the line shows but what it says.

Main statements:
* `checkNesting_map_shift` and `readGroups_add`: brackets and groups further on;
* `Program.ofParts_map_shift`: groups further on make up the same program further on;
* `Program.parse_shebang_append`: reading a text with a shebang line in front of it.
-/

namespace Preload

/-! ## Brackets further on -/

/-- The error `n` bytes further on. -/
def ParseError.shift (n : Nat) : ParseError → ParseError
  | unclosed pos => unclosed (n + pos)
  | unbalanced delimiter pos => unbalanced delimiter (n + pos)
  | statementCount found => statementCount found

/-- The open bracket `n` bytes further on. -/
def OpenBracket.shift (n : Nat) (o : OpenBracket) : OpenBracket :=
  { o with pos := n + o.pos }

/-- Further on, the same bracket is to blame. -/
theorem checkNesting_map_shift (n : Nat) (stack : List OpenBracket) (ts : List Token) :
    checkNesting (stack.map (OpenBracket.shift n)) (ts.map (Token.shift n)) =
      (checkNesting stack ts).mapError (ParseError.shift n) := by
  -- the open brackets move with the tokens, so this is about any stack of them
  induction ts generalizing stack with
  | nil => cases stack <;> rfl
  | cons t ts ih =>
    have hshift : (t.shift n).kind = t.kind := rfl
    rw [List.map_cons]
    cases hkind : t.kind with
    | opening bracket =>
      -- an open bracket is pushed with its place, which is further on as well
      rw [checkNesting_opening (hshift.trans hkind), checkNesting_opening hkind]
      exact ih (⟨bracket, t.start⟩ :: stack)
    | closing bracket =>
      cases stack with
      | nil =>
        rw [List.map_nil, checkNesting_unopened (hshift.trans hkind), checkNesting_unopened hkind]
        rfl
      | cons o stack =>
        rw [List.map_cons, checkNesting_closing (hshift.trans hkind), checkNesting_closing hkind]
        have hbracket : (o.shift n).bracket = o.bracket := rfl
        rw [hbracket]
        split
        · -- brackets that match are dropped; otherwise both errors name one bracket
          exact ih stack
        · rfl
    | _ =>
      have hplain : t.kind.isBracket = false := by rw [hkind]; rfl
      rw [checkNesting_plain (t := t.shift n) hplain, checkNesting_plain hplain, ih]

/-! ## Groups further on -/

/-- Further on, the same groups are read further on, or the same error is found there. -/
theorem readGroups_add (n pos : Nat) (cs : List Char) :
    readGroups (n + pos) cs =
      ((readGroups pos cs).mapError (ParseError.shift n)).map fun gs => gs.map (Group.shift n) := by
  have hlex : lex (n + pos) cs =
      ⟨(lex pos cs).tokens.map (Token.shift n), (lex pos cs).errorAt.map (n + ·)⟩ :=
    lexFrom_add n pos true cs
  cases herror : (lex pos cs).errorAt with
  | some m =>
    -- the text cannot be lexed, and the same token is to blame further on
    have herror' : (lex (n + pos) cs).errorAt = some (n + m) := by rw [hlex, herror, Option.map_some]
    rw [readGroups_of_errorAt herror, readGroups_of_errorAt herror']
    rfl
  | none =>
    have herror' : (lex (n + pos) cs).errorAt = none := by rw [hlex, herror, Option.map_none]
    have hcheck := checkNesting_map_shift n [] (lex pos cs).tokens
    rw [List.map_nil] at hcheck
    rw [readGroups_of_lexed herror, readGroups_of_lexed herror', hlex, hcheck, Group.split_map_shift]
    cases checkNesting [] (lex pos cs).tokens <;> rfl

/-- The directive `n` bytes further on. -/
def Directive.shift (n : Nat) (d : Directive) : Directive :=
  { d with span := d.span.shift n }

namespace Group

@[simp] theorem isEmpty_code_shift (n : Nat) (g : Group) :
    (g.shift n).code.isEmpty = g.code.isEmpty := by
  rw [← List.isEmpty_map (f := Token.word), map_word_code, map_word_shift, ← map_word_code,
    List.isEmpty_map]

@[simp] theorem literal?_shift (n : Nat) (g : Group) : (g.shift n).literal? = g.literal? := by
  rw [literal?, words_shift, literal?]

/-- A group further on is the same directive further on. -/
theorem toDirective_shift (n : Nat) (comments : List Group) (literal : List Char) (g : Group) :
    (g.shift n).toDirective (comments.map (shift n)) literal =
      (g.toDirective comments literal).shift n := by
  simp [toDirective, Directive.shift, Function.comp_def]

end Group

namespace Program

/-! ## Programs further on -/

/-- The program `n` bytes further on. -/
def shift (n : Nat) (p : Program) : Program :=
  { p with directives := p.directives.map (Directive.shift n)
           body := p.body.map (Statement.shift n) }

/-- Groups further on make up the same program further on. -/
theorem ofParts_map_shift (n : Nat) (shebang : Option String) (gs : List Group) :
    ofParts shebang (gs.map (Group.shift n)) = (ofParts shebang gs).shift n := by
  obtain ⟨hdirectives, hbody⟩ := map_ofGroups_map id id (Group.isEmpty_code_shift n)
    -- the groups are told apart by what they say, not by where they stand
    (Group.literal?_shift n) (Group.toDirective_shift n) (Group.toStatement_shift n) [] gs
  rw [List.map_id, List.map_nil] at hdirectives hbody
  rw [ofParts, hdirectives, hbody]
  rfl

/-- A text that is empty or opens with a line feed is read as by itself behind a shebang line: with
what the line says, all places of nodes, or of the error, are further on by the size of the line. -/
theorem parse_shebang_append {line rest : String} (hline : '\n' ∉ line.toList)
    (hrest : ∀ c ∈ rest.toList.head?, c = '\n') :
    parse ("#!" ++ line ++ rest) =
      ((parse rest).mapError (ParseError.shift (2 + line.utf8ByteSize))).map fun p =>
        { p.shift (2 + line.utf8ByteSize) with
          shebang := some (String.ofList (line.toList.rdropWhile (· == '\r'))) } := by
  have hsize : byteLength line.toList = line.utf8ByteSize := by
    rw [← utf8ByteSize_ofList, String.ofList_toList]
  have htext : ("#!" ++ line ++ rest).toList = '#' :: '!' :: (line.toList ++ rest.toList) := by
    simp
  -- the rest has no shebang line of its own
  have hnone : shebang? rest.toList = none := by
    rw [shebang?_eq_none_iff]
    rintro ⟨tail, htail⟩
    rw [← htail] at hrest
    exact absurd (hrest '#' rfl) (by decide)
  have hread := readGroups_add (2 + line.utf8ByteSize) 0 rest.toList
  rw [Nat.add_zero] at hread
  rw [parse, htext, shebang?_append hline hrest, parse, hnone]
  -- both sides read the groups of the rest, behind the line and from the start
  show (readGroups (2 + byteLength line.toList) rest.toList).map _ =
    Except.map _ (Except.mapError _ ((readGroups 0 rest.toList).map (ofGroups [])))
  rw [hsize, hread]
  cases readGroups 0 rest.toList with
  | error e => rfl
  | ok gs => exact congrArg Except.ok (ofParts_map_shift _ _ gs)

/-- A quote, a bracket and the opening of a comment in the shebang line say nothing about the text
behind it. The two bytes of `é` and the carriage returns count for the places. -/
theorem parse_shebang_append_of_quote :
    let line := "é '(/*\r\r"
    let rest := "\n// c\n'a'\nrequire('./b')"
    let wrong := "\nf([é)"
    let p : Program := ⟨none, [⟨"'a'", ⟨6, 9⟩, some "'a'", ["// c"]⟩],
      [⟨.load .requireCall "./b", ⟨10, 24⟩, .standard, some "require('./b')"⟩]⟩
    '\n' ∉ line.toList ∧ (∀ c ∈ rest.toList.head?, c = '\n') ∧ (∀ c ∈ wrong.toList.head?, c = '\n') ∧
      parse rest = .ok p ∧ parse wrong = .error (.unbalanced '[' 3) ∧
      parse ("#!" ++ line ++ rest) = .ok { p.shift 11 with shebang := some "é '(/*" } ∧
      parse ("#!" ++ line ++ wrong) = .error (.unbalanced '[' 14) := by
  intro line rest wrong p
  have hline : '\n' ∉ line.toList := by decide +kernel
  have hrest : ∀ c ∈ rest.toList.head?, c = '\n' := by simp [rest]
  have hwrong : ∀ c ∈ wrong.toList.head?, c = '\n' := by simp [wrong]
  have hparse : parse rest = .ok p := by decide +kernel
  have herror : parse wrong = .error (.unbalanced '[' 3) := by decide +kernel
  have hsize : line.utf8ByteSize = 9 := by decide +kernel
  have hsays : String.ofList (line.toList.rdropWhile (· == '\r')) = "é '(/*" := by decide +kernel
  have hread := parse_shebang_append hline hrest
  have hrefused := parse_shebang_append hline hwrong
  rw [hparse, hsize, hsays] at hread
  rw [herror, hsize] at hrefused
  exact ⟨hline, hrest, hwrong, hparse, herror, hread, hrefused⟩

end Program

end Preload
