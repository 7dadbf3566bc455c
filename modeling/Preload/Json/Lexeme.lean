import Preload.Json.Numeral
import Preload.Text.Size
/-!
# Lexemes of JSON text

JSON text is cut into lexemes from left to right, as far as it goes: a lexeme that breaks off is the
last one. What is wrong with it can depend on whether it is read for its value or only skipped, so a
`Reading` keeps an answer for each.
-/

namespace Preload.Json

/-- What is wrong with a text at the place where reading it stops. -/
inductive Fault where
  /-- Something stands there that may not. -/
  | malformed
  /-- The text ends too early. -/
  | truncated
  deriving DecidableEq, Repr, Inhabited

/-- The outcome of going over a lexeme, with a value of type `α` or without. -/
structure Reading (α : Type) where
  /-- The value, if the lexeme is read for one. -/
  value : Except Fault α
  /-- The fault that also stops a reader who only skips the lexeme. -/
  skipFault : Option Fault

namespace Reading

/-- A lexeme without a fault. -/
def ofValue {α : Type} (a : α) : Reading α :=
  ⟨.ok a, none⟩

/-- A lexeme that stops any reader. -/
def ofFault {α : Type} (f : Fault) : Reading α :=
  ⟨.error f, some f⟩

end Reading

/-- A lexeme of JSON text. -/
inductive Lexeme where
  | openArray
  | closeArray
  | openObject
  | closeObject
  | comma
  | colon
  /-- A string. -/
  | text (reading : Reading String)
  /-- A number or one of `null`, `true` and `false`, or a character that opens no lexeme. -/
  | plain (reading : Reading Json)

namespace Lexeme

/-- Whether reading goes on after the lexeme. -/
def goesOn : Lexeme → Bool
  | text reading => reading.skipFault.isNone
  | plain reading => reading.skipFault.isNone
  | _ => true

end Lexeme

/-- Blanks of JSON text. -/
def isSpace (c : Char) : Bool :=
  c == ' ' || c == '\n' || c == '\r' || c == '\t'

/-! ## Strings -/

/-- What a string is made of. -/
inductive Piece where
  /-- A character by itself or by a one-letter escape. -/
  | char (c : Char)
  /-- An escape `\u` with the number of a UTF-16 unit. -/
  | unit (n : Nat)
  deriving DecidableEq, Repr, Inhabited

/-- The value of a hexadecimal digit. -/
def hexValue? (c : Char) : Option Nat :=
  if c.isDigit then some (c.toNat - '0'.toNat)
  else if 'a' ≤ c ∧ c ≤ 'f' then some (c.toNat - 'a'.toNat + 10)
  else if 'A' ≤ c ∧ c ≤ 'F' then some (c.toNat - 'A'.toNat + 10)
  else none

/-- The value of four hexadecimal digits. -/
def hexUnit? (a b c d : Char) : Option Nat :=
  match hexValue? a, hexValue? b, hexValue? c, hexValue? d with
  | some a, some b, some c, some d => some (((a * 16 + b) * 16 + c) * 16 + d)
  | _, _, _, _ => none

/-- The character that a one-letter escape stands for. -/
def escaped? (c : Char) : Option Char :=
  if c = '"' ∨ c = '\\' ∨ c = '/' then some c
  else if c = 'b' then some '\x08'
  else if c = 'f' then some '\x0c'
  else if c = 'n' then some '\n'
  else if c = 'r' then some '\r'
  else if c = 't' then some '\t'
  else none

/-- The fault of a `\u` escape without four digits: the text ends too early if fewer than four bytes
are left of it. -/
def unitFault (cs : List Char) : Fault :=
  if byteLength cs < 4 then .truncated else .malformed

/-- The pieces of a string up to its closing quote or a fault, and the text after the quote. -/
def pieces : List Char → List Piece × Except Fault (List Char)
  | [] => ([], .error .truncated)
  | '"' :: cs => ([], .ok cs)
  | ['\\'] => ([], .error .truncated)
  | '\\' :: 'u' :: a :: b :: c :: d :: cs =>
    match hexUnit? a b c d with
    | some n => let (ps, stop) := pieces cs; (.unit n :: ps, stop)
    | none => ([], .error (unitFault (a :: b :: c :: d :: cs)))
  | '\\' :: 'u' :: cs => ([], .error (unitFault cs))
  | '\\' :: c :: cs =>
    match escaped? c with
    | some c => let (ps, stop) := pieces cs; (.char c :: ps, stop)
    | none => ([], .error .malformed)
  | c :: cs =>
    if c < ' ' then ([], .error .malformed)
    else let (ps, stop) := pieces cs; (.char c :: ps, stop)

/-- Whether a UTF-16 unit is the first half of a pair. -/
def isLead (n : Nat) : Bool :=
  0xD800 ≤ n && n < 0xDC00

/-- Whether a UTF-16 unit is the second half of a pair. -/
def isTrail (n : Nat) : Bool :=
  0xDC00 ≤ n && n < 0xE000

/-- The text that pieces stand for, with `fault` if one stopped them. Half of a pair alone is
malformed, but a first half at the very end meets the fault instead. -/
def joinPieces (fault : Option Fault) : List Piece → Except Fault (List Char)
  | [] =>
    match fault with
    | none => .ok []
    | some f => .error f
  | .char c :: ps => (joinPieces fault ps).map (c :: ·)
  | .unit n :: ps =>
    if isTrail n then .error .malformed
    else if isLead n then
      match ps with
      | .unit m :: ps =>
        if isTrail m then
          (joinPieces fault ps).map (Char.ofNat (0x10000 + (n - 0xD800) * 0x400 + (m - 0xDC00)) :: ·)
        else .error .malformed
      | [] => .error (fault.getD .malformed)
      | .char _ :: _ => .error .malformed
    else (joinPieces fault ps).map (Char.ofNat n :: ·)

/-- The string lexeme after an opening quote, and the text after it. -/
def stringLexeme (cs : List Char) : Lexeme × List Char :=
  match pieces cs with
  | (ps, .ok rest) => (.text ⟨(joinPieces none ps).map String.ofList, none⟩, rest)
  | (ps, .error f) => (.text ⟨(joinPieces (some f) ps).map String.ofList, some f⟩, [])

/-! ## Numbers and words -/

/-- A number that breaks off before `cs`. The end of the text is only noticed by a reader who wants
the value; one who skips takes it for a missing digit. -/
def brokenNumber (cs : List Char) : Reading Json :=
  ⟨.error (if cs.isEmpty then .truncated else .malformed), some .malformed⟩

/-- A whole numeral as a lexeme. One that is too large stops only a reader who wants the value. -/
def numeralLexeme (n : Numeral) : Lexeme :=
  match n.value? with
  | some json => .plain (.ofValue json)
  | none => .plain ⟨.error .malformed, none⟩

/-- Takes the sign of an exponent: whether it is a minus, and the text after it. -/
def takeSign : List Char → Bool × List Char
  | '+' :: cs => (false, cs)
  | '-' :: cs => (true, cs)
  | cs => (false, cs)

/-- The number lexeme after its mantissa, which may have an exponent. -/
def exponentLexeme (negative : Bool) (whole : List Nat) (fraction : Option (List Nat)) :
    List Char → Lexeme × List Char
  | [] => (numeralLexeme ⟨negative, whole, fraction, none⟩, [])
  | c :: cs =>
    if c = 'e' ∨ c = 'E' then
      let sign := takeSign cs
      let digits := takeDigits sign.2
      if digits.1.isEmpty then (.plain (brokenNumber digits.2), [])
      else
        let size : Int := ofDigits digits.1
        let exponent := if sign.1 then -size else size
        (numeralLexeme ⟨negative, whole, fraction, some exponent⟩, digits.2)
    else (numeralLexeme ⟨negative, whole, fraction, none⟩, c :: cs)

/-- The number lexeme after the digits before its point, which may have some behind it. -/
def fractionLexeme (negative : Bool) (whole : List Nat) : List Char → Lexeme × List Char
  | '.' :: cs =>
    let digits := takeDigits cs
    if digits.1.isEmpty then (.plain (brokenNumber digits.2), [])
    else exponentLexeme negative whole (some digits.1) digits.2
  | cs => exponentLexeme negative whole none cs

/-- The number lexeme at the front of a text whose sign is already read. A zero in front stands
alone. -/
def numberLexeme (negative : Bool) (cs : List Char) : Lexeme × List Char :=
  let digits := takeDigits cs
  if digits.1.isEmpty then (.plain (brokenNumber digits.2), [])
  else if 1 < digits.1.length ∧ digits.1.head? = some 0 then (.plain (.ofFault .malformed), [])
  else fractionLexeme negative digits.1 digits.2

/-- The word lexeme whose letters after the first are `letters`. -/
def wordLexeme (value : Json) : List Char → List Char → Lexeme × List Char
  | [], cs => (.plain (.ofValue value), cs)
  | _ :: _, [] => (.plain (.ofFault .truncated), [])
  | l :: ls, c :: cs => if c = l then wordLexeme value ls cs else (.plain (.ofFault .malformed), [])

/-! ## Texts -/

/-- The lexeme that is the character `c` alone. -/
def mark? (c : Char) : Option Lexeme :=
  if c = '[' then some .openArray
  else if c = ']' then some .closeArray
  else if c = '\x7b' then some .openObject
  else if c = '\x7d' then some .closeObject
  else if c = ',' then some .comma
  else if c = ':' then some .colon
  else none

/-- The value of the word that opens with `c`, and its other letters. -/
def word? (c : Char) : Option (Json × List Char) :=
  if c = 'n' then some (.null, ['u', 'l', 'l'])
  else if c = 't' then some (.bool true, ['r', 'u', 'e'])
  else if c = 'f' then some (.bool false, ['a', 'l', 's', 'e'])
  else none

/-- The lexeme that opens with `c`, and the text after it. -/
def firstLexeme (c : Char) (cs : List Char) : Lexeme × List Char :=
  match mark? c, word? c with
  | some l, _ => (l, cs)
  | none, some (value, letters) => wordLexeme value letters cs
  | none, none =>
    if c = '"' then stringLexeme cs
    else if c = '-' then numberLexeme true cs
    else if c.isDigit then numberLexeme false (c :: cs)
    else (.plain (.ofFault .malformed), [])

/-! ## What is left gets shorter -/

theorem length_takeDigits_le (cs : List Char) : (takeDigits cs).2.length ≤ cs.length :=
  (List.dropWhile_sublist _).length_le

theorem length_takeSign_le (cs : List Char) : (takeSign cs).2.length ≤ cs.length := by
  unfold takeSign
  split <;> simp

theorem length_pieces_le {cs rest : List Char} {ps : List Piece}
    (h : pieces cs = (ps, .ok rest)) : rest.length ≤ cs.length := by
  fun_induction pieces cs generalizing ps <;>
    simp only [List.length_cons, Prod.mk.injEq] at * <;> grind

theorem length_stringLexeme_le (cs : List Char) : (stringLexeme cs).2.length ≤ cs.length := by
  unfold stringLexeme
  split
  · next h => exact length_pieces_le h
  · simp

theorem length_exponentLexeme_le (negative : Bool) (whole : List Nat) (fraction : Option (List Nat))
    (cs : List Char) : (exponentLexeme negative whole fraction cs).2.length ≤ cs.length := by
  cases cs with
  | nil => simp [exponentLexeme]
  | cons c cs =>
    have hsign := length_takeSign_le cs
    have hdigits := length_takeDigits_le (takeSign cs).2
    simp only [exponentLexeme]
    split
    · split
      · simp
      · simp only [List.length_cons]; omega
    · simp

theorem length_fractionLexeme_le (negative : Bool) (whole : List Nat) (cs : List Char) :
    (fractionLexeme negative whole cs).2.length ≤ cs.length := by
  unfold fractionLexeme
  split
  · next cs =>
    have hdigits := length_takeDigits_le cs
    have hexponent :=
      length_exponentLexeme_le negative whole (some (takeDigits cs).1) (takeDigits cs).2
    dsimp only
    split
    · simp
    · simp only [List.length_cons]; omega
  · exact length_exponentLexeme_le ..

theorem length_numberLexeme_le (negative : Bool) (cs : List Char) :
    (numberLexeme negative cs).2.length ≤ (takeDigits cs).2.length := by
  have hfraction := length_fractionLexeme_le negative (takeDigits cs).1 (takeDigits cs).2
  simp only [numberLexeme]
  split
  · simp
  split
  · simp
  · omega

theorem length_wordLexeme_le (value : Json) (letters cs : List Char) :
    (wordLexeme value letters cs).2.length ≤ cs.length := by
  fun_induction wordLexeme value letters cs <;> simp_all; omega

theorem length_firstLexeme_le (c : Char) (cs : List Char) :
    (firstLexeme c cs).2.length ≤ cs.length := by
  have hnumber := length_numberLexeme_le true cs
  have hdigits := length_takeDigits_le cs
  unfold firstLexeme
  split
  · exact Nat.le_refl _
  · exact length_wordLexeme_le ..
  split
  · exact length_stringLexeme_le cs
  split
  · omega
  split
  · next hdigit =>
    have hnumber := length_numberLexeme_le false (c :: cs)
    have hcons : (takeDigits (c :: cs)).2 = (takeDigits cs).2 := by
      simp [takeDigits, Split.run, hdigit]
    rw [hcons] at hnumber
    omega
  · simp

/-- The lexemes of a text, as far as it goes. -/
def lexemes (cs : List Char) : List Lexeme :=
  match _hcode : cs.dropWhile isSpace with
  | [] => []
  | c :: code =>
    let step := firstLexeme c code
    step.1 :: if step.1.goesOn then lexemes step.2 else []
termination_by cs.length
decreasing_by
  have hrest := length_firstLexeme_le c code
  have hcs := (List.dropWhile_sublist isSpace (l := cs)).length_le
  rw [_hcode] at hcs
  simp only [List.length_cons] at hcs
  omega

end Preload.Json
