/-!
# Texts of the operating system

A file name is a text of bytes that need not be UTF-8. `OsString.lossy` shows it as characters, with
the replacement character for each sequence of bytes that is none, and `OsString.toString?` gives
the text that is spelled by the bytes, if there is one.
-/

namespace Preload

/-- The UTF-8 form of some characters. -/
def utf8 (cs : List Char) : List UInt8 :=
  cs.flatMap String.utf8EncodeChar

/-- A text of bytes. -/
@[ext] structure OsString where
  bytes : List UInt8
  deriving DecidableEq, Repr, Inhabited

namespace OsString

/-- The bytes of a text. -/
def ofString (s : String) : OsString :=
  ⟨utf8 s.toList⟩

instance : Coe String OsString := ⟨ofString⟩

/-- Two texts, one behind the other. -/
def append (s t : OsString) : OsString :=
  ⟨s.bytes ++ t.bytes⟩

instance : Append OsString := ⟨append⟩

/-- Some texts with another one in between. -/
def intercalate (separator : OsString) (ss : List OsString) : OsString :=
  ⟨separator.bytes.intercalate (ss.map bytes)⟩

end OsString

/-! ## Decoding -/

/-- The character that some bytes open with. None takes more than four bytes. -/
def firstChar? (bytes : List UInt8) : Option Char :=
  (bytes.take 4).toByteArray.utf8DecodeChar? 0

/-- Whether a byte goes on with a character. -/
def isContinuation (b : UInt8) : Bool :=
  0x80 ≤ b && b ≤ 0xBF

/-- Whether two bytes are the first ones of a character of three or four. -/
def opensLongChar (a b : UInt8) : Bool :=
  match a with
  | 0xE0 => 0xA0 ≤ b && b ≤ 0xBF
  | 0xED => 0x80 ≤ b && b ≤ 0x9F
  | 0xF0 => 0x90 ≤ b && b ≤ 0xBF
  | 0xF4 => 0x80 ≤ b && b ≤ 0x8F
  | a => 0xE1 ≤ a && a ≤ 0xF3 && isContinuation b

/-- The length of what `b :: bytes` opens with in place of a character: the bytes that could still
have become one, and at least the first. -/
def brokenLength (b : UInt8) : List UInt8 → Nat
  | c :: d :: _ => if !opensLongChar b c then 1 else if 0xF0 ≤ b && isContinuation d then 3 else 2
  | [c] => if opensLongChar b c then 2 else 1
  | [] => 1

/-- The characters that some bytes are read as, with a replacement character for each broken one. -/
def decode : List UInt8 → List Char
  | [] => []
  | b :: bytes =>
    match firstChar? (b :: bytes) with
    | some c => c :: decode (bytes.drop (c.utf8Size - 1))
    | none => '\uFFFD' :: decode (bytes.drop (brokenLength b bytes - 1))
termination_by bytes => bytes.length
decreasing_by all_goals simp only [List.length_drop, List.length_cons]; omega

namespace OsString

/-- The text as it is shown. -/
def lossy (s : OsString) : String :=
  String.ofList (decode s.bytes)

/-- The text whose UTF-8 form these are the bytes of. -/
def toString? (s : OsString) : Option String :=
  if ofString s.lossy = s then some s.lossy else none

end OsString

end Preload
