/-!
# Sizes in bytes

Positions in a source text count bytes of its UTF-8 form. `byteLength` is that count for a list of
characters; it is additive (`byteLength_append`), so a position is the size of what stands before
it.
-/

namespace Preload

/-- The number of bytes that `cs` takes in UTF-8. -/
def byteLength : List Char → Nat
  | [] => 0
  | c :: cs => c.utf8Size + byteLength cs

@[simp] theorem byteLength_nil : byteLength [] = 0 := rfl

@[simp] theorem byteLength_cons (c : Char) (cs : List Char) :
    byteLength (c :: cs) = c.utf8Size + byteLength cs := rfl

@[simp] theorem byteLength_append (as bs : List Char) :
    byteLength (as ++ bs) = byteLength as + byteLength bs := by
  induction as with
  | nil => simp
  | cons c cs ih => simp [ih, Nat.add_assoc]

/-- Only the empty text takes no bytes. -/
theorem byteLength_eq_zero_iff (cs : List Char) : byteLength cs = 0 ↔ cs = [] := by
  cases cs with
  | nil => simp
  | cons c cs => have := c.utf8Size_pos; simp; omega

/-- The text that some characters make up is as long in bytes as they are. -/
theorem utf8ByteSize_ofList (cs : List Char) : (String.ofList cs).utf8ByteSize = byteLength cs := by
  induction cs with
  | nil => rfl
  | cons c cs ih =>
    rw [String.ofList_cons, String.utf8ByteSize_append, String.utf8ByteSize_singleton, ih,
      byteLength_cons]

/-- The size of what a text starts with is a position in it. -/
theorem isValid_byteLength (as bs : List Char) :
    (⟨byteLength as⟩ : String.Pos.Raw).IsValid (String.ofList (as ++ bs)) := by
  rw [String.Pos.Raw.isValid_ofList]
  refine ⟨as.length, ?_⟩
  rw [List.take_left, utf8ByteSize_ofList]

/-- Texts of one size in front of the same text are the same. -/
theorem append_inj_of_byteLength {as bs cs ds : List Char} (h : as ++ cs = bs ++ ds)
    (hlength : byteLength as = byteLength bs) : as = bs ∧ cs = ds := by
  induction as generalizing bs with
  | nil =>
    obtain rfl : bs = [] := (byteLength_eq_zero_iff bs).1 hlength.symm
    exact ⟨rfl, h⟩
  | cons a as ih =>
    cases bs with
    | nil => exact absurd ((byteLength_eq_zero_iff (a :: as)).1 hlength) (List.cons_ne_nil a as)
    | cons b bs =>
      rw [List.cons_append, List.cons_append] at h
      obtain ⟨rfl, htail⟩ := List.cons.inj h
      obtain ⟨rfl, rfl⟩ := ih htail (Nat.add_left_cancel hlength)
      exact ⟨rfl, rfl⟩

end Preload
