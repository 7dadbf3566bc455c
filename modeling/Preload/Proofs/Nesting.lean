import Preload.Nesting
import Preload.Proofs.Group.Splitting

/-!
# Well-nested tokens

`nested` says of a list of kinds of tokens that its brackets close each other and those of a stack.
`checkNesting` accepts just such tokens (`checkNesting_eq_ok_iff`), wherever they stand.
-/

namespace Preload

/-- Whether tokens of this kind are brackets. -/
def Token.Kind.isBracket : Token.Kind → Bool
  | .opening _ | .closing _ => true
  | _ => false

/-- Whether the brackets among some kinds of tokens close each other and, in order, those that are
open already, innermost first. -/
def nested : List Bracket → List Token.Kind → Bool
  | [], [] => true
  | _ :: _, [] => false
  | stack, .opening bracket :: kinds => nested (bracket :: stack) kinds
  | innermost :: stack, .closing bracket :: kinds => innermost == bracket && nested stack kinds
  | [], .closing _ :: _ => false
  | stack, _ :: kinds => nested stack kinds

theorem nested_opening (bracket : Bracket) (stack : List Bracket) (kinds : List Token.Kind) :
    nested stack (.opening bracket :: kinds) = nested (bracket :: stack) kinds := by
  cases stack <;> rfl

/-- Tokens that are no brackets say nothing about nesting. -/
theorem nested_cons_of_no_bracket {kind : Token.Kind} (h : kind.isBracket = false)
    (stack : List Bracket) (kinds : List Token.Kind) :
    nested stack (kind :: kinds) = nested stack kinds := by
  cases kind with
  | opening b => cases h
  | closing b => cases h
  | _ => cases stack <;> rfl

/-- The check of brackets accepts the well-nested tokens. -/
theorem checkNesting_eq_ok_iff (stack : List OpenBracket) (ts : List Token) :
    checkNesting stack ts = .ok () ↔ nested (stack.map (·.bracket)) (ts.map (·.kind)) := by
  fun_induction checkNesting stack ts with
  | case1 => simp [nested]
  | case2 => simp [nested]
  | case3 stack t ts bracket hkind ih => simpa [hkind, nested_opening] using ih
  | case4 t ts o stack hkind ih => simpa [hkind, nested] using ih
  | case5 t ts bracket o stack hkind hbracket => simp [hkind, nested, hbracket]
  | case6 t ts bracket hkind => simp [hkind, nested]
  | case7 t ts stack hopening hclosing hempty ih =>
    -- the rules for brackets come first, so none is left here
    have hnone : t.kind.isBracket = false := by
      cases hkind : t.kind with
      | opening b => exact absurd hkind (hopening b)
      | closing b =>
        cases stack with
        | nil => exact absurd rfl (hempty b hkind)
        | cons o stack => exact absurd rfl (hclosing b o stack hkind)
      | _ => rfl
    rw [ih, List.map_cons, nested_cons_of_no_bracket hnone]

/-- Line breaks say nothing about nesting. -/
theorem nested_filter (stack : List Bracket) (kinds : List Token.Kind) :
    nested stack (kinds.filter (· ≠ .newline)) = nested stack kinds := by
  induction kinds generalizing stack with
  | nil => rfl
  | cons kind kinds ih =>
    -- only an inner line break is dropped, and that one leaves the stack alone
    cases kind with
    | opening b =>
      rw [List.filter_cons_of_pos (by simp), nested_opening, nested_opening, ih]
    | closing b =>
      rw [List.filter_cons_of_pos (by simp)]
      cases stack with
      | nil => rfl
      | cons innermost stack => rw [nested, nested, ih]
    | newline =>
      rw [List.filter_cons_of_neg (by simp), nested_cons_of_no_bracket rfl, ih]
    | _ =>
      rw [List.filter_cons_of_pos (by simp), nested_cons_of_no_bracket rfl,
        nested_cons_of_no_bracket rfl, ih]

/-- Behind well-nested tokens no bracket is open. -/
theorem run_depth_of_nested {stack : List Bracket} {ts : List Token}
    (h : nested stack (ts.map (·.kind))) (cursor : Group.Cursor) :
    (cursor.run stack.length ts).2 = 0 := by
  induction ts generalizing stack cursor with
  | nil =>
    -- no tokens are left, so nothing that is open could still be closed
    cases stack with
    | nil => rfl
    | cons innermost stack => cases h
  | cons t ts ih =>
    -- the stack of the check and the depth of the cursor go up and down together
    rw [List.map_cons] at h
    rw [Group.Cursor.run]
    cases hkind : t.kind with
    | opening b =>
      rw [hkind, nested_opening] at h
      exact ih h _
    | closing b =>
      rw [hkind] at h
      cases stack with
      | nil => cases h
      | cons innermost stack =>
        rw [nested, Bool.and_eq_true] at h
        exact ih h.2 _
    | _ =>
      rw [hkind, nested_cons_of_no_bracket rfl] at h
      exact ih h _

end Preload
