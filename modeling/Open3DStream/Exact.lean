import Mathlib.Algebra.BigOperators.Fin
import Mathlib.Algebra.Order.Ring.Unbundled.Rat
import Mathlib.Algebra.Order.Group.Unbundled.Abs
import Mathlib.Tactic.Ring
import Open3DStream.Math

/-! Arithmetic that neither rounds nor overflows. -/

namespace Open3DStream

open Numeric

/-- The numbers are a commutative ring with the rationals in it, and all of them are finite. -/
class ExactNumeric (α : Type) {β : Type} [Numeric α β] : Prop where
  finite (a : α) : isFinite a = true
  add_assoc (a b c : α) : a + b + c = a + (b + c)
  add_comm (a b : α) : a + b = b + a
  zero_add (a : α) : 0 + a = a
  sub_add_cancel (a b : α) : a - b + b = a
  mul_assoc (a b c : α) : a * b * c = a * (b * c)
  mul_comm (a b : α) : a * b = b * a
  one_mul (a : α) : 1 * a = a
  add_mul (a b c : α) : (a + b) * c = a * c + b * c
  ofRat_one : (ofRat 1 : α) = 1
  ofRat_add (p q : ℚ) : (ofRat (p + q) : α) = ofRat p + ofRat q
  ofRat_mul (p q : ℚ) : (ofRat (p * q) : α) = ofRat p * ofRat q

variable {α β : Type} [Numeric α β]

namespace ExactNumeric

variable [ExactNumeric α]

theorem add_right_cancel {a b c : α} (h : a + c = b + c) : a = b := by
  have hneg (x : α) : x + c + (0 - c) = x := by
    rw [add_assoc, add_comm c, sub_add_cancel, add_comm, zero_add]
  rw [← hneg a, h, hneg b]

theorem zero_mul (a : α) : 0 * a = 0 := by
  apply add_right_cancel (c := 0 * a)
  rw [← add_mul, zero_add, zero_add]

variable (α) in
/-- The ring for `ring` and for the lemmas about sums. -/
abbrev commRing : CommRing α :=
  letI : Neg α := ⟨fun a => 0 - a⟩
  { add_assoc := add_assoc
    zero_add := zero_add
    add_zero a := by rw [add_comm, zero_add]
    add_comm := add_comm
    left_distrib a b c := by rw [mul_comm, add_mul, mul_comm b, mul_comm c]
    right_distrib := add_mul
    zero_mul := zero_mul
    mul_zero a := by rw [mul_comm, zero_mul]
    mul_assoc := mul_assoc
    mul_comm := mul_comm
    one_mul := one_mul
    mul_one a := by rw [mul_comm, one_mul]
    sub_eq_add_neg a b := by
      apply add_right_cancel (c := b)
      rw [sub_add_cancel, add_assoc]
      exact ((congrArg (a + ·) (sub_add_cancel 0 b)).trans ((add_comm a 0).trans (zero_add a))).symm
    neg_add_cancel a := sub_add_cancel 0 a
    nsmul := nsmulRec
    zsmul := zsmulRec }

theorem ofRat_zero : (ofRat 0 : α) = 0 := by
  apply add_right_cancel (c := ofRat 0)
  rw [← ofRat_add, Rat.zero_add, zero_add]

instance : ExactArith α where
  finite_add _ _ := finite _
  finite_sub _ _ := finite _
  finite_mul _ _ := finite _
  finite_ofRat _ := finite _

end ExactNumeric

namespace Rationals

/-- The rationals, with the sum of the three differences as the distance. -/
scoped instance : Numeric ℚ ℚ where
  isFinite _ := true
  finite_zero := rfl
  finite_one := rfl
  floatZero := 0
  narrow := id
  widen := id
  ofRat := id
  vectorDistance v w := |v.x - w.x| + |v.y - w.y| + |v.z - w.z|
  angularDistance p q := if p = q then 0 else 1
  uninit := ⟨0, 0, 0, 0⟩

scoped instance : ExactNumeric ℚ where
  finite _ := rfl
  add_assoc := Rat.add_assoc
  add_comm := Rat.add_comm
  zero_add := Rat.zero_add
  sub_add_cancel _ _ := Rat.sub_add_cancel
  mul_assoc := Rat.mul_assoc
  mul_comm := Rat.mul_comm
  one_mul := Rat.one_mul
  add_mul := Rat.add_mul
  ofRat_one := rfl
  ofRat_add _ _ := rfl
  ofRat_mul _ _ := rfl

end Rationals

end Open3DStream
