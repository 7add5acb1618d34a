import Open3DStream.Math
import Mathlib.Algebra.Order.Ring.Unbundled.Rat
import Mathlib.Algebra.Order.Group.Unbundled.Abs
import Mathlib.Order.WithBot

namespace Open3DStream

/-- Exact rationals with one value that is not finite. -/
abbrev Extended := WithTop ℚ

namespace Extended

def lift (f : ℚ → ℚ → ℚ) : Extended → Extended → Extended
  | some a, some b => some (f a b)
  | _, _ => ⊤

def isFinite : Extended → Bool
  | some _ => true
  | none => false

/-- Magnitudes from `2 ^ 128` on overflow a `float`. -/
def narrow : Extended → Extended
  | some a => if |a| < 2 ^ 128 then some a else ⊤
  | none => ⊤

/-- The sum of the three differences, which is the norm along an axis. -/
def distance (v w : Vector3d Extended) : Extended :=
  let d := fun x y => lift (fun a b => |a - b|) x y
  lift (· + ·) (lift (· + ·) (d v.x w.x) (d v.y w.y)) (d v.z w.z)

instance : Numeric Extended Extended where
  zero := some 0
  one := some 1
  add := lift (· + ·)
  sub := lift (· - ·)
  mul := lift (· * ·)
  isFinite := isFinite
  finite_zero := rfl
  finite_one := rfl
  floatZero := some 0
  narrow := narrow
  widen := id
  ofRat := fun q => some q
  vectorDistance := distance
  angularDistance := fun p q => if p = q then some 0 else some 1
  uninit := ⟨⊤, ⊤, ⊤, ⊤⟩

theorem finite_lift (f : ℚ → ℚ → ℚ) {a b : Extended} (ha : isFinite a = true)
    (hb : isFinite b = true) : isFinite (lift f a b) = true := by
  cases a with
  | none => cases ha
  | some a =>
    cases b with
    | none => cases hb
    | some b => rfl

instance : ExactArith Extended where
  finite_add := finite_lift (· + ·)
  finite_sub := finite_lift (· - ·)
  finite_mul := finite_lift (· * ·)
  finite_ofRat _ := rfl

theorem lift_self {a : Extended} (h : isFinite a = true) :
    lift (fun a b => |a - b|) a a = some (0 : ℚ) := by
  cases a with
  | none => cases h
  | some a =>
    have habs : |a - a| = 0 := by rw [sub_self, abs_zero]
    exact congrArg some habs

theorem lift_zero : lift (fun a b => a + b) (some (0 : ℚ)) (some (0 : ℚ)) = some (0 : ℚ) :=
  congrArg some (add_zero 0)

theorem distance_self {v : Vector3d Extended} (h : v.allFinite = true) :
    distance v v = some (0 : ℚ) := by
  simp only [Vector3d.allFinite, Bool.and_eq_true] at h
  obtain ⟨⟨hx, hy⟩, hz⟩ := h
  unfold distance
  dsimp only
  rw [lift_self hx, lift_self hy, lift_self hz, lift_zero, lift_zero]

instance : ExactDistance Extended where
  vectorDistance_self h := distance_self h
  angularDistance_self _ := if_pos rfl

end Extended

end Open3DStream
