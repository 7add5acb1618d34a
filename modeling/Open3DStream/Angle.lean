import Mathlib.Analysis.SpecialFunctions.Complex.Arg
import Open3DStream.Math

/-! The real numbers as the numbers of the program, with the angle between two rotations. -/

namespace Open3DStream

open Numeric

namespace Angle

noncomputable def atan2 (y x : ℝ) : ℝ := Complex.arg ⟨x, y⟩

noncomputable def norm (x y z : ℝ) : ℝ := √(x * x + y * y + z * z)

/-- The product of a quaternion with the conjugate of another. -/
def mulConjugate (a b : Quaterniond ℝ) : Quaterniond ℝ where
  x := a.x * b.w - a.w * b.x - a.y * b.z + a.z * b.y
  y := a.y * b.w - a.w * b.y - a.z * b.x + a.x * b.z
  z := a.z * b.w - a.w * b.z - a.x * b.y + a.y * b.x
  w := a.w * b.w + a.x * b.x + a.y * b.y + a.z * b.z

noncomputable def angularDistance (a b : Quaterniond ℝ) : ℝ :=
  let d := mulConjugate a b
  ((2 : ℕ) : ℝ) * atan2 (norm d.x d.y d.z) |d.w|

theorem norm_zero : norm 0 0 0 = 0 := by simp [norm]

/-- The memory a constructor leaves unset is taken to be zero. -/
noncomputable scoped instance : Numeric ℝ ℝ where
  isFinite _ := true
  finite_zero := rfl
  finite_one := rfl
  floatZero := 0
  narrow := id
  widen := id
  ofRat q := q
  vectorDistance v w := norm (v.x - w.x) (v.y - w.y) (v.z - w.z)
  angularDistance := angularDistance
  uninit := ⟨0, 0, 0, 0⟩

theorem angularDistance_self (q : Quaterniond ℝ) : angularDistance q q = 0 := by
  have hx : (mulConjugate q q).x = 0 := by
    simp only [mulConjugate]
    ring
  have hy : (mulConjugate q q).y = 0 := by
    simp only [mulConjugate]
    ring
  have hz : (mulConjugate q q).z = 0 := by
    simp only [mulConjugate]
    ring
  have harg (x : ℝ) (h : 0 ≤ x) : atan2 0 x = 0 := Complex.arg_ofReal_of_nonneg h
  rw [angularDistance, hx, hy, hz, norm_zero, harg _ (abs_nonneg _), mul_zero]

scoped instance : ExactDistance ℝ where
  vectorDistance_self {v} _ := by
    change norm (v.x - v.x) (v.y - v.y) (v.z - v.z) = 0
    rw [sub_self, sub_self, sub_self, norm_zero]
  angularDistance_self {q} _ := angularDistance_self q

/-- Nothing is at a distance from the zero quaternion. -/
theorem angularDistance_zero (q : Quaterniond ℝ) : angularDistance ⟨0, 0, 0, 0⟩ q = 0 := by
  have hd : mulConjugate ⟨0, 0, 0, 0⟩ q = ⟨0, 0, 0, 0⟩ := by
    simp [mulConjugate]
  rw [angularDistance, hd]
  dsimp only
  rw [norm_zero, abs_zero, atan2]
  change ((2 : ℕ) : ℝ) * Complex.arg 0 = 0
  rw [Complex.arg_zero, mul_zero]

/-- A half turn about the first axis. -/
def halfTurn : Quaterniond ℝ := ⟨1, 0, 0, 0⟩

theorem angularDistance_halfTurn : angularDistance Quaterniond.identity halfTurn = Real.pi := by
  have hd : mulConjugate Quaterniond.identity halfTurn = ⟨-1, 0, 0, 0⟩ := by
    simp [mulConjugate, Quaterniond.identity, halfTurn]
  have hnorm : norm (-1) 0 0 = 1 := by simp [norm]
  rw [angularDistance, hd]
  dsimp only
  rw [hnorm, abs_zero, atan2]
  change ((2 : ℕ) : ℝ) * Complex.arg Complex.I = Real.pi
  rw [Complex.arg_I]
  push_cast
  ring

end Angle

end Open3DStream
