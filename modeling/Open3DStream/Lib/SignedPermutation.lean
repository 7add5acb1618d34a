import Mathlib.Algebra.BigOperators.Fin
import Mathlib.Algebra.BigOperators.Ring.Finset
import Mathlib.Data.Fintype.Pi
import Mathlib.Logic.Equiv.Fin.Rotate
import Mathlib.Tactic.FinCases
import Mathlib.Tactic.LinearCombination
import Mathlib.Tactic.Ring

/-! Changes of basis that permute the axes and turn some of them round. -/

namespace Open3DStream.Lib

variable {ι R : Type} [Fintype ι] [DecidableEq ι] [CommRing R]

def matMul (m n : ι → ι → R) : ι → ι → R := fun i j => ∑ k, m i k * n k j

/-- Row `i` has `s i` in column `r i`. -/
def signedBasis (r : ι → ι) (s : ι → R) : ι → ι → R := fun i j => if j = r i then s i else 0

/-- Axis `i` is drawn from axis `r i`. -/
def reorient (r : ι → ι) (s : ι → R) (m : ι → ι → R) : ι → ι → R :=
  fun i j => s i * m (r i) (r j) * s j

/-- The basis matrix and its transpose reorient a matrix. -/
theorem matMul_signedBasis (r : ι → ι) (s : ι → R) (m : ι → ι → R) :
    matMul (matMul (signedBasis r s) m) (fun i j => signedBasis r s j i) = reorient r s m := by
  have hrow (i : ι) (f : ι → R) : ∑ k, (if k = r i then s i else 0) * f k = s i * f (r i) := by
    simp only [ite_mul, zero_mul, Finset.sum_ite_eq', Finset.mem_univ, if_true]
  funext i j
  simp only [matMul, signedBasis, reorient, hrow]
  rw [Finset.sum_congr rfl fun k _ => mul_comm _ _, hrow, mul_comm]

/-- Signs are their own inverses. -/
def Signs (s : ι → R) : Prop := ∀ i, s i * s i = 1

omit [DecidableEq ι] in
/-- A product of matrices is reoriented factor by factor. -/
theorem matMul_reorient {r : ι → ι} (hr : Function.Bijective r) {s : ι → R} (hs : Signs s)
    (m n : ι → ι → R) :
    matMul (reorient r s m) (reorient r s n) = reorient r s (matMul m n) := by
  funext i j
  have hsum := hr.sum_comp fun k => m (r i) k * n k (r j)
  simp only [matMul, reorient, ← hsum, Finset.mul_sum, Finset.sum_mul]
  apply Finset.sum_congr rfl
  intro k _
  linear_combination s i * m (r i) (r k) * n (r k) (r j) * s j * hs k

omit [Fintype ι] [DecidableEq ι] in
/-- One reorientation after the other. -/
theorem reorient_reorient (r r' : ι → ι) (s s' : ι → R) (m : ι → ι → R) :
    reorient r' s' (reorient r s m) = reorient (r ∘ r') (fun i => s' i * s (r' i)) m := by
  funext i j
  simp only [reorient, Function.comp_apply]
  ring

/-! ### Rotations of three axes -/

/-- The rotation matrix of the quaternion with the imaginary part `v` and the real part `w`. The axes
are taken in their cyclic order. -/
def rotation (v : Fin 3 → R) (w : R) : Fin 3 → Fin 3 → R := fun i j =>
  let next := finRotate 3
  let twice := fun x : R => x + x
  if j = i then 1 - twice (v (next i) * v (next i) + v (next (next i)) * v (next (next i)))
  else if j = next i then twice (v i * v j - w * v (next (next i)))
  else twice (v i * v j + w * v (next i))

/-- Whether the reorientation keeps the hand of the axes, as `1` or `-1`. -/
def hand (r : Fin 3 → Fin 3) (s : Fin 3 → R) : R :=
  (if ∀ i, r (finRotate 3 i) = finRotate 3 (r i) then 1 else -1) * ∏ i, s i

theorem rotation_eq (v : Fin 3 → R) (w : R) (i j : Fin 3) : rotation v w i j =
    if j = i then 1 - 2 * (v (i + 1) * v (i + 1) + v (i + 2) * v (i + 2))
    else if j = i + 1 then 2 * (v i * v j - w * v (i + 2))
    else 2 * (v i * v j + w * v (i + 1)) := by
  have htwo : i + 1 + 1 = i + 2 := by
    revert i
    decide
  simp only [rotation, finRotate_apply, htwo, two_mul]

/-- A bijection of three axes keeps their cyclic order or reverses it. -/
theorem cyclic_or_reversed (r : Fin 3 → Fin 3) (hr : Function.Injective r) :
    (r 1 = r 0 + 1 ∧ ∀ i, r (i + 1) = r i + 1) ∨ (r 1 ≠ r 0 + 1 ∧ ∀ i, r (i + 1) = r i + 2) := by
  revert r
  decide

theorem hand_eq {r : Fin 3 → Fin 3} (hr : Function.Injective r) (s : Fin 3 → R) :
    hand r s = (if r 1 = r 0 + 1 then 1 else -1) * (s 0 * s 1 * s 2) := by
  have hiff : (∀ i, r (finRotate 3 i) = finRotate 3 (r i)) ↔ r 1 = r 0 + 1 := by
    simp only [finRotate_apply]
    refine ⟨fun h => h 0, fun h => ?_⟩
    obtain ⟨-, hnext⟩ | ⟨hne, -⟩ := cyclic_or_reversed r hr
    · exact hnext
    · exact absurd h hne
  rw [hand, Fin.prod_univ_three]
  exact congrArg (· * _) (if_congr hiff rfl rfl)

theorem product_cyclic (s : Fin 3 → R) (i : Fin 3) :
    s 0 * s 1 * s 2 = s i * s (i + 1) * s (i + 2) := by
  fin_cases i
  · rfl
  · change s 0 * s 1 * s 2 = s 1 * s 2 * s 0
    ring
  · change s 0 * s 1 * s 2 = s 2 * s 0 * s 1
    ring

theorem rotation_self (v : Fin 3 → R) (w : R) (i : Fin 3) :
    rotation v w i i = 1 - 2 * (v (i + 1) * v (i + 1) + v (i + 2) * v (i + 2)) := by
  rw [rotation_eq, if_pos rfl]

theorem rotation_next (v : Fin 3 → R) (w : R) (i : Fin 3) :
    rotation v w i (i + 1) = 2 * (v i * v (i + 1) - w * v (i + 2)) := by
  have hne : i + 1 ≠ i := by
    revert i
    decide
  rw [rotation_eq, if_neg hne, if_pos rfl]

theorem rotation_previous (v : Fin 3 → R) (w : R) (i : Fin 3) :
    rotation v w i (i + 2) = 2 * (v i * v (i + 2) + w * v (i + 1)) := by
  have hne : i + 2 ≠ i ∧ i + 2 ≠ i + 1 := by
    revert i
    decide
  rw [rotation_eq, if_neg hne.1, if_neg hne.2]

omit [CommRing R] in
/-- Two matrices over three axes are equal when their cyclic diagonals are. -/
theorem ext_cyclic {m n : Fin 3 → Fin 3 → R} (h0 : ∀ i, m i i = n i i)
    (h1 : ∀ i, m i (i + 1) = n i (i + 1)) (h2 : ∀ i, m i (i + 2) = n i (i + 2)) : m = n := by
  funext i j
  have hj : j = i ∨ j = i + 1 ∨ j = i + 2 := by
    revert i j
    decide
  obtain rfl | rfl | rfl := hj
  · exact h0 _
  · exact h1 i
  · exact h2 i

/-- A rotation that is reoriented is the rotation about the reoriented axis, the other way round if
the hand changes. -/
theorem reorient_rotation {r : Fin 3 → Fin 3} (hr : Function.Injective r) {s : Fin 3 → R}
    (hs : Signs s) (v : Fin 3 → R) (w : R) :
    reorient r s (rotation v w) = rotation (fun i => s i * v (r i)) (hand r s * w) := by
  have htwo (i : Fin 3) : i + 1 + 1 = i + 2 ∧ i + 2 + 1 = i ∧ i + 2 + 2 = i + 1 := by
    revert i
    decide
  obtain ⟨heven, hnext⟩ | ⟨hodd, hnext⟩ := cyclic_or_reversed r hr
  · have hlast (i : Fin 3) : r (i + 2) = r i + 2 := by
      rw [← (htwo i).1, hnext, hnext, (htwo (r i)).1]
    have hhand : hand r s = s 0 * s 1 * s 2 := by rw [hand_eq hr, if_pos heven, one_mul]
    refine ext_cyclic (fun i => ?_) (fun i => ?_) fun i => ?_
    · rw [reorient, rotation_self, rotation_self, hnext, hlast]
      linear_combination (1 - 2 * (v (r i + 1) ^ 2 + v (r i + 2) ^ 2)) * hs i +
        2 * v (r i + 1) ^ 2 * hs (i + 1) + 2 * v (r i + 2) ^ 2 * hs (i + 2)
    · rw [reorient, hnext, rotation_next, rotation_next, hhand, product_cyclic s i, hnext, hlast]
      linear_combination 2 * s i * s (i + 1) * w * v (r i + 2) * hs (i + 2)
    · rw [reorient, hlast, rotation_previous, rotation_previous, hhand, product_cyclic s i, hnext,
        hlast]
      linear_combination -2 * s i * s (i + 2) * w * v (r i + 1) * hs (i + 1)
  · have hlast (i : Fin 3) : r (i + 2) = r i + 1 := by
      rw [← (htwo i).1, hnext, hnext, (htwo (r i)).2.2]
    have hhand : hand r s = -(s 0 * s 1 * s 2) := by rw [hand_eq hr, if_neg hodd, neg_one_mul]
    refine ext_cyclic (fun i => ?_) (fun i => ?_) fun i => ?_
    · rw [reorient, rotation_self, rotation_self, hnext, hlast]
      linear_combination (1 - 2 * (v (r i + 1) ^ 2 + v (r i + 2) ^ 2)) * hs i +
        2 * v (r i + 2) ^ 2 * hs (i + 1) + 2 * v (r i + 1) ^ 2 * hs (i + 2)
    · rw [reorient, hnext, rotation_previous, rotation_next, hhand, product_cyclic s i, hnext, hlast]
      linear_combination -2 * s i * s (i + 1) * w * v (r i + 1) * hs (i + 2)
    · rw [reorient, hlast, rotation_next, rotation_previous, hhand, product_cyclic s i, hnext, hlast]
      linear_combination 2 * s i * s (i + 2) * w * v (r i + 2) * hs (i + 1)

end Open3DStream.Lib
