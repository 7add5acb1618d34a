import Mathlib.Algebra.Ring.Defs
import Mathlib.Order.Defs.LinearOrder
import Mathlib.Data.Rat.Defs
import Mathlib.Data.Fintype.Pi

namespace Open3DStream

@[ext] structure Vector3d (α : Type) where
  x : α
  y : α
  z : α
deriving DecidableEq

@[ext] structure Quaterniond (α : Type) where
  x : α
  y : α
  z : α
  w : α
deriving DecidableEq

@[ext] structure Matrix (α : Type) where
  coeff : Fin 4 → Fin 4 → α
deriving DecidableEq

/-- The numbers of the program: `α` is `double` and `β` is `float`. No law of
arithmetic is assumed, so rounding and overflow are allowed; `uninit` is what a
constructor that leaves a quaternion unset finds in memory. -/
class Numeric (α : Type) (β : outParam Type) extends
    Zero α, One α, Add α, Sub α, Mul α, LinearOrder α where
  isFinite : α → Bool
  finite_zero : isFinite 0 = true
  finite_one : isFinite 1 = true
  floatZero : β
  narrow : α → β
  widen : β → α
  ofRat : ℚ → α
  vectorDistance : Vector3d α → Vector3d α → α
  angularDistance : Quaterniond α → Quaterniond α → α
  uninit : Quaterniond α

/-- Finite values stay finite under the operations of the matrix products, so that
nothing overflows. -/
class ExactArith (α : Type) {β : Type} [Numeric α β] : Prop where
  finite_add {a b : α} : Numeric.isFinite a = true → Numeric.isFinite b = true →
    Numeric.isFinite (a + b) = true
  finite_sub {a b : α} : Numeric.isFinite a = true → Numeric.isFinite b = true →
    Numeric.isFinite (a - b) = true
  finite_mul {a b : α} : Numeric.isFinite a = true → Numeric.isFinite b = true →
    Numeric.isFinite (a * b) = true
  finite_ofRat (q : ℚ) : Numeric.isFinite (Numeric.ofRat q : α) = true

variable {α β : Type} [Numeric α β]

open Numeric

def Vector3d.map {γ δ : Type} (f : γ → δ) (v : Vector3d γ) : Vector3d δ := ⟨f v.x, f v.y, f v.z⟩

def Quaterniond.map {γ δ : Type} (f : γ → δ) (q : Quaterniond γ) : Quaterniond δ :=
  ⟨f q.x, f q.y, f q.z, f q.w⟩

def Matrix.map {γ δ : Type} (f : γ → δ) (m : Matrix γ) : Matrix δ := ⟨fun i j => f (m.coeff i j)⟩

def Vector3d.zero : Vector3d α := ⟨0, 0, 0⟩

def Vector3d.allFinite (v : Vector3d α) : Bool := isFinite v.x && isFinite v.y && isFinite v.z

def Quaterniond.identity : Quaterniond α := ⟨0, 0, 0, 1⟩

/-- `coeffs().allFinite()`. -/
def Quaterniond.allFinite (q : Quaterniond α) : Bool :=
  isFinite q.x && isFinite q.y && isFinite q.z && isFinite q.w

/-- A finite value is at no distance from itself. -/
class ExactDistance (α : Type) {β : Type} [Numeric α β] : Prop where
  vectorDistance_self {v : Vector3d α} : v.allFinite = true → vectorDistance v v = 0
  angularDistance_self {q : Quaterniond α} : q.allFinite = true → angularDistance q q = 0

namespace Matrix

def identity : Matrix α := ⟨fun i j => if i = j then 1 else 0⟩

instance : Mul (Matrix α) where
  mul a b := ⟨fun i j => a.coeff i 0 * b.coeff 0 j + a.coeff i 1 * b.coeff 1 j +
    a.coeff i 2 * b.coeff 2 j + a.coeff i 3 * b.coeff 3 j⟩

theorem mul_coeff (a b : Matrix α) (i j : Fin 4) : (a * b).coeff i j =
    a.coeff i 0 * b.coeff 0 j + a.coeff i 1 * b.coeff 1 j +
      a.coeff i 2 * b.coeff 2 j + a.coeff i 3 * b.coeff 3 j := rfl

def allFinite (m : Matrix α) : Bool := decide (∀ i j, isFinite (m.coeff i j) = true)

theorem allFinite_iff (m : Matrix α) : m.allFinite = true ↔ ∀ i j, isFinite (m.coeff i j) = true := by
  simp [allFinite]

theorem allFinite_identity : (identity : Matrix α).allFinite = true := by
  rw [allFinite_iff]
  intro i j
  by_cases h : i = j
  · simpa [identity, h] using finite_one (α := α)
  · simpa [identity, h] using finite_zero (α := α)

theorem allFinite_mul [ExactArith α] {a b : Matrix α} (ha : a.allFinite = true)
    (hb : b.allFinite = true) : (a * b).allFinite = true := by
  rw [allFinite_iff] at ha hb ⊢
  intro i j
  rw [mul_coeff]
  have h (k : Fin 4) : isFinite (a.coeff i k * b.coeff k j) = true :=
    ExactArith.finite_mul (ha i k) (hb k j)
  exact ExactArith.finite_add (ExactArith.finite_add (ExactArith.finite_add (h 0) (h 1)) (h 2)) (h 3)

theorem allFinite_foldl [ExactArith α] {ms : List (Matrix α)} (h : ∀ a ∈ ms, a.allFinite = true)
    {m : Matrix α} (hm : m.allFinite = true) : (ms.foldl (· * ·) m).allFinite = true := by
  induction ms generalizing m with
  | nil => exact hm
  | cons a ms ih =>
    obtain ⟨ha, hms⟩ := List.forall_mem_cons.mp h
    exact ih hms (allFinite_mul hm ha)

end Matrix

/-- `toRotationMatrix` in the order of its terms, as the upper left block. -/
def fromQuaternion (q : Quaterniond α) : Matrix α :=
  let tx := q.x + q.x
  let ty := q.y + q.y
  let tz := q.z + q.z
  let twx := tx * q.w
  let twy := ty * q.w
  let twz := tz * q.w
  let txx := tx * q.x
  let txy := ty * q.x
  let txz := tz * q.x
  let tyy := ty * q.y
  let tyz := tz * q.y
  let tzz := tz * q.z
  ⟨fun
    | 0, 0 => 1 - (tyy + tzz)
    | 0, 1 => txy - twz
    | 0, 2 => txz + twy
    | 1, 0 => txy + twz
    | 1, 1 => 1 - (txx + tzz)
    | 1, 2 => tyz - twx
    | 2, 0 => txz - twy
    | 2, 1 => tyz + twx
    | 2, 2 => 1 - (txx + tyy)
    | i, j => Matrix.identity.coeff i j⟩

def scale (s : Vector3d α) : Matrix α :=
  ⟨fun
    | 0, 0 => s.x
    | 1, 1 => s.y
    | 2, 2 => s.z
    | i, j => Matrix.identity.coeff i j⟩

def translate (t : Vector3d α) : Matrix α :=
  ⟨fun
    | 0, 3 => t.x
    | 1, 3 => t.y
    | 2, 3 => t.z
    | i, j => Matrix.identity.coeff i j⟩

theorem allFinite_translate {t : Vector3d α} (h : t.allFinite = true) :
    (translate t).allFinite = true := by
  simp only [Vector3d.allFinite, Bool.and_eq_true] at h
  have hi := Matrix.allFinite_identity (α := α)
  rw [Matrix.allFinite_iff] at hi ⊢
  intro i j
  simp only [translate]
  split
  · exact h.1.1
  · exact h.1.2
  · exact h.2
  · exact hi _ _

theorem allFinite_scale {s : Vector3d α} (h : s.allFinite = true) :
    (scale s).allFinite = true := by
  simp only [Vector3d.allFinite, Bool.and_eq_true] at h
  have hi := Matrix.allFinite_identity (α := α)
  rw [Matrix.allFinite_iff] at hi ⊢
  intro i j
  simp only [scale]
  split
  · exact h.1.1
  · exact h.1.2
  · exact h.2
  · exact hi _ _

theorem allFinite_fromQuaternion [ExactArith α] {q : Quaterniond α} (h : q.allFinite = true) :
    (fromQuaternion q).allFinite = true := by
  simp only [Quaterniond.allFinite, Bool.and_eq_true] at h
  obtain ⟨⟨⟨hx, hy⟩, hz⟩, hw⟩ := h
  have tx := ExactArith.finite_add hx hx
  have ty := ExactArith.finite_add hy hy
  have tz := ExactArith.finite_add hz hz
  have diagonal {a b : α} (ha : isFinite a = true) (hb : isFinite b = true) :
      isFinite (1 - (a + b)) = true :=
    ExactArith.finite_sub finite_one (ExactArith.finite_add ha hb)
  have hi := Matrix.allFinite_identity (α := α)
  rw [Matrix.allFinite_iff] at hi ⊢
  intro i j
  simp only [fromQuaternion]
  split
  · exact diagonal (ExactArith.finite_mul ty hy) (ExactArith.finite_mul tz hz)
  · exact ExactArith.finite_sub (ExactArith.finite_mul ty hx) (ExactArith.finite_mul tz hw)
  · exact ExactArith.finite_add (ExactArith.finite_mul tz hx) (ExactArith.finite_mul ty hw)
  · exact ExactArith.finite_add (ExactArith.finite_mul ty hx) (ExactArith.finite_mul tz hw)
  · exact diagonal (ExactArith.finite_mul tx hx) (ExactArith.finite_mul tz hz)
  · exact ExactArith.finite_sub (ExactArith.finite_mul tz hy) (ExactArith.finite_mul tx hw)
  · exact ExactArith.finite_sub (ExactArith.finite_mul tz hx) (ExactArith.finite_mul ty hw)
  · exact ExactArith.finite_add (ExactArith.finite_mul tz hy) (ExactArith.finite_mul tx hw)
  · exact diagonal (ExactArith.finite_mul tx hx) (ExactArith.finite_mul ty hy)
  · exact hi _ _

end Open3DStream
