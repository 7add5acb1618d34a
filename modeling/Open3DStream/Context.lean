import Open3DStream.Math

namespace Open3DStream

inductive Direction where
  | Unknown | Left | Right | Forward | Back | Up | Down | Last
deriving DecidableEq

/-- `other` holds a code outside the enumeration, which `parse` can cast in. -/
inductive DistanceUnit where
  | Unknown | Millimeter | Centimeter | Meter | Kilometer | Inch | Foot | Mile | LightYear | Parsec
  | other (code : Int)
deriving DecidableEq

structure Context where
  mX : Direction
  mY : Direction
  mZ : Direction
  mDistance : DistanceUnit
deriving DecidableEq

/-- The default constructor leaves everything unknown. -/
def Context.unknown : Context := ⟨.Unknown, .Unknown, .Unknown, .Unknown⟩

def axisId : Direction → Nat
  | .Left | .Right => 1
  | .Up | .Down => 2
  | .Forward | .Back => 3
  | .Unknown | .Last => 0

def Context.valid (c : Context) : Bool :=
  if c.mX = .Unknown ∨ c.mY = .Unknown ∨ c.mZ = .Unknown ∨ c.mDistance = .Unknown then false
  else if axisId c.mX = 0 ∨ axisId c.mY = 0 ∨ axisId c.mZ = 0 then false
  else if axisId c.mX = axisId c.mY ∨ axisId c.mX = axisId c.mZ ∨ axisId c.mY = axisId c.mZ then false
  else true

def Context.axis (c : Context) : Fin 3 → Direction
  | 0 => c.mX
  | 1 => c.mY
  | 2 => c.mZ

/-- The unit ratios are exact rationals instead of `float` constants. -/
def unitToMetres : DistanceUnit → ℚ
  | .Millimeter => 1 / 1000
  | .Centimeter => 1 / 100
  | .Meter => 1
  | .Kilometer => 1000
  | .Inch => 254 / 10000
  | .Foot => 3048 / 10000
  | .Mile => 1609344 / 1000
  | .LightYear => 9461 * 10 ^ 12
  | .Parsec => 3086 * 10 ^ 13
  | .Unknown | .other _ => 1

structure ConversionContext where
  axisRemap : Fin 3 → Fin 3
  axisSign : Fin 3 → ℚ
  unitScale : ℚ
  mBasis : Fin 4 → Fin 4 → ℚ
  mBasisInv : Fin 4 → Fin 4 → ℚ
  mValid : Bool
deriving DecidableEq

/-- The first source axis with the wanted axis id. -/
def findSource (src : Context) (id : Nat) : Option (Fin 3) :=
  if axisId src.mX = id then some 0
  else if axisId src.mY = id then some 1
  else if axisId src.mZ = id then some 2
  else none

structure Conversion where
  axisRemap : Fin 3 → Fin 3
  axisSign : Fin 3 → ℚ
  unitScale : ℚ

def Context.computeConversion (dst src : Context) : Option Conversion :=
  if !dst.valid || !src.valid then none
  else do
    let x ← findSource src (axisId dst.mX)
    let y ← findSource src (axisId dst.mY)
    let z ← findSource src (axisId dst.mZ)
    let remap : Fin 3 → Fin 3 := fun | 0 => x | 1 => y | 2 => z
    some ⟨remap, fun i => if src.axis (remap i) = dst.axis i then 1 else -1,
      unitToMetres src.mDistance / unitToMetres dst.mDistance⟩

/-- The components in their order. -/
def Vector3d.array {α : Type} (v : Vector3d α) : Fin 3 → α
  | 0 => v.x
  | 1 => v.y
  | 2 => v.z

namespace ConversionContext

/-- Each destination axis draws from its source axis; `mBasisInv` is the transpose. -/
def Initialize (c : ConversionContext) : ConversionContext :=
  let basis : Fin 4 → Fin 4 → ℚ := fun i j =>
    if h : i.val < 3 then
      if j.val = (c.axisRemap ⟨i, h⟩).val then c.axisSign ⟨i, h⟩ else 0
    else if j.val = 3 then 1 else 0
  { c with mBasis := basis, mBasisInv := fun i j => basis j i }

def make (src dst : Context) : ConversionContext :=
  match dst.computeConversion src with
  | some k => Initialize ⟨k.axisRemap, k.axisSign, k.unitScale, fun _ _ => 0, fun _ _ => 0, true⟩
  | none => Initialize ⟨id, fun _ => 1, 1, fun _ _ => 0, fun _ _ => 0, false⟩

def IsValid (c : ConversionContext) : Bool := c.mValid

def isIdentity (c : ConversionContext) : Bool :=
  decide (c.axisRemap 0 = 0) && decide (c.axisRemap 1 = 1) && decide (c.axisRemap 2 = 2) &&
    decide (c.axisSign 0 = 1) && decide (c.axisSign 1 = 1) && decide (c.axisSign 2 = 1) &&
    decide (c.unitScale = 1)

variable {α β : Type} [Numeric α β]

/-- Unit scale on the translation column, then the change of basis. -/
def convertMatrix (c : ConversionContext) (m : Matrix α) : Matrix α :=
  let scaled : Matrix α := ⟨fun i j =>
    if j.val = 3 ∧ i.val ≠ 3 then m.coeff i j * Numeric.ofRat c.unitScale else m.coeff i j⟩
  let basis : Matrix α := ⟨fun i j => Numeric.ofRat (c.mBasis i j)⟩
  let basisInv : Matrix α := ⟨fun i j => Numeric.ofRat (c.mBasisInv i j)⟩
  basis * scaled * basisInv

def convertTranslation (c : ConversionContext) (t : Vector3d α) : Vector3d α :=
  let src := t.array
  let x := src (c.axisRemap 0) * Numeric.ofRat (c.axisSign 0) * Numeric.ofRat c.unitScale
  let y := src (c.axisRemap 1) * Numeric.ofRat (c.axisSign 1) * Numeric.ofRat c.unitScale
  let z := src (c.axisRemap 2) * Numeric.ofRat (c.axisSign 2) * Numeric.ofRat c.unitScale
  ⟨x, y, z⟩

/-- The imaginary part is permuted like a translation; the real part is negated where the
determinant of the permutation with its signs is negative. -/
def convertRotation (c : ConversionContext) (q : Quaterniond α) : Quaterniond α :=
  let src := (⟨q.x, q.y, q.z⟩ : Vector3d α).array
  let x := src (c.axisRemap 0) * Numeric.ofRat (c.axisSign 0)
  let y := src (c.axisRemap 1) * Numeric.ofRat (c.axisSign 1)
  let z := src (c.axisRemap 2) * Numeric.ofRat (c.axisSign 2)
  let signProduct := c.axisSign 0 * c.axisSign 1 * c.axisSign 2
  let r := c.axisRemap
  let inv := (if r 1 < r 0 then 1 else 0) + (if r 2 < r 0 then 1 else 0) +
    (if r 2 < r 1 then 1 else 0)
  let permSign : ℚ := if inv % 2 = 0 then 1 else -1
  let w := if signProduct * permSign < 0 then 0 - q.w else q.w
  ⟨x, y, z, w⟩

/-- Without signs, so that a scale stays positive. -/
def convertScale (c : ConversionContext) (s : Vector3d α) : Vector3d α :=
  let src := s.array
  ⟨src (c.axisRemap 0), src (c.axisRemap 1), src (c.axisRemap 2)⟩

end ConversionContext

theorem axisId_cases (d : Direction) : axisId d = 0 ∨ axisId d = 1 ∨ axisId d = 2 ∨ axisId d = 3 := by
  cases d <;> simp [axisId]

theorem valid_axes {c : Context} (h : c.valid = true) :
    (axisId c.mX ≠ 0 ∧ axisId c.mY ≠ 0 ∧ axisId c.mZ ≠ 0) ∧
      axisId c.mX ≠ axisId c.mY ∧ axisId c.mX ≠ axisId c.mZ ∧ axisId c.mY ≠ axisId c.mZ := by
  rw [Context.valid] at h
  split at h
  · cases h
  · split at h
    · cases h
    · split at h
      · cases h
      · simp_all

/-- Three pairwise distinct axis ids are all of 1, 2 and 3. -/
theorem findSource_of_valid {c : Context} (h : c.valid = true) {id : Nat} (h0 : id ≠ 0) (h3 : id ≤ 3) :
    ∃ k, findSource c id = some k := by
  obtain ⟨⟨hx, hy, hz⟩, hxy, hxz, hyz⟩ := valid_axes h
  have cx := axisId_cases c.mX
  have cy := axisId_cases c.mY
  have cz := axisId_cases c.mZ
  have hid : axisId c.mX = id ∨ axisId c.mY = id ∨ axisId c.mZ = id := by omega
  rw [findSource]
  split
  · exact ⟨0, rfl⟩
  · split
    · exact ⟨1, rfl⟩
    · exact ⟨2, by simp_all⟩

theorem computeConversion_isSome (dst src : Context) :
    (dst.computeConversion src).isSome = (dst.valid && src.valid) := by
  rw [Context.computeConversion]
  by_cases ht : dst.valid = true
  · by_cases hs : src.valid = true
    · obtain ⟨⟨hx, hy, hz⟩, -⟩ := valid_axes ht
      have bound (d : Direction) : axisId d ≤ 3 := by cases d <;> simp [axisId]
      obtain ⟨x, hx⟩ := findSource_of_valid hs hx (bound _)
      obtain ⟨y, hy⟩ := findSource_of_valid hs hy (bound _)
      obtain ⟨z, hz⟩ := findSource_of_valid hs hz (bound _)
      simp [ht, hs, hx, hy, hz]
    · simp [hs]
  · simp [ht]

/-- A conversion is valid exactly when both of its contexts are. -/
theorem IsValid_make (src dst : Context) :
    (ConversionContext.make src dst).IsValid = (dst.valid && src.valid) := by
  have h := computeConversion_isSome dst src
  rw [ConversionContext.make]
  cases hc : dst.computeConversion src with
  | some k => rw [hc] at h; simpa [ConversionContext.IsValid, ConversionContext.Initialize] using h
  | none => rw [hc] at h; simpa [ConversionContext.IsValid, ConversionContext.Initialize] using h

end Open3DStream
