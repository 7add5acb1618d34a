import Open3DStream.Context
import Open3DStream.Exact
import Open3DStream.Lib.SignedPermutation

/-! Conversions from one coordinate system to another. -/

namespace Open3DStream

open Lib Numeric

variable {α β : Type} [Numeric α β]

namespace ConversionContext

/-! ### What the tables hold -/

/-- The source of each row of the basis matrix. -/
def slot (c : ConversionContext) : Fin 4 → Fin 4 :=
  Fin.lastCases (Fin.last 3) fun k => (c.axisRemap k).castSucc

def slotSign (c : ConversionContext) : Fin 4 → ℚ := Fin.lastCases 1 c.axisSign

@[simp] theorem slot_castSucc (c : ConversionContext) (k : Fin 3) :
    c.slot k.castSucc = (c.axisRemap k).castSucc := Fin.lastCases_castSucc k

@[simp] theorem slot_last (c : ConversionContext) : c.slot (Fin.last 3) = Fin.last 3 :=
  Fin.lastCases_last

@[simp] theorem slotSign_castSucc (c : ConversionContext) (k : Fin 3) :
    c.slotSign k.castSucc = c.axisSign k := Fin.lastCases_castSucc k

@[simp] theorem slotSign_last (c : ConversionContext) : c.slotSign (Fin.last 3) = 1 :=
  Fin.lastCases_last

theorem isIdentity_iff (c : ConversionContext) : c.isIdentity = true ↔
    (∀ i, c.axisRemap i = i) ∧ (∀ i, c.axisSign i = 1) ∧ c.unitScale = 1 := by
  simp only [isIdentity, Bool.and_eq_true, decide_eq_true_eq, Fin.forall_fin_succ, Fin.forall_fin_zero]
  tauto

end ConversionContext

/-- The tables are those of the conversion from `src` to `dst`. -/
structure Converts (src dst : Context) (c : ConversionContext) : Prop where
  remap : ∀ i, axisId (src.axis (c.axisRemap i)) = axisId (dst.axis i)
  sign : ∀ i, c.axisSign i = if src.axis (c.axisRemap i) = dst.axis i then 1 else -1
  unit : c.unitScale = unitToMetres src.mDistance / unitToMetres dst.mDistance
  basis : c.mBasis = signedBasis c.slot c.slotSign
  basisInv : c.mBasisInv = fun i j => c.mBasis j i

theorem axisId_of_findSource {src : Context} {id : Nat} {k : Fin 3}
    (h : findSource src id = some k) : axisId (src.axis k) = id := by
  rw [findSource] at h
  split at h
  · cases h
    assumption
  split at h
  · cases h
    assumption
  split at h
  · cases h
    assumption
  · cases h

theorem basis_initialize (c : ConversionContext) :
    c.Initialize.mBasis = signedBasis c.slot c.slotSign := by
  funext i j
  rw [signedBasis, ConversionContext.Initialize]
  induction i using Fin.lastCases with
  | last =>
    rw [c.slot_last, c.slotSign_last]
    simp only [Fin.ext_iff]
    rfl
  | cast k =>
    rw [c.slot_castSucc, c.slotSign_castSucc]
    simp only [Fin.ext_iff, Fin.val_castSucc, k.isLt, dite_true]

theorem converts_make {src dst : Context} (hs : src.valid = true) (hd : dst.valid = true) :
    Converts src dst (ConversionContext.make src dst) := by
  have hsome := computeConversion_isSome dst src
  rw [hs, hd] at hsome
  obtain ⟨k, hk⟩ := Option.isSome_iff_exists.mp hsome
  rw [ConversionContext.make, hk]
  rw [Context.computeConversion, hs, hd] at hk
  simp only [Bool.not_true, Bool.or_self, Bool.false_eq_true, if_false, Option.bind_eq_bind,
    Option.bind_eq_some_iff] at hk
  obtain ⟨x, hx, y, hy, z, hz, hk⟩ := hk
  cases hk
  refine ⟨fun i => ?_, fun i => rfl, rfl, basis_initialize _, rfl⟩
  fin_cases i
  · exact axisId_of_findSource hx
  · exact axisId_of_findSource hy
  · exact axisId_of_findSource hz

theorem axisId_ne_zero {c : Context} (h : c.valid = true) (i : Fin 3) : axisId (c.axis i) ≠ 0 := by
  obtain ⟨⟨hx, hy, hz⟩, -⟩ := valid_axes h
  fin_cases i
  · exact hx
  · exact hy
  · exact hz

/-- The axes of a valid context are told apart by their ids. -/
theorem axisId_injective {c : Context} (h : c.valid = true) :
    Function.Injective fun i => axisId (c.axis i) := by
  obtain ⟨-, hxy, hxz, hyz⟩ := valid_axes h
  intro i j hij
  fin_cases i <;> fin_cases j <;> first | rfl | exact absurd hij ‹_› | exact absurd hij.symm ‹_›

theorem unitToMetres_ne_zero (u : DistanceUnit) : unitToMetres u ≠ 0 := by
  cases u <;> rw [unitToMetres] <;> norm_num

def opposite : Direction → Direction
  | .Left => .Right
  | .Right => .Left
  | .Up => .Down
  | .Down => .Up
  | .Forward => .Back
  | .Back => .Forward
  | d => d

/-- An axis has two directions. -/
theorem eq_opposite {d e : Direction} (h : axisId d = axisId e) (h0 : axisId e ≠ 0) (hne : d ≠ e) :
    d = opposite e := by
  cases e <;> cases d <;> first | rfl | exact absurd rfl h0 | exact absurd rfl hne | cases h

namespace Converts

variable {A B C : Context} {c d e : ConversionContext}

theorem remap_injective (h : Converts A B c) (hB : B.valid = true) :
    Function.Injective c.axisRemap := by
  intro i j hij
  apply axisId_injective hB
  dsimp only
  rw [← h.remap i, ← h.remap j, hij]

theorem sign_cases (h : Converts A B c) (i : Fin 3) : c.axisSign i = 1 ∨ c.axisSign i = -1 := by
  rw [h.sign]
  split
  · exact .inl rfl
  · exact .inr rfl

/-- A conversion by way of `B` draws each axis from where the direct one does. -/
theorem remap_trans (h : Converts A B c) (h' : Converts B C d) (h'' : Converts A C e)
    (hA : A.valid = true) (i : Fin 3) : e.axisRemap i = c.axisRemap (d.axisRemap i) := by
  apply axisId_injective hA
  dsimp only
  rw [h''.remap, h.remap, h'.remap]

/-- The signs multiply, since an axis has two directions. -/
theorem sign_trans (h : Converts A B c) (h' : Converts B C d) (h'' : Converts A C e)
    (hA : A.valid = true) (hB : B.valid = true) (i : Fin 3) :
    e.axisSign i = d.axisSign i * c.axisSign (d.axisRemap i) := by
  have hAB := h.remap (d.axisRemap i)
  have hBC := h'.remap i
  have h0 := axisId_ne_zero hB (d.axisRemap i)
  rw [h.sign, h'.sign, h''.sign, h.remap_trans h' h'' hA]
  by_cases hab : A.axis (c.axisRemap (d.axisRemap i)) = B.axis (d.axisRemap i)
  · rw [hab, if_pos rfl, mul_one]
  · rw [if_neg hab]
    by_cases hbc : B.axis (d.axisRemap i) = C.axis i
    · rw [if_pos hbc, ← hbc, if_neg hab, one_mul]
    · have hac : A.axis (c.axisRemap (d.axisRemap i)) = C.axis i :=
        (eq_opposite hAB h0 hab).trans (eq_opposite hBC.symm h0 (Ne.symm hbc)).symm
      rw [if_neg hbc, if_pos hac, neg_one_mul, neg_neg]

theorem unit_trans (h : Converts A B c) (h' : Converts B C d) (h'' : Converts A C e) :
    e.unitScale = c.unitScale * d.unitScale := by
  rw [h.unit, h'.unit, h''.unit, div_mul_div_cancel₀ (unitToMetres_ne_zero B.mDistance)]

/-- A conversion from a context to itself does nothing. -/
theorem isIdentity (h : Converts A A c) (hA : A.valid = true) : c.isIdentity = true := by
  have hremap (i : Fin 3) : c.axisRemap i = i := axisId_injective hA (h.remap i)
  refine c.isIdentity_iff.mpr ⟨hremap, fun i => ?_, ?_⟩
  · rw [h.sign, hremap, if_pos rfl]
  · rw [h.unit, div_self (unitToMetres_ne_zero A.mDistance)]

/-! ### The four rows of the basis -/

theorem slot_trans (h : Converts A B c) (h' : Converts B C d) (h'' : Converts A C e)
    (hA : A.valid = true) (i : Fin 4) : e.slot i = c.slot (d.slot i) := by
  induction i using Fin.lastCases with
  | last => simp only [ConversionContext.slot_last]
  | cast k => simp only [ConversionContext.slot_castSucc, h.remap_trans h' h'' hA]

theorem slotSign_trans (h : Converts A B c) (h' : Converts B C d) (h'' : Converts A C e)
    (hA : A.valid = true) (hB : B.valid = true) (i : Fin 4) :
    e.slotSign i = d.slotSign i * c.slotSign (d.slot i) := by
  induction i using Fin.lastCases with
  | last => simp only [ConversionContext.slot_last, ConversionContext.slotSign_last, mul_one]
  | cast k =>
    simp only [ConversionContext.slot_castSucc, ConversionContext.slotSign_castSucc,
      h.sign_trans h' h'' hA hB]

theorem slot_bijective (h : Converts A B c) (hB : B.valid = true) : Function.Bijective c.slot := by
  apply Function.Injective.bijective_of_finite
  intro i j hij
  induction i using Fin.lastCases with
  | last =>
    induction j using Fin.lastCases with
    | last => rfl
    | cast l =>
      rw [c.slot_last, c.slot_castSucc] at hij
      exact absurd hij.symm (Fin.castSucc_ne_last _)
  | cast k =>
    induction j using Fin.lastCases with
    | last =>
      rw [c.slot_last, c.slot_castSucc] at hij
      exact absurd hij (Fin.castSucc_ne_last _)
    | cast l =>
      rw [c.slot_castSucc, c.slot_castSucc] at hij
      rw [h.remap_injective hB (Fin.castSucc_injective 3 hij)]

theorem slotSign_mul_self (h : Converts A B c) (i : Fin 4) : c.slotSign i * c.slotSign i = 1 := by
  induction i using Fin.lastCases with
  | last => rw [c.slotSign_last, mul_one]
  | cast k =>
    obtain hs | hs := h.sign_cases k
    · rw [c.slotSign_castSucc, hs, mul_one]
    · rw [c.slotSign_castSucc, hs, neg_one_mul, neg_neg]

end Converts

namespace ConversionContext

theorem slot_eq_last_iff (c : ConversionContext) (i : Fin 4) : (c.slot i).val = 3 ↔ i.val = 3 := by
  induction i using Fin.lastCases with
  | last => rw [c.slot_last]
  | cast k => exact c.slot_castSucc k ▸ iff_of_false (c.axisRemap k).isLt.ne k.isLt.ne

/-- The unit scale where it applies: in the rows of the axes of the last column. -/
def factor (c : ConversionContext) (i j : Fin 4) : ℚ := if j.val = 3 ∧ i.val ≠ 3 then c.unitScale else 1

theorem factor_slot (c d : ConversionContext) (i j : Fin 4) :
    c.factor (d.slot i) (d.slot j) = c.factor i j := by
  simp only [factor, d.slot_eq_last_iff, ne_eq]

theorem factor_last (c : ConversionContext) (j : Fin 4) : c.factor (Fin.last 3) j = 1 :=
  if_neg fun h => h.2 rfl

theorem factor_column (c : ConversionContext) (i : Fin 4) (j : Fin 3) : c.factor i j.castSucc = 1 :=
  if_neg fun h => j.isLt.ne h.1

theorem factor_castSucc (c : ConversionContext) (i k : Fin 3) (j : Fin 4) :
    c.factor i.castSucc j = c.factor k.castSucc j := by
  have hi : i.castSucc.val ≠ 3 := i.isLt.ne
  have hk : k.castSucc.val ≠ 3 := k.isLt.ne
  simp only [factor, hi, hk, ne_eq, not_false_eq_true, and_true]

end ConversionContext

theorem Vector3d.ext_array {v w : Vector3d α} (h : ∀ i, v.array i = w.array i) : v = w := by
  apply Vector3d.ext
  · exact h 0
  · exact h 1
  · exact h 2

theorem convertTranslation_array (c : ConversionContext) (t : Vector3d α) (i : Fin 3) :
    (c.convertTranslation t).array i =
      t.array (c.axisRemap i) * ofRat (c.axisSign i) * ofRat c.unitScale := by
  fin_cases i <;> rfl

/-! ### Over exact arithmetic -/

section exact

variable [ExactNumeric α]

local instance commRingConverted : CommRing α := ExactNumeric.commRing α

theorem Matrix.mul_coeff_eq (a b : Matrix α) : (a * b).coeff = matMul a.coeff b.coeff := by
  funext i j
  rw [Matrix.mul_coeff, matMul, Fin.sum_univ_four]

variable (α) in
/-- The signs of the basis matrix as numbers. -/
def ConversionContext.signs (c : ConversionContext) (i : Fin 4) : α := ofRat (c.slotSign i)

namespace Converts

variable {A B C : Context} {c d e : ConversionContext}

theorem signs (h : Converts A B c) : Signs (c.signs α) := by
  intro i
  rw [ConversionContext.signs]
  refine (ExactNumeric.ofRat_mul _ _).symm.trans ?_
  rw [h.slotSign_mul_self]
  exact ExactNumeric.ofRat_one

/-- Each entry is drawn from one entry, with its signs and its unit. -/
theorem convertMatrix_coeff (h : Converts A B c) (m : Matrix α) :
    (c.convertMatrix m).coeff =
      reorient c.slot (c.signs α) (fun i j => m.coeff i j * ofRat (c.factor i j)) := by
  have hbasis : (fun i j => (ofRat (c.mBasis i j) : α)) = signedBasis c.slot (c.signs α) := by
    funext i j
    rw [h.basis, signedBasis, signedBasis]
    split
    · rfl
    · exact ExactNumeric.ofRat_zero
  have hscaled : (fun i j => if j.val = 3 ∧ i.val ≠ 3 then m.coeff i j * ofRat c.unitScale
      else m.coeff i j) = fun i j => m.coeff i j * ofRat (c.factor i j) := by
    funext i j
    rw [ConversionContext.factor]
    split
    · rfl
    · rw [ExactNumeric.ofRat_one]
      exact (mul_one _).symm
  rw [ConversionContext.convertMatrix, Matrix.mul_coeff_eq, Matrix.mul_coeff_eq,
    ← matMul_signedBasis, ← hbasis, ← hscaled, h.basisInv]

theorem signs_trans (h : Converts A B c) (h' : Converts B C d) (h'' : Converts A C e)
    (hA : A.valid = true) (hB : B.valid = true) :
    e.signs α = fun i => d.signs α i * c.signs α (d.slot i) := by
  funext i
  rw [ConversionContext.signs, h.slotSign_trans h' h'' hA hB]
  exact ExactNumeric.ofRat_mul _ _

theorem factor_trans (h : Converts A B c) (h' : Converts B C d) (h'' : Converts A C e)
    (i j : Fin 4) : (ofRat (e.factor i j) : α) = ofRat (c.factor i j) * ofRat (d.factor i j) := by
  refine Eq.trans ?_ (ExactNumeric.ofRat_mul _ _)
  apply congrArg
  simp only [ConversionContext.factor]
  split
  · exact h.unit_trans h' h''
  · rw [mul_one]

theorem convertMatrix_trans (h : Converts A B c) (h' : Converts B C d) (h'' : Converts A C e)
    (hA : A.valid = true) (hB : B.valid = true) (m : Matrix α) :
    d.convertMatrix (c.convertMatrix m) = e.convertMatrix m := by
  have hscaled : (fun i j => reorient c.slot (c.signs α) (fun i j => m.coeff i j *
      ofRat (c.factor i j)) i j * ofRat (d.factor i j)) =
      reorient c.slot (c.signs α) fun i j => m.coeff i j * ofRat (e.factor i j) := by
    funext i j
    rw [reorient, reorient, h.factor_trans h' h'', d.factor_slot]
    ring
  apply Matrix.ext
  rw [h'.convertMatrix_coeff, h.convertMatrix_coeff, hscaled, reorient_reorient,
    h''.convertMatrix_coeff, h.signs_trans h' h'' hA hB]
  congr 1
  funext i
  exact (h.slot_trans h' h'' hA i).symm

theorem convertMatrix_of_isIdentity (h : Converts A B c) (hc : c.isIdentity = true)
    (m : Matrix α) : c.convertMatrix m = m := by
  obtain ⟨hremap, hsign, hunit⟩ := c.isIdentity_iff.mp hc
  have hslot (i : Fin 4) : c.slot i = i := by
    induction i using Fin.lastCases with
    | last => exact c.slot_last
    | cast k => rw [c.slot_castSucc, hremap]
  have hsigns (i : Fin 4) : c.signs α i = 1 := by
    rw [ConversionContext.signs]
    induction i using Fin.lastCases with
    | last => rw [c.slotSign_last]; exact ExactNumeric.ofRat_one
    | cast k => rw [c.slotSign_castSucc, hsign]; exact ExactNumeric.ofRat_one
  have hfactor (i j : Fin 4) : (ofRat (c.factor i j) : α) = 1 := by
    rw [ConversionContext.factor, hunit, ite_self]
    exact ExactNumeric.ofRat_one
  apply Matrix.ext
  rw [h.convertMatrix_coeff]
  funext i j
  rw [reorient, hsigns, hsigns, hslot, hslot, hfactor, mul_one, mul_one, one_mul]

/-! ### Translations -/

theorem convertTranslation_trans (h : Converts A B c) (h' : Converts B C d) (h'' : Converts A C e)
    (hA : A.valid = true) (hB : B.valid = true) (t : Vector3d α) :
    d.convertTranslation (c.convertTranslation t) = e.convertTranslation t := by
  apply Vector3d.ext_array
  intro i
  have hsign : (ofRat (e.axisSign i) : α) =
      ofRat (d.axisSign i) * ofRat (c.axisSign (d.axisRemap i)) := by
    rw [h.sign_trans h' h'' hA hB]
    exact ExactNumeric.ofRat_mul _ _
  have hunit : (ofRat e.unitScale : α) = ofRat c.unitScale * ofRat d.unitScale := by
    rw [h.unit_trans h' h'']
    exact ExactNumeric.ofRat_mul _ _
  rw [convertTranslation_array, convertTranslation_array, convertTranslation_array,
    h.remap_trans h' h'' hA, hsign, hunit]
  ring

theorem convertTranslation_of_isIdentity (hc : c.isIdentity = true) (t : Vector3d α) :
    c.convertTranslation t = t := by
  obtain ⟨hremap, hsign, hunit⟩ := c.isIdentity_iff.mp hc
  have hone : (ofRat 1 : α) = 1 := ExactNumeric.ofRat_one
  apply Vector3d.ext_array
  intro i
  rw [convertTranslation_array, hremap, hsign, hunit, hone, mul_one, mul_one]

end Converts

/-- Conversions between valid contexts compose and invert. -/
theorem conversions_compose {A B C : Context} (hA : A.valid = true) (hB : B.valid = true)
    (hC : C.valid = true) (m : Matrix α) (t : Vector3d α) :
    let convert := ConversionContext.make
    ((convert B C).convertMatrix ((convert A B).convertMatrix m) = (convert A C).convertMatrix m ∧
      (convert B A).convertMatrix ((convert A B).convertMatrix m) = m ∧
      (convert A A).convertMatrix m = m) ∧
    (convert A A).isIdentity = true ∧
    (convert B C).convertTranslation ((convert A B).convertTranslation t) =
      (convert A C).convertTranslation t ∧
    (convert B A).convertTranslation ((convert A B).convertTranslation t) = t ∧
    (convert A A).convertTranslation t = t := by
  have hAA := converts_make hA hA
  have hAB := converts_make hA hB
  have hBA := converts_make hB hA
  have hBC := converts_make hB hC
  have hAC := converts_make hA hC
  have hid := hAA.isIdentity hA
  refine ⟨⟨?_, ?_, ?_⟩, hid, ?_, ?_, ?_⟩
  · exact hAB.convertMatrix_trans hBC hAC hA hB m
  · rw [hAB.convertMatrix_trans hBA hAA hA hB m]
    exact hAA.convertMatrix_of_isIdentity hid m
  · exact hAA.convertMatrix_of_isIdentity hid m
  · exact hAB.convertTranslation_trans hBC hAC hA hB t
  · rw [hAB.convertTranslation_trans hBA hAA hA hB t]
    exact Converts.convertTranslation_of_isIdentity hid t
  · exact Converts.convertTranslation_of_isIdentity hid t

end exact

/-- X to the right, Y up, Z back. -/
def Context.Mobu : Context := ⟨.Right, .Up, .Back, .Centimeter⟩

/-- X forward, Y to the right, Z up. -/
def Context.Unreal : Context := ⟨.Forward, .Right, .Up, .Centimeter⟩

/-- A left-handed context in inches. -/
def leftHanded : Context := ⟨.Left, .Up, .Back, .Inch⟩

open scoped Rationals in
theorem conversions_compose_mobu :
    let convert := ConversionContext.make
    let m : Matrix ℚ := ⟨fun i j => 4 * i.val + j.val⟩
    let t : Vector3d ℚ := ⟨1, 2, 3⟩
    ((convert .Unreal leftHanded).convertMatrix ((convert .Mobu .Unreal).convertMatrix m) =
        (convert .Mobu leftHanded).convertMatrix m ∧
      (convert .Unreal .Mobu).convertMatrix ((convert .Mobu .Unreal).convertMatrix m) = m ∧
      (convert .Mobu .Mobu).convertMatrix m = m) ∧
    (convert .Mobu .Mobu).isIdentity = true ∧
    (convert .Unreal leftHanded).convertTranslation ((convert .Mobu .Unreal).convertTranslation t) =
      (convert .Mobu leftHanded).convertTranslation t ∧
    (convert .Unreal .Mobu).convertTranslation ((convert .Mobu .Unreal).convertTranslation t) = t ∧
    (convert .Mobu .Mobu).convertTranslation t = t :=
  conversions_compose (by decide) (by decide) (by decide) _ _

end Open3DStream
