import Open3DStream.Convert
import Open3DStream.WorldMatrix

/-! Components converted before a subject is evaluated. -/

namespace Open3DStream

open Evaluate Lib Numeric

variable {α β : Type} [Numeric α β]

namespace Transform

def setOrderTRS (t : Transform α) : Transform α :=
  { t with mTransformOrder := [.TTranslation, .TRotation, .TScale] }

/-- The conversion of the three components. -/
def convertComponents (c : ConversionContext) (t : Transform α) : Transform α :=
  { t with
    translation := { t.translation with value := c.convertTranslation t.translation.value }
    rotation := { t.rotation with value := c.convertRotation t.rotation.value }
    scale := { t.scale with value := c.convertScale t.scale.value } }

end Transform

def Subject.convertComponents (s : Subject α β) (c : ConversionContext) : Subject α β :=
  { s with mTransforms := s.mTransforms.map (·.convertComponents c) }

namespace Matrix

/-- The rows and columns of the three axes. -/
def block (m : Matrix α) (k l : Fin 3) : α := m.coeff k.castSucc l.castSucc

/-- The rows of the three axes in the last column. -/
def column (m : Matrix α) (k : Fin 3) : α := m.coeff k.castSucc (Fin.last 3)

theorem identity_coeff (i j : Fin 4) :
    (identity : Matrix α).coeff i j = if i = j then 1 else 0 := rfl

/-- The last row is that of the identity. -/
def Affine (m : Matrix α) : Prop := ∀ j, m.coeff (Fin.last 3) j = identity.coeff (Fin.last 3) j

theorem Affine.last_castSucc {m : Matrix α} (h : m.Affine) (j : Fin 3) :
    m.coeff (Fin.last 3) j.castSucc = 0 :=
  (h _).trans (if_neg (Fin.castSucc_ne_last j).symm)

theorem Affine.last_last {m : Matrix α} (h : m.Affine) :
    m.coeff (Fin.last 3) (Fin.last 3) = 1 := by
  rw [h, identity_coeff, if_pos rfl]

/-- An affine matrix is its block and its column. -/
theorem Affine.ext {a b : Matrix α} (ha : a.Affine) (hb : b.Affine) (hblock : a.block = b.block)
    (hcolumn : a.column = b.column) : a = b := by
  apply Matrix.ext
  funext i j
  induction i using Fin.lastCases with
  | last => rw [ha, hb]
  | cast k =>
    induction j using Fin.lastCases with
    | last => exact congrFun hcolumn k
    | cast l => exact congrFun (congrFun hblock k) l

end Matrix

theorem affine_translate (t : Vector3d α) : (translate t).Affine := by
  intro j
  fin_cases j <;> rfl

theorem affine_fromQuaternion (q : Quaterniond α) : (fromQuaternion q).Affine := by
  intro j
  fin_cases j <;> rfl

theorem affine_scale (s : Vector3d α) : (scale s).Affine := by
  intro j
  fin_cases j <;> rfl

theorem column_translate (t : Vector3d α) : (translate t).column = t.array := by
  funext k
  fin_cases k <;> rfl

/-- A matrix with entries on the diagonal alone. -/
def diagonal (d : Fin 3 → α) (k l : Fin 3) : α := if k = l then d k else 0

theorem block_translate (t : Vector3d α) : (translate t).block = diagonal fun _ => 1 := by
  funext k l
  fin_cases k <;> fin_cases l <;> rfl

theorem block_scale (s : Vector3d α) : (scale s).block = diagonal s.array := by
  funext k l
  fin_cases k <;> fin_cases l <;> rfl

theorem column_scale (s : Vector3d α) : (scale s).column = fun _ => 0 := by
  funext k
  fin_cases k <;> rfl

theorem column_fromQuaternion (q : Quaterniond α) : (fromQuaternion q).column = fun _ => 0 := by
  funext k
  fin_cases k <;> rfl

section exact

variable [ExactNumeric α]

local instance commRingEarly : CommRing α := ExactNumeric.commRing α

/-! ### Affine matrices -/

namespace Matrix

theorem mul_coeff_last (a b : Matrix α) (i j : Fin 4) : (a * b).coeff i j =
    (∑ k : Fin 3, a.coeff i k.castSucc * b.coeff k.castSucc j) +
      a.coeff i (Fin.last 3) * b.coeff (Fin.last 3) j := by
  rw [mul_coeff_eq, matMul, Fin.sum_univ_castSucc]

theorem Affine.mul {a b : Matrix α} (ha : a.Affine) (hb : b.Affine) : (a * b).Affine := by
  intro j
  rw [mul_coeff_last, ha.last_last, hb]
  simp only [ha.last_castSucc, zero_mul, Finset.sum_const_zero, zero_add, one_mul]

theorem identity_mul (m : Matrix α) : identity * m = m := by
  apply Matrix.ext
  funext i j
  rw [mul_coeff_eq, matMul]
  simp only [identity, ite_mul, one_mul, zero_mul, Finset.sum_ite_eq, Finset.mem_univ, if_true]

end Matrix

namespace Converts

variable {A B : Context} {c : ConversionContext}

/-- Over affine matrices a conversion is multiplicative. -/
theorem convertMatrix_mul (h : Converts A B c) (hB : B.valid = true) {a b : Matrix α}
    (ha : a.Affine) (hb : b.Affine) :
    c.convertMatrix (a * b) = c.convertMatrix a * c.convertMatrix b := by
  apply Matrix.ext
  rw [Matrix.mul_coeff_eq, h.convertMatrix_coeff, h.convertMatrix_coeff, h.convertMatrix_coeff,
    matMul_reorient (h.slot_bijective hB) h.signs]
  congr 1
  funext i j
  rw [Matrix.mul_coeff_eq, matMul, matMul, Finset.sum_mul]
  apply Finset.sum_congr rfl
  intro k _
  have hone : (ofRat 1 : α) = 1 := ExactNumeric.ofRat_one
  induction k using Fin.lastCases with
  | last =>
    induction j using Fin.lastCases with
    | last => rw [c.factor_last, hb.last_last, hone]; ring
    | cast j => rw [hb.last_castSucc]; ring
  | cast k =>
    induction i using Fin.lastCases with
    | last => rw [ha.last_castSucc]; ring
    | cast i =>
      have hfactor : c.factor k.castSucc j = c.factor i.castSucc j := c.factor_castSucc k i j
      rw [c.factor_column, hfactor, hone]
      ring

variable (α) in
/-- The signs of the three axes as numbers. -/
def axisSigns (c : ConversionContext) (k : Fin 3) : α := ofRat (c.axisSign k)

theorem signs_axisSigns (h : Converts A B c) : Signs (axisSigns α c) := by
  intro k
  have hs := h.signs (α := α) k.castSucc
  rw [ConversionContext.signs, c.slotSign_castSucc] at hs
  exact hs

theorem block_convertMatrix (h : Converts A B c) (m : Matrix α) :
    (c.convertMatrix m).block = reorient c.axisRemap (axisSigns α c) m.block := by
  have hone : (ofRat 1 : α) = 1 := ExactNumeric.ofRat_one
  funext k l
  rw [Matrix.block, h.convertMatrix_coeff, reorient, c.slot_castSucc, c.slot_castSucc,
    c.factor_column, hone, mul_one, ConversionContext.signs, ConversionContext.signs,
    c.slotSign_castSucc, c.slotSign_castSucc]
  rfl

theorem column_convertMatrix (h : Converts A B c) (m : Matrix α) (k : Fin 3) :
    (c.convertMatrix m).column k =
      m.column (c.axisRemap k) * axisSigns α c k * ofRat c.unitScale := by
  have hone : (ofRat 1 : α) = 1 := ExactNumeric.ofRat_one
  have hfactor : c.factor (c.axisRemap k).castSucc (Fin.last 3) = c.unitScale :=
    if_pos ⟨rfl, (c.axisRemap k).isLt.ne⟩
  rw [Matrix.column, h.convertMatrix_coeff, reorient, c.slot_castSucc, c.slot_last, hfactor,
    ConversionContext.signs, ConversionContext.signs, c.slotSign_castSucc, c.slotSign_last, hone,
    Matrix.column, axisSigns]
  ring

theorem affine_convertMatrix (h : Converts A B c) {m : Matrix α} (hm : m.Affine) :
    (c.convertMatrix m).Affine := by
  have hone : (ofRat 1 : α) = 1 := ExactNumeric.ofRat_one
  intro j
  rw [h.convertMatrix_coeff, reorient, c.slot_last, ConversionContext.signs,
    ConversionContext.signs, c.slotSign_last, c.factor_last, hone, one_mul, mul_one, hm]
  induction j using Fin.lastCases with
  | last => rw [c.slot_last, c.slotSign_last, hone, mul_one]
  | cast l =>
    rw [c.slot_castSucc, Matrix.identity_coeff, Matrix.identity_coeff,
      if_neg (Fin.castSucc_ne_last _).symm, if_neg (Fin.castSucc_ne_last _).symm]
    exact zero_mul _

end Converts

/-! ### The three components -/

theorem reorient_diagonal {r : Fin 3 → Fin 3} (hr : Function.Injective r) {s : Fin 3 → α}
    (hs : Signs s) (d : Fin 3 → α) : reorient r s (diagonal d) = diagonal (d ∘ r) := by
  funext k l
  rw [reorient, diagonal, diagonal]
  by_cases h : k = l
  · subst h
    rw [if_pos rfl, if_pos rfl, Function.comp_apply]
    linear_combination d (r k) * hs k
  · rw [if_neg h, if_neg (fun hkl => h (hr hkl))]
    ring

/-- The imaginary part. -/
def Quaterniond.vec (q : Quaterniond α) : Fin 3 → α := Vector3d.array ⟨q.x, q.y, q.z⟩

theorem block_fromQuaternion (q : Quaterniond α) :
    (fromQuaternion q).block = rotation q.vec q.w := by
  refine ext_cyclic (fun k => ?_) (fun k => ?_) fun k => ?_
  · rw [rotation_self]
    fin_cases k
    · change 1 - ((q.y + q.y) * q.y + (q.z + q.z) * q.z) = 1 - 2 * (q.y * q.y + q.z * q.z)
      ring
    · change 1 - ((q.x + q.x) * q.x + (q.z + q.z) * q.z) = 1 - 2 * (q.z * q.z + q.x * q.x)
      ring
    · change 1 - ((q.x + q.x) * q.x + (q.y + q.y) * q.y) = 1 - 2 * (q.x * q.x + q.y * q.y)
      ring
  · rw [rotation_next]
    fin_cases k
    · change (q.y + q.y) * q.x - (q.z + q.z) * q.w = 2 * (q.x * q.y - q.w * q.z)
      ring
    · change (q.z + q.z) * q.y - (q.x + q.x) * q.w = 2 * (q.y * q.z - q.w * q.x)
      ring
    · change (q.z + q.z) * q.x - (q.y + q.y) * q.w = 2 * (q.z * q.x - q.w * q.y)
      ring
  · rw [rotation_previous]
    fin_cases k
    · change (q.z + q.z) * q.x + (q.y + q.y) * q.w = 2 * (q.x * q.z + q.w * q.y)
      ring
    · change (q.y + q.y) * q.x + (q.z + q.z) * q.w = 2 * (q.y * q.x + q.w * q.z)
      ring
    · change (q.z + q.z) * q.y + (q.x + q.x) * q.w = 2 * (q.z * q.y + q.w * q.x)
      ring

namespace Converts

variable {A B : Context} {c : ConversionContext}

theorem convertMatrix_translate (h : Converts A B c) (hB : B.valid = true) (t : Vector3d α) :
    c.convertMatrix (translate t) = translate (c.convertTranslation t) := by
  apply (h.affine_convertMatrix (affine_translate t)).ext (affine_translate _)
  · rw [h.block_convertMatrix, block_translate, block_translate,
      reorient_diagonal (h.remap_injective hB) h.signs_axisSigns]
    rfl
  · funext k
    rw [h.column_convertMatrix, column_translate, column_translate, convertTranslation_array]
    rfl

theorem convertMatrix_scale (h : Converts A B c) (hB : B.valid = true) (s : Vector3d α) :
    c.convertMatrix (scale s) = scale (c.convertScale s) := by
  apply (h.affine_convertMatrix (affine_scale s)).ext (affine_scale _)
  · rw [h.block_convertMatrix, block_scale, block_scale,
      reorient_diagonal (h.remap_injective hB) h.signs_axisSigns]
    congr 1
    funext k
    fin_cases k <;> rfl
  · funext k
    rw [h.column_convertMatrix, column_scale, column_scale]
    ring

/-- An even number of inversions keeps the cyclic order. -/
theorem even_inversions {r : Fin 3 → Fin 3} (hr : Function.Injective r) :
    ((if r 1 < r 0 then 1 else 0) + (if r 2 < r 0 then 1 else 0) +
      (if r 2 < r 1 then 1 else 0)) % 2 = 0 ↔ r 1 = r 0 + 1 := by
  revert r
  decide

theorem hand_cases (h : Converts A B c) :
    hand c.axisRemap c.axisSign = 1 ∨ hand c.axisRemap c.axisSign = -1 := by
  rw [hand, Fin.prod_univ_three]
  obtain h0 | h0 := h.sign_cases 0 <;> obtain h1 | h1 := h.sign_cases 1 <;>
    obtain h2 | h2 := h.sign_cases 2 <;> rw [h0, h1, h2] <;> split <;> norm_num

theorem ofRat_neg_one : (ofRat (-1) : α) = -1 := by
  have hone : (ofRat 1 : α) = 1 := ExactNumeric.ofRat_one
  have hzero : (ofRat 0 : α) = 0 := ExactNumeric.ofRat_zero
  have hsum : (ofRat (-1 + 1) : α) = ofRat (-1) + ofRat 1 := ExactNumeric.ofRat_add _ _
  rw [neg_add_cancel, hone, hzero] at hsum
  exact eq_neg_of_add_eq_zero_left hsum.symm

theorem ofRat_hand (c : ConversionContext) :
    (ofRat (hand c.axisRemap c.axisSign) : α) = hand c.axisRemap (axisSigns α c) := by
  have hmul (p q : ℚ) : (ofRat (p * q) : α) = ofRat p * ofRat q := ExactNumeric.ofRat_mul p q
  have hone : (ofRat 1 : α) = 1 := ExactNumeric.ofRat_one
  rw [hand, hand, Fin.prod_univ_three, Fin.prod_univ_three, hmul, hmul, hmul]
  congr 1
  split
  · exact hone
  · exact ofRat_neg_one

/-- The real part is negated where the hand changes. -/
theorem convertRotation_w (h : Converts A B c) (hB : B.valid = true) (q : Quaterniond α) :
    (c.convertRotation q).w = hand c.axisRemap (axisSigns α c) * q.w := by
  have hparity : (if ((if c.axisRemap 1 < c.axisRemap 0 then 1 else 0) +
      (if c.axisRemap 2 < c.axisRemap 0 then 1 else 0) +
      (if c.axisRemap 2 < c.axisRemap 1 then 1 else 0)) % 2 = 0 then (1 : ℚ) else -1) =
      if c.axisRemap 1 = c.axisRemap 0 + 1 then 1 else -1 :=
    if_congr (even_inversions (h.remap_injective hB)) rfl rfl
  have hsign : (c.convertRotation q).w =
      if hand c.axisRemap c.axisSign < 0 then 0 - q.w else q.w := by
    rw [ConversionContext.convertRotation]
    dsimp only
    rw [hparity, hand_eq (h.remap_injective hB), mul_comm]
  rw [hsign, ← ofRat_hand]
  obtain hh | hh := h.hand_cases
  · have hone : (ofRat 1 : α) = 1 := ExactNumeric.ofRat_one
    rw [hh, if_neg (by norm_num), hone, one_mul]
  · rw [hh, if_pos (by norm_num), ofRat_neg_one (α := α)]
    ring

theorem convertMatrix_fromQuaternion (h : Converts A B c) (hB : B.valid = true)
    (q : Quaterniond α) :
    c.convertMatrix (fromQuaternion q) = fromQuaternion (c.convertRotation q) := by
  apply (h.affine_convertMatrix (affine_fromQuaternion q)).ext (affine_fromQuaternion _)
  · rw [h.block_convertMatrix, block_fromQuaternion, block_fromQuaternion,
      reorient_rotation (h.remap_injective hB) h.signs_axisSigns, h.convertRotation_w hB]
    congr 1
    funext k
    rw [mul_comm]
    fin_cases k <;> rfl
  · funext k
    rw [h.column_convertMatrix, column_fromQuaternion, column_fromQuaternion]
    ring

/-- The local matrix of converted components is the converted local matrix. -/
theorem localMatrix_convertComponents (h : Converts A B c) (hB : B.valid = true) {t : Transform α}
    (ht : t.setOrderTRS = t) :
    (t.convertComponents c).localMatrix = c.convertMatrix t.localMatrix ∧ t.localMatrix.Affine := by
  have horder : t.mTransformOrder = [.TTranslation, .TRotation, .TScale] := by
    rw [← ht]
    rfl
  have htr := affine_translate t.translation.value
  have hrot := affine_fromQuaternion t.rotation.value
  have hsc := affine_scale t.scale.value
  have hlocal (u : Transform α) (hu : u.mTransformOrder = [.TTranslation, .TRotation, .TScale]) :
      u.localMatrix = translate u.translation.value * fromQuaternion u.rotation.value *
        scale u.scale.value := by
    rw [Transform.localMatrix, hu]
    simp only [Transform.factors, List.foldl_cons, List.foldl_nil, Matrix.identity_mul]
  rw [hlocal t horder, hlocal (t.convertComponents c) horder]
  refine ⟨?_, (htr.mul hrot).mul hsc⟩
  rw [h.convertMatrix_mul hB (htr.mul hrot) hsc, h.convertMatrix_mul hB htr hrot,
    h.convertMatrix_translate hB, h.convertMatrix_fromQuaternion hB, h.convertMatrix_scale hB]
  rfl

theorem convertMatrix_pathProduct (h : Converts A B c) (hB : B.valid = true)
    {ms : List (Matrix α)} (hms : ∀ m ∈ ms, m.Affine) (hne : ms ≠ []) :
    pathProduct (ms.map c.convertMatrix) = c.convertMatrix (pathProduct ms) := by
  have hfold (ns : List (Matrix α)) (m : Matrix α) (hm : m.Affine) (hns : ∀ n ∈ ns, n.Affine) :
      (ns.map c.convertMatrix).foldl (· * ·) (c.convertMatrix m) =
        c.convertMatrix (ns.foldl (· * ·) m) := by
    induction ns generalizing m with
    | nil => rfl
    | cons n ns ih =>
      obtain ⟨hn, hns⟩ := List.forall_mem_cons.mp hns
      rw [List.map_cons, List.foldl_cons, List.foldl_cons, ← h.convertMatrix_mul hB hm hn]
      exact ih _ (hm.mul hn) hns
  cases ms with
  | nil => exact absurd rfl hne
  | cons m ms =>
    obtain ⟨hm, hms⟩ := List.forall_mem_cons.mp hms
    exact hfold ms m hm hms

/-- The world matrix along a path of converted components. -/
theorem worldAlong_convertComponents (h : Converts A B c) (hB : B.valid = true)
    {ts : List (Transform α)} (hts : ∀ t ∈ ts, t.setOrderTRS = t) {i : Nat} {l : List Nat}
    (hl : TreePath (parentIds ts) i l) :
    worldAlong Transform.localMatrix (ts.map (·.convertComponents c)) l =
      c.convertMatrix (worldAlong Transform.localMatrix ts l) := by
  have halong : along Transform.localMatrix (ts.map (·.convertComponents c)) l =
      (along Transform.localMatrix ts l).map c.convertMatrix := by
    rw [along, along, List.map_filterMap]
    apply List.filterMap_congr
    intro k _
    rw [List.getElem?_map]
    cases ht : ts[k]? with
    | none => rfl
    | some t =>
      exact congrArg some (h.localMatrix_convertComponents hB (hts t (List.mem_of_getElem? ht))).1
  rw [worldAlong, halong]
  refine h.convertMatrix_pathProduct hB (fun m hm => ?_) (along_ne_nil hl)
  obtain ⟨k, -, hk⟩ := List.mem_filterMap.mp hm
  obtain ⟨t, ht, rfl⟩ := Option.map_eq_some_iff.mp hk
  exact (h.localMatrix_convertComponents hB (hts t (List.mem_of_getElem? ht))).2

theorem convertWorld_eq (h : Converts A B c) (m : Matrix α) :
    convertWorld (some c) m = c.convertMatrix m := by
  rw [convertWorld]
  split
  · exact (h.convertMatrix_of_isIdentity ‹_› m).symm
  · rfl

end Converts

theorem allFinite_exact (t : Transform α) : t.allFinite = true := by
  have hm (m : Matrix α) : m.allFinite = true :=
    (Matrix.allFinite_iff m).mpr fun i j => ExactNumeric.finite _
  have hv (v : Vector3d α) : v.allFinite = true := by
    simp only [Vector3d.allFinite, ExactNumeric.finite, Bool.and_self]
  rw [Transform.allFinite_iff, Transform.valuesFinite_iff]
  refine ⟨hm _, hm _, hv _, hv _, ?_, fun m _ => hm _⟩
  simp only [Quaterniond.allFinite, ExactNumeric.finite, Bool.and_self]

theorem enoughMatrices_of_trs {t : Transform α} (ht : t.setOrderTRS = t) : t.EnoughMatrices := by
  rw [← ht]
  exact Nat.zero_le _

/-- Evaluating a subject with a conversion leaves the world matrices that evaluating its
converted components leaves. -/
theorem calcMatrices_convertComponents {src dst : Context} (hsrc : src.valid = true)
    (hdst : dst.valid = true) (s : Subject α β) (htree : RootedTree (parentIds s.mTransforms))
    (horder : ∀ t ∈ s.mTransforms, t.setOrderTRS = t) :
    let conversion := ConversionContext.make src dst
    ∃ late early, s.calcMatrices (some conversion) = some (true, late) ∧
      (s.convertComponents conversion).calcMatrices none = some (true, early) ∧
      late.mTransforms.length = s.mTransforms.length ∧
      late.mTransforms.map (·.mWorldMatrix) = early.mTransforms.map (·.mWorldMatrix) := by
  have hc := converts_make hsrc hdst
  generalize ConversionContext.make src dst = c at hc
  dsimp only
  have hids : parentIds (s.convertComponents c).mTransforms = parentIds s.mTransforms := by
    rw [parentIds, Subject.convertComponents, List.map_map]
    rfl
  have horder' : ∀ t ∈ (s.convertComponents c).mTransforms, t.setOrderTRS = t := by
    intro t ht
    obtain ⟨u, hu, rfl⟩ := List.mem_map.mp ht
    have hu := horder u hu
    rw [Transform.ext_iff] at hu ⊢
    exact ⟨rfl, rfl, rfl, rfl, rfl, rfl, rfl, hu.2.2.2.2.2.2.2.1, rfl, rfl⟩
  obtain ⟨late, hlate, hlen, hworld, -⟩ := calcMatrices_path_products s (some c)
    (fun t _ => allFinite_exact t) (fun t ht => enoughMatrices_of_trs (horder t ht)) htree
  obtain ⟨early, hearly, hlen', hworld', -⟩ := calcMatrices_path_products (s.convertComponents c) none
    (fun t _ => allFinite_exact t) (fun t ht => enoughMatrices_of_trs (horder' t ht))
    (by rw [hids]; exact htree)
  refine ⟨late, early, hlate, hearly, hlen, ?_⟩
  apply List.ext_getElem?
  intro i
  rw [List.getElem?_map, List.getElem?_map]
  cases ht : s.mTransforms[i]? with
  | none =>
    have hi := List.getElem?_eq_none_iff.mp ht
    have hi' : early.mTransforms.length ≤ i := by
      rw [hlen', Subject.convertComponents, List.length_map]
      exact hi
    rw [List.getElem?_eq_none (hlen ▸ hi), List.getElem?_eq_none hi']
  | some t =>
    have ht' : (s.convertComponents c).mTransforms[i]? = some (t.convertComponents c) := by
      rw [Subject.convertComponents, List.getElem?_map, ht]
      rfl
    obtain ⟨l, u, hl, hu, -, hw⟩ := hworld i t ht
    obtain ⟨l', u', hl', hu', -, hw'⟩ := hworld' i _ ht'
    rw [hids] at hl'
    obtain rfl := hl.unique hl'
    rw [hu, hu', Option.map_some, Option.map_some, hw, hw', hc.convertWorld_eq]
    exact congrArg some (hc.worldAlong_convertComponents hdst horder hl).symm

end exact

open scoped Rationals

/-- A root that is turned and scaled and a child that is moved. -/
def turned : Subject ℚ ℚ :=
  { Subject.make (α := ℚ) .performer "uuid" with
    mTransforms := [
      { (Transform.empty : Transform ℚ).setOrderTRS with
        rotation := .make (3 / 5) 0 0 (4 / 5), scale := .make 1 2 3 },
      { (Transform.empty : Transform ℚ).setOrderTRS with
        mParentId := 0, translation := .make 1 2 3 }] }

theorem rootedTree_turned : RootedTree (parentIds turned.mTransforms) := by
  have hroot : rootAt (parentIds turned.mTransforms) 0 := by
    rw [rootAt]
    decide
  exact rootedTree_star (by decide) hroot (by decide)

theorem calcMatrices_convertComponents_turned :
    let conversion := ConversionContext.make .Mobu .Unreal
    ∃ late early, turned.calcMatrices (some conversion) = some (true, late) ∧
      (turned.convertComponents conversion).calcMatrices none = some (true, early) ∧
      late.mTransforms.length = turned.mTransforms.length ∧
      late.mTransforms.map (·.mWorldMatrix) = early.mTransforms.map (·.mWorldMatrix) :=
  calcMatrices_convertComponents (by decide) (by decide) turned rootedTree_turned (by
    intro t ht
    obtain rfl | rfl := List.mem_pair.mp ht <;> rfl)

end Open3DStream
