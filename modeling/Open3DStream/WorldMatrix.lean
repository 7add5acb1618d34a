import Open3DStream.Cached
import Open3DStream.Extended

namespace Open3DStream

open Evaluate

variable {α β : Type} [Numeric α β]

/-- Every value and cached matrix is finite and each `TMatrix` has a matrix. -/
structure WellFormed (ts : List (Transform α)) : Prop where
  finite : ∀ t ∈ ts, t.allFinite = true
  enough : ∀ t ∈ ts, t.EnoughMatrices

section exact

variable [ExactArith α]

theorem WellFormed.evaluable {ts : List (Transform α)} (h : WellFormed ts) :
    ∀ t ∈ ts, Evaluable t := by
  intro t ht
  have hf := h.finite t ht
  exact ⟨hf, h.enough t ht,
    Transform.localMatrix_allFinite ((Transform.allFinite_iff t).mp hf).2.2⟩

theorem pathProduct_allFinite {ms : List (Matrix α)} (h : ∀ m ∈ ms, m.allFinite = true) :
    (pathProduct ms).allFinite = true := by
  cases ms with
  | nil => exact Matrix.allFinite_identity
  | cons m ms =>
    obtain ⟨hm, hms⟩ := List.forall_mem_cons.mp h
    exact Matrix.allFinite_foldl hms hm

theorem WellFormed.worldAlong_allFinite {ts : List (Transform α)} (h : WellFormed ts)
    (l : List Nat) : (worldAlong Transform.localMatrix ts l).allFinite = true := by
  apply pathProduct_allFinite
  intro m hm
  obtain ⟨i, -, hi⟩ := List.mem_filterMap.mp hm
  obtain ⟨t, ht, rfl⟩ := Option.map_eq_some_iff.mp hi
  exact (h.evaluable t (List.mem_of_getElem? ht)).2.2

theorem WellFormed.acceptable {ts : List (Transform α)} (h : WellFormed ts)
    (hc : (parentIds ts).count (-1) = 1) (hv : ValidIds (parentIds ts)) :
    Subject.Acceptable ts :=
  ⟨h.evaluable, hc, hv, fun _ l _ _ => h.worldAlong_allFinite l⟩

theorem convertMatrix_allFinite (c : ConversionContext) {m : Matrix α} (h : m.allFinite = true) :
    (c.convertMatrix m).allFinite = true := by
  rw [Matrix.allFinite_iff] at h
  have rat (f : Fin 4 → Fin 4 → ℚ) :
      (⟨fun i j => Numeric.ofRat (f i j)⟩ : Matrix α).allFinite = true :=
    (Matrix.allFinite_iff _).mpr fun i j => ExactArith.finite_ofRat (f i j)
  apply Matrix.allFinite_mul (Matrix.allFinite_mul (rat c.mBasis) _) (rat c.mBasisInv)
  rw [Matrix.allFinite_iff]
  intro i j
  dsimp only
  split
  · exact ExactArith.finite_mul (h i j) (ExactArith.finite_ofRat _)
  · exact h i j

theorem convertWorld_allFinite (conv : Option ConversionContext) {m : Matrix α}
    (h : m.allFinite = true) : (convertWorld conv m).allFinite = true := by
  simp only [convertWorld]
  split
  · exact h
  · split
    · exact h
    · exact convertMatrix_allFinite _ h

end exact

/-- A second evaluation sees the same components, so it finds what the first one left. -/
theorem calcMatrices_again {s s' : Subject α β} {conv : Option ConversionContext}
    (htree : RootedTree (parentIds s.mTransforms)) (h : s.calcMatrices conv = some (true, s'))
    (hfin : ∀ t ∈ s'.mTransforms, t.allFinite = true) : s'.calcMatrices conv = some (true, s') := by
  have hacc := (Subject.calcMatrices_true_iff s conv).mp ⟨s', h⟩
  have hbare := (Subject.calcMatrices_frame h).1
  have hids := hbare.parentIds
  have hacc' := hacc.again hbare hfin
  obtain ⟨s'', h''⟩ := (Subject.calcMatrices_true_iff s' conv).mpr hacc'
  obtain ⟨hbare'', hs''⟩ := Subject.calcMatrices_frame h''
  have hlist : s''.mTransforms = s'.mTransforms := by
    apply List.ext_getElem?
    intro i
    cases ht : s.mTransforms[i]? with
    | none =>
      have hi := List.getElem?_eq_none_iff.mp ht
      rw [List.getElem?_eq_none (by rw [hbare''.length, hbare.length]; exact hi),
        List.getElem?_eq_none (by rw [hbare.length]; exact hi)]
    | some t =>
      obtain ⟨l, hl⟩ := htree.reaches i (by simpa using (List.getElem?_eq_some_iff.mp ht).1)
      have h1 := Subject.calcMatrices_path h ht hl
      have h2 := Subject.calcMatrices_path h'' h1 (by rw [hids]; exact hl)
      rw [h2, h1, hbare.worldAlong, Transform.evaluated_evaluated]
  rw [hlist, Subject.calcMatrices_mError h''] at hs''
  rw [h'', hs'']

/-- A rooted tree listed in any order gets the path products of its local matrices
as world matrices, whatever finite matrices were cached before. -/
theorem calcMatrices_path_products [ExactArith α] (s : Subject α β)
    (conv : Option ConversionContext) (hfin : ∀ t ∈ s.mTransforms, t.allFinite = true)
    (henough : ∀ t ∈ s.mTransforms, t.EnoughMatrices)
    (htree : RootedTree (parentIds s.mTransforms)) :
    ∃ s', s.calcMatrices conv = some (true, s') ∧
      s'.mTransforms.length = s.mTransforms.length ∧
      (∀ (i : Nat) t, s.mTransforms[i]? = some t → ∃ l t', TreePath (parentIds s.mTransforms) i l ∧
        s'.mTransforms[i]? = some t' ∧ t'.bWorldMatrix = true ∧
        t'.mWorldMatrix =
          convertWorld conv (worldAlong Transform.localMatrix s.mTransforms l)) ∧
      s'.calcMatrices conv = some (true, s') := by
  have hw : WellFormed s.mTransforms := ⟨hfin, henough⟩
  obtain ⟨s', h⟩ := (Subject.calcMatrices_true_iff s conv).mpr
    (hw.acceptable htree.oneRoot htree.validIds)
  have hlen := (Subject.calcMatrices_frame h).1.length
  have hreach (i : Nat) (t : Transform α) (ht : s.mTransforms[i]? = some t) :
      ∃ l, TreePath (parentIds s.mTransforms) i l :=
    htree.reaches i (by simpa using (List.getElem?_eq_some_iff.mp ht).1)
  refine ⟨s', h, hlen, ?_, calcMatrices_again htree h ?_⟩
  · intro i t ht
    obtain ⟨l, hl⟩ := hreach i t ht
    exact ⟨l, _, hl, Subject.calcMatrices_path h ht hl, rfl, rfl⟩
  · intro t' ht'
    obtain ⟨i, hi⟩ := List.mem_iff_getElem?.mp ht'
    have hlt : i < s.mTransforms.length := by
      rw [← hlen]
      exact (List.getElem?_eq_some_iff.mp hi).1
    have ht := List.getElem?_eq_getElem hlt
    obtain ⟨l, hl⟩ := hreach i _ ht
    rw [Subject.calcMatrices_path h ht hl] at hi
    cases hi
    have hmem := List.getElem_mem hlt
    rw [Transform.allFinite_iff]
    exact ⟨(hw.evaluable _ hmem).2.2,
      convertWorld_allFinite conv (hw.worldAlong_allFinite l),
      ((Transform.allFinite_iff _).mp (hfin _ hmem)).2.2⟩

/-- A child with a matrix component, listed before its root. -/
def childFirst : Subject Extended Extended :=
  { Subject.make (α := Extended) .performer "uuid" with
    mTransforms := [
      { Transform.empty with
        mParentId := 1, mTransformOrder := [.TTranslation, .TMatrix],
        mMatrices := [⟨translate ⟨(2 : ℚ), (0 : ℚ), (0 : ℚ)⟩⟩] },
      Transform.empty] }

theorem rootedTree_childFirst : RootedTree (parentIds childFirst.mTransforms) := by
  have hroot : rootAt (parentIds childFirst.mTransforms) 1 := by
    rw [rootAt]
    decide
  exact rootedTree_star (by decide) hroot (by decide)

theorem calcMatrices_path_products_childFirst :
    ∃ s', childFirst.calcMatrices none = some (true, s') ∧
      s'.mTransforms.length = childFirst.mTransforms.length ∧
      (∀ (i : Nat) t, childFirst.mTransforms[i]? = some t → ∃ l t',
        TreePath (parentIds childFirst.mTransforms) i l ∧
        s'.mTransforms[i]? = some t' ∧ t'.bWorldMatrix = true ∧
        t'.mWorldMatrix =
          convertWorld none (worldAlong Transform.localMatrix childFirst.mTransforms l)) ∧
      s'.calcMatrices none = some (true, s') :=
  calcMatrices_path_products childFirst none (by decide) (by decide) rootedTree_childFirst

end Open3DStream
