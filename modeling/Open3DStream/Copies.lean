import Open3DStream.WorldMatrix

/-! Copies of transforms that have been evaluated. -/

namespace Open3DStream

open Evaluate

variable {α β : Type} [Numeric α β]

namespace Transform

/-- The copy constructor. The local matrix is copied twice. -/
def copy (other : Transform α) : Transform α where
  translation := ⟨⟨other.translation.value.x, other.translation.value.y, other.translation.value.z⟩,
    Vector3d.zero⟩
  rotation := ⟨other.rotation.value, Quaterniond.identity⟩
  scale := ⟨other.scale.value, Vector3d.zero⟩
  mMatrix := other.mMatrix
  mWorldMatrix := other.mMatrix
  bWorldMatrix := other.bWorldMatrix
  mMatrices := other.mMatrices.map fun m => ⟨m.value⟩
  mTransformOrder := other.mTransformOrder
  mName := other.mName
  mParentId := other.mParentId

/-- `u` has what `t` has, whatever was last sent of either. -/
structure Faithful (t u : Transform α) : Prop where
  name : u.mName = t.mName
  parentId : u.mParentId = t.mParentId
  translation : u.translation.value = t.translation.value
  rotation : u.rotation.value = t.rotation.value
  scale : u.scale.value = t.scale.value
  order : u.mTransformOrder = t.mTransformOrder
  matrices : u.mMatrices = t.mMatrices
  matrix : u.mMatrix = t.mMatrix
  resolved : u.bWorldMatrix = t.bWorldMatrix
  world : u.mWorldMatrix = t.mWorldMatrix

theorem faithful_copy_iff (t : Transform α) : t.Faithful t.copy ↔ t.mWorldMatrix = t.mMatrix := by
  refine ⟨fun h => h.world.symm, ?_⟩
  intro h
  exact ⟨rfl, rfl, rfl, rfl, rfl, rfl, List.map_id' _, rfl, rfl, h.symm⟩

end Transform

/-- What is above a transform and the conversion leave its local matrix as it is; where no root
leads to it, the world matrix that it had is converted to the local one. -/
structure Unmoved (conv : Option ConversionContext) (ts : List (Transform α)) (i : Nat)
    (t : Transform α) : Prop where
  root : t.mParentId = -1 → convertWorld conv t.localMatrix = t.localMatrix
  child : ∀ p l, parentAt (parentIds ts) i p → TreePath (parentIds ts) p l →
    convertWorld conv (worldAlong Transform.localMatrix ts l * t.localMatrix) = t.localMatrix
  stray : (∀ l, ¬TreePath (parentIds ts) i l) → convertWorld conv t.mWorldMatrix = t.localMatrix

section index

variable {conv : Option ConversionContext} {ts : List (Transform α)} {i : Nat} {t : Transform α}

theorem unmoved_root_iff (ht : ts[i]? = some t) (hr : rootAt (parentIds ts) i) :
    Unmoved conv ts i t ↔ convertWorld conv t.localMatrix = t.localMatrix := by
  have hid : t.mParentId = -1 := Option.some.inj ((parentIds_get ht).symm.trans hr)
  refine ⟨fun h => h.root hid, ?_⟩
  intro h
  exact ⟨fun _ => h, fun p l hp => absurd hp (root_no_parent hr),
    fun hno => absurd (.root hr) (hno [i])⟩

theorem unmoved_child_iff (ht : ts[i]? = some t) {p : Nat} {l : List Nat}
    (hp : parentAt (parentIds ts) i p) (hl : TreePath (parentIds ts) p l) :
    Unmoved conv ts i t ↔
      convertWorld conv (worldAlong Transform.localMatrix ts l * t.localMatrix) = t.localMatrix := by
  refine ⟨fun h => h.child p l hp hl, ?_⟩
  intro h
  refine ⟨?_, ?_, fun hno => absurd (.child hp hl) (hno (l ++ [i]))⟩
  · intro hid
    have hr : rootAt (parentIds ts) i := (parentIds_get ht).trans (congrArg some hid)
    exact absurd hp (root_no_parent hr)
  · intro q l' hq hl'
    obtain rfl := parent_functional hp hq
    rwa [hl'.unique hl]

theorem unmoved_stray_iff (ht : ts[i]? = some t) (hno : ∀ l, ¬TreePath (parentIds ts) i l) :
    Unmoved conv ts i t ↔ convertWorld conv t.mWorldMatrix = t.localMatrix := by
  refine ⟨fun h => h.stray hno, ?_⟩
  intro h
  refine ⟨?_, fun p l hp hl => absurd (.child hp hl) (hno (l ++ [i])), fun _ => h⟩
  intro hid
  exact absurd (.root ((parentIds_get ht).trans (congrArg some hid))) (hno [i])

end index

namespace Subject

variable {s s' : Subject α β} {conv : Option ConversionContext}
  (h : s.calcMatrices conv = some (true, s')) {i : Nat} {t t' : Transform α}

include h

/-- An evaluated transform has its local matrix for its world matrix where nothing moves it. -/
theorem mWorldMatrix_eq_iff (ht : s.mTransforms[i]? = some t) (ht' : s'.mTransforms[i]? = some t') :
    t'.mWorldMatrix = t'.mMatrix ↔ Unmoved conv s.mTransforms i t := by
  by_cases hl : ∃ l, TreePath (parentIds s.mTransforms) i l
  · obtain ⟨l, hl⟩ := hl
    rw [calcMatrices_path h ht hl] at ht'
    cases ht'
    cases hl with
    | root hr =>
      rw [unmoved_root_iff ht hr, worldAlong_root ht]
      rfl
    | child hp hl =>
      rw [unmoved_child_iff ht hp hl, worldAlong_child ht hl]
      rfl
  · have hno := not_exists.mp hl
    rw [calcMatrices_no_path h ht hno] at ht'
    cases ht'
    rw [unmoved_stray_iff ht hno]
    rfl

theorem bWorldMatrix_path (ht' : s'.mTransforms[i]? = some t') (hb : t'.bWorldMatrix = true) :
    ∃ l, TreePath (parentIds s.mTransforms) i l ∧
      t'.mWorldMatrix = convertWorld conv (worldAlong Transform.localMatrix s.mTransforms l) := by
  obtain ⟨t, ht, -⟩ := (calcMatrices_frame h).1.get ht'
  by_cases hl : ∃ l, TreePath (parentIds s.mTransforms) i l
  · obtain ⟨l, hl⟩ := hl
    rw [calcMatrices_path h ht hl] at ht'
    cases ht'
    exact ⟨l, hl, rfl⟩
  · rw [calcMatrices_no_path h ht (not_exists.mp hl)] at ht'
    cases ht'
    cases hb

/-- The copies of the transforms of an evaluated subject are faithful, and those that say so have
the converted products along the paths, exactly if no transform is moved by what is above it or by
the conversion. -/
theorem copies_faithful_iff :
    (∀ i t', s'.mTransforms[i]? = some t' → t'.Faithful t'.copy ∧
      (t'.copy.bWorldMatrix = true → ∃ l, TreePath (parentIds s.mTransforms) i l ∧
        t'.copy.mWorldMatrix =
          convertWorld conv (worldAlong Transform.localMatrix s.mTransforms l))) ↔
      ∀ i t, s.mTransforms[i]? = some t → Unmoved conv s.mTransforms i t := by
  have hbare := (calcMatrices_frame h).1
  refine ⟨?_, ?_⟩
  · intro hcopies i t ht
    have hlt : i < s'.mTransforms.length := by
      rw [hbare.length]
      exact (List.getElem?_eq_some_iff.mp ht).1
    have ht' := List.getElem?_eq_getElem hlt
    have hfaithful := (hcopies i _ ht').1
    exact (mWorldMatrix_eq_iff h ht ht').mp ((Transform.faithful_copy_iff _).mp hfaithful)
  · intro hunmoved i t' ht'
    obtain ⟨t, ht, -⟩ := hbare.get ht'
    have hworld := (mWorldMatrix_eq_iff h ht ht').mpr (hunmoved i t ht)
    refine ⟨(Transform.faithful_copy_iff t').mpr hworld, ?_⟩
    intro hb
    obtain ⟨l, hl, hproduct⟩ := bWorldMatrix_path h ht' hb
    exact ⟨l, hl, hworld.symm.trans hproduct⟩

end Subject

/-! ### A child of a root that is at rest, and one of a root that is moved -/

theorem calcMatrices_of_tree {s : Subject Extended Extended} (hw : WellFormed s.mTransforms)
    (htree : RootedTree (parentIds s.mTransforms)) (conv : Option ConversionContext) :
    ∃ s', s.calcMatrices conv = some (true, s') :=
  (Subject.calcMatrices_true_iff s conv).mpr (hw.acceptable htree.oneRoot htree.validIds)

theorem copies_faithful_iff_childFirst :
    ∃ s', childFirst.calcMatrices none = some (true, s') ∧
      ((∀ i t', s'.mTransforms[i]? = some t' → t'.Faithful t'.copy ∧
        (t'.copy.bWorldMatrix = true → ∃ l, TreePath (parentIds childFirst.mTransforms) i l ∧
          t'.copy.mWorldMatrix =
            convertWorld none (worldAlong Transform.localMatrix childFirst.mTransforms l))) ↔
        ∀ i t, childFirst.mTransforms[i]? = some t → Unmoved none childFirst.mTransforms i t) := by
  obtain ⟨s', h⟩ := calcMatrices_of_tree ⟨by decide, by decide⟩ rootedTree_childFirst none
  exact ⟨s', h, Subject.copies_faithful_iff h⟩

/-- A root that is moved, and a child that is not. -/
def belowMoved : Subject Extended Extended :=
  { Subject.make (α := Extended) .performer "uuid" with
    mTransforms := [
      { Transform.empty with
        mTransformOrder := [.TTranslation], translation := .make (1 : ℚ) (0 : ℚ) (0 : ℚ) },
      { Transform.empty with mParentId := 0 }] }

theorem rootedTree_belowMoved : RootedTree (parentIds belowMoved.mTransforms) :=
  rootedTree_star (r := 0) (by decide) rfl (by decide)

/-- The copy of the child says that it has a world matrix, and has its local one. -/
theorem copy_belowMoved_not_faithful :
    ∃ s' t', belowMoved.calcMatrices none = some (true, s') ∧ s'.mTransforms[1]? = some t' ∧
      ¬t'.Faithful t'.copy ∧ t'.copy.bWorldMatrix = true ∧
      ∀ l, TreePath (parentIds belowMoved.mTransforms) 1 l → t'.copy.mWorldMatrix ≠
        convertWorld none (worldAlong Transform.localMatrix belowMoved.mTransforms l) := by
  obtain ⟨s', h⟩ := calcMatrices_of_tree ⟨by decide, by decide⟩ rootedTree_belowMoved none
  have hroot : TreePath (parentIds belowMoved.mTransforms) 0 [0] := .root rfl
  have hparent : parentAt (parentIds belowMoved.mTransforms) 1 0 := ⟨rfl, by decide⟩
  have hpath : TreePath (parentIds belowMoved.mTransforms) 1 [0, 1] := .child hparent hroot
  have ht' := Subject.calcMatrices_path h rfl hpath
  have hworld : convertWorld none (worldAlong Transform.localMatrix belowMoved.mTransforms [0, 1]) ≠
      (belowMoved.mTransforms[1]).localMatrix := by decide +kernel
  refine ⟨s', _, h, ht', ?_, rfl, ?_⟩
  · rw [Transform.faithful_copy_iff]
    exact hworld
  · intro l hl
    rw [hl.unique hpath]
    exact hworld.symm

end Open3DStream
