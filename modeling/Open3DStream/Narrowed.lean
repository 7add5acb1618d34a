import Open3DStream.Deltas

/-! The copy of a subject that a full packet builds. -/

namespace Open3DStream

open Numeric

variable {α β : Type} [Numeric α β]

namespace Transform

/-- The transform a receiver builds: every value goes through a `float`. -/
def narrowed (t : Transform α) : Transform α :=
  { empty with
    mName := t.mName
    mParentId := t.mParentId
    translation := .read (t.translation.value.map narrow)
    rotation := .read (t.rotation.value.map narrow)
    scale := .read (t.scale.value.map narrow)
    mTransformOrder := t.mTransformOrder.filter fun c => decide (c ≠ .TOrientation)
    mMatrices := t.mMatrices.map fun m => ⟨(m.value.map narrow).map widen⟩ }

theorem filterMap_components (ops : List ComponentType) :
    (ops.filterMap componentCode).filterMap componentOf =
      ops.filter fun c => decide (c ≠ .TOrientation) := by
  induction ops with
  | nil => rfl
  | cons op ops ih =>
    rw [List.filterMap_cons, List.filter_cons]
    cases op <;> simp [componentCode, componentOf, ih]

theorem described_serialize (t : Transform α) :
    (t.serialize (β := β)).1.described = t.narrowed := by
  simp only [serialize, Data.Transform.described, Option.getD_some, Option.elim_some,
    filterMap_components, List.map_map]
  rfl

theorem serialize_complete (t : Transform α) : (t.serialize (β := β)).1.Complete :=
  ⟨rfl, rfl, rfl⟩

/-- The update that goes out with a full packet restates what the packet says. -/
theorem follow_narrowed (threshold : α) (t : Transform α) :
    follow (β := β) threshold (t.serialize (β := β)).2 t.narrowed = t.narrowed := by
  have ht : ((t.serialize (β := β)).2.emitTranslation threshold).elim
      t.narrowed.translation .read = t.narrowed.translation := by
    rw [emitTranslation]
    split <;> rfl
  have hr : ((t.serialize (β := β)).2.emitRotation threshold).elim
      t.narrowed.rotation .read = t.narrowed.rotation := by
    rw [emitRotation]
    split <;> rfl
  rw [follow, ht, hr]

end Transform

namespace Subject

/-- The lens fields that a packet about the subject carries. -/
def lens (s : Subject α β) : Lens β :=
  match s.derived with
  | .camera lens => lens
  | _ => Lens.zero (α := α)

/-- The subject a receiver builds; a camera's aspect is not sent. -/
def received (s : Subject α β) : Subject α β :=
  { s with
    derived := match s.derived with
      | .camera lens => .camera { lens with aspect := floatZero α }
      | d => d
    mTransforms := s.mTransforms.map Transform.narrowed
    mError := ""
    mEnabled := true }

@[simp] theorem received_kind (s : Subject α β) : s.received.kind = s.kind := by
  simp only [received, kind]
  cases s.derived <;> rfl

theorem serialize_complete (s : Subject α β) : s.serialize.1.Complete := by
  refine ⟨rfl, rfl, rfl, ?_⟩
  intro n hn
  obtain ⟨t, -, rfl⟩ := List.mem_map.mp hn
  exact t.serialize_complete

theorem serializeUpdate_complete (s : Subject α β) (threshold : α) :
    (s.serializeUpdate threshold).1.Complete :=
  ⟨rfl, rfl, rfl, rfl⟩

/-- Reading the definition of a subject. -/
theorem described_serialize (s r : Subject α β) :
    s.serialize.1.described r =
      { r with mName := s.mName, mUuid := s.mUuid, mTransforms := s.mTransforms.map .narrowed } := by
  have h : s.mTransforms.map (fun t => (t.serialize (β := β)).1.described) =
      s.mTransforms.map Transform.narrowed :=
    List.map_congr_left fun t _ => t.described_serialize
  simp only [serialize, Data.SubjectData.described, Option.getD_some, List.map_map]
  rw [← h]
  rfl

/-- Reading the update that goes out with the definition changes nothing. -/
theorem applied_narrowed {s r : Subject α β} (threshold : α)
    (h : r.mTransforms = s.mTransforms.map .narrowed) :
    (s.serialize.2.serializeUpdate threshold).1.applied r = r := by
  rw [applied_serializeUpdate _ _ _ (by simp [serialize, h])]
  have hzip : List.zipWith (Transform.follow (β := β) threshold) s.serialize.2.mTransforms
      r.mTransforms = r.mTransforms := by
    rw [h, serialize]
    dsimp only
    rw [List.zipWith_map, List.zipWith_self]
    exact List.map_congr_left fun t _ => t.follow_narrowed threshold
  rw [hzip]

end Subject

end Open3DStream
