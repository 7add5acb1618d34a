import Open3DStream.Lib.Partial
import Open3DStream.SubjectList

namespace Open3DStream

variable {α β : Type} [Numeric α β]

namespace Data

/-- The fields of a node that are read without a null check. -/
structure Transform.Complete (d : Data.Transform β) : Prop where
  name : d.name.isSome
  components : d.components.isSome
  matrix : d.matrix.isSome

/-- The fields of a definition that are read without a null check. -/
structure SubjectData.Complete (d : SubjectData β) : Prop where
  name : d.name.isSome
  uuid : d.uuid.isSome
  nodes : d.nodes.isSome
  each : ∀ n ∈ d.nodes.getD [], n.Complete

/-- The fields of an update that are read without a null check. -/
structure SubjectUpdate.Complete (u : SubjectUpdate β) : Prop where
  uuid : u.uuid.isSome
  translation : u.translation.isSome
  rotation : u.rotation.isSome
  scale : u.scale.isSome

/-- The transform that a node stands for. -/
def Transform.described (d : Data.Transform β) : Open3DStream.Transform α :=
  { Open3DStream.Transform.empty with
    mName := d.name.getD ""
    mParentId := d.parent
    translation := d.translation.elim Open3DStream.Transform.empty.translation .read
    rotation := d.rotation.elim Open3DStream.Transform.empty.rotation .read
    scale := d.scale.elim Open3DStream.Transform.empty.scale .read
    mTransformOrder := (d.components.getD []).filterMap Open3DStream.Transform.componentOf
    mMatrices := (d.matrix.getD []).map .read }

/-- The subject after its definition has been read. -/
def SubjectData.described (d : SubjectData β) (s : Subject α β) : Subject α β :=
  { s with
    mName := d.name.getD ""
    mUuid := d.uuid.getD ""
    mTransforms := (d.nodes.getD []).map Transform.described }

/-- The subject after an update has been read. -/
def SubjectUpdate.applied (u : SubjectUpdate β) (s : Subject α β) : Subject α β :=
  let ts := Subject.applyUpdates Subject.readTranslation (u.translation.getD []) s.mTransforms
  let ts := Subject.applyUpdates Subject.readRotation (u.rotation.getD []) ts
  { s with mTransforms := Subject.applyUpdates Subject.readScale (u.scale.getD []) ts }

end Data

theorem Transform.parse_eq_some_iff (d : Data.Transform β) (t : Transform α) :
    Transform.empty.parse d = some t ↔ d.Complete ∧ t = d.described := by
  refine ⟨?_, ?_⟩
  · intro h
    simp only [Transform.parse, Option.bind_eq_bind, Option.bind_eq_some_iff, Option.some.injEq] at h
    obtain ⟨name, hn, components, hc, matrices, hm, rfl⟩ := h
    refine ⟨⟨by simp [hn], by simp [hc], by simp [hm]⟩, ?_⟩
    simp [Data.Transform.described, Transform.empty, hn, hc, hm]
  · rintro ⟨⟨hn, hc, hm⟩, rfl⟩
    obtain ⟨name, hn⟩ := Option.isSome_iff_exists.mp hn
    obtain ⟨components, hc⟩ := Option.isSome_iff_exists.mp hc
    obtain ⟨matrices, hm⟩ := Option.isSome_iff_exists.mp hm
    simp [Transform.parse, Data.Transform.described, Transform.empty, hn, hc, hm]

theorem Subject.parse_eq_some_iff (s s' : Subject α β) (d : Data.SubjectData β) :
    s.parse d = some s' ↔ d.Complete ∧ s' = d.described s := by
  have hnodes := Lib.mapM_eq_some_iff (Transform.parse_eq_some_iff (α := α) (β := β))
  refine ⟨?_, ?_⟩
  · intro h
    simp only [Subject.parse, Option.bind_eq_bind, Option.bind_eq_some_iff, Option.some.injEq] at h
    obtain ⟨name, hn, uuid, hu, nodes, hs, ts, hts, rfl⟩ := h
    obtain ⟨heach, rfl⟩ := (hnodes nodes ts).mp hts
    refine ⟨⟨by simp [hn], by simp [hu], by simp [hs], by simpa [hs] using heach⟩, ?_⟩
    simp [Data.SubjectData.described, hn, hu, hs]
  · rintro ⟨⟨hn, hu, hs, heach⟩, rfl⟩
    obtain ⟨name, hn⟩ := Option.isSome_iff_exists.mp hn
    obtain ⟨uuid, hu⟩ := Option.isSome_iff_exists.mp hu
    obtain ⟨nodes, hs⟩ := Option.isSome_iff_exists.mp hs
    rw [hs] at heach
    have hts := (hnodes nodes _).mpr ⟨heach, rfl⟩
    simp [Subject.parse, Data.SubjectData.described, hn, hu, hs, hts]

theorem Subject.parseUpdate_eq_some_iff (s s' : Subject α β) (u : Data.SubjectUpdate β) :
    s.parseUpdate u = some s' ↔ u.Complete ∧ s' = u.applied s := by
  refine ⟨?_, ?_⟩
  · intro h
    simp only [Subject.parseUpdate, Option.bind_eq_bind, Option.bind_eq_some_iff,
      Option.some.injEq] at h
    obtain ⟨uuid, hu, translations, ht, rotations, hr, scales, hs, rfl⟩ := h
    refine ⟨⟨by simp [hu], by simp [ht], by simp [hr], by simp [hs]⟩, ?_⟩
    simp [Data.SubjectUpdate.applied, ht, hr, hs]
  · rintro ⟨⟨hu, ht, hr, hs⟩, rfl⟩
    obtain ⟨uuid, hu⟩ := Option.isSome_iff_exists.mp hu
    obtain ⟨translations, ht⟩ := Option.isSome_iff_exists.mp ht
    obtain ⟨rotations, hr⟩ := Option.isSome_iff_exists.mp hr
    obtain ⟨scales, hs⟩ := Option.isSome_iff_exists.mp hs
    simp [Subject.parseUpdate, Data.SubjectUpdate.applied, hu, ht, hr, hs]

end Open3DStream
