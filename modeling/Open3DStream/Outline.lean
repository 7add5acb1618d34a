import Open3DStream.Channel

/-! What poses and packets leave alone in a list of subjects. -/

namespace Open3DStream

open Lib

variable {α β : Type}

/-- A subject without its name and without the values of its transforms. -/
def outline (s : Subject α β) :
    (Bool × SubjectKind) × String × List (List ComponentType × List (TransformMatrix α)) :=
  ((s.mEnabled, s.kind), s.mUuid, s.mTransforms.map fun t => (t.mTransformOrder, t.mMatrices))

structure SameOutline (l l' : SubjectList α β) : Prop where
  items : l'.mItems.map outline = l.mItems.map outline
  threshold : l'.mDeltaThreshold = l.mDeltaThreshold
  context : l'.mContext = l.mContext

/-- What a view has to agree with. -/
def shape (s : Subject α β) : (Bool × SubjectKind) × String × Nat :=
  ((s.mEnabled, s.kind), s.mUuid, s.mTransforms.length)

theorem shape_of_outline {items items' : List (Subject α β)}
    (h : items'.map outline = items.map outline) : items'.map shape = items.map shape := by
  have hshape (l : List (Subject α β)) :
      l.map shape = (l.map outline).map fun x => (x.1, x.2.1, x.2.2.length) := by
    rw [List.map_map]
    apply List.map_congr_left
    intro s _
    rw [Function.comp_apply, outline, List.length_map]
    rfl
  rw [hshape, h, hshape]

theorem uuids_of_shape {items items' : List (Subject α β)}
    (h : items'.map shape = items.map shape) :
    items'.map (·.mUuid) = items.map (·.mUuid) := by
  have hs := congrArg (List.map fun x => x.2.1) h
  rw [List.map_map, List.map_map] at hs
  exact hs

theorem views_of_shape {items items' : List (Subject α β)} {vs : List (SentView α)}
    (h : items'.map shape = items.map shape) (hv : List.Forall₂ Views (broadcast items) vs) :
    List.Forall₂ Views (broadcast items') vs := by
  have hb := forall₂_of_map_eq (broadcast_congr Prod.fst (fun _ => rfl) h)
  refine forall₂_trans ?_ hb hv
  intro s' s v hs hsv
  have hkind : s'.kind = s.kind := congrArg (fun x => x.1.2) hs
  have huuid : s'.mUuid = s.mUuid := congrArg (fun x => x.2.1) hs
  have hlength : s'.mTransforms.length = s.mTransforms.length := congrArg (fun x => x.2.2) hs
  exact ⟨hsv.kind.trans hkind.symm, hsv.uuid.trans huuid.symm, hlength.trans hsv.length⟩

namespace SameOutline

variable {l l' l'' : SubjectList α β}

theorem refl (l : SubjectList α β) : SameOutline l l := ⟨rfl, rfl, rfl⟩

theorem trans (h : SameOutline l l') (h' : SameOutline l' l'') : SameOutline l l'' :=
  ⟨h'.items.trans h.items, h'.threshold.trans h.threshold, h'.context.trans h.context⟩

theorem pose (l : SubjectList α β) (i j : Nat) {f : Transform α → Transform α}
    (hf : ∀ t, (f t).mTransformOrder = t.mTransformOrder ∧ (f t).mMatrices = t.mMatrices) :
    SameOutline l { l with mItems := poseAt i j f l.mItems } := by
  refine ⟨?_, rfl, rfl⟩
  apply map_modify_eq
  intro s
  have hts := map_modify_eq (g := fun t : Transform α => (t.mTransformOrder, t.mMatrices)) (f := f)
    (fun t => by rw [(hf t).1, (hf t).2]) s.mTransforms j
  rw [outline, hts]
  rfl

theorem map {f : Subject α β → Subject α β} (h : ∀ s, outline (f s) = outline s)
    (l : SubjectList α β) : SameOutline l { l with mItems := l.mItems.map f } := by
  refine ⟨?_, rfl, rfl⟩
  change (l.mItems.map f).map outline = _
  rw [List.map_map]
  exact List.map_congr_left fun s _ => h s

variable [Numeric α β]

theorem allFinite (l : SubjectList α β) : SameOutline l l.allFinite.2 := by
  obtain ⟨hbare, hframe⟩ := allFinite_frame l
  refine ⟨map_of_bare ?_ hbare, ?_, ?_⟩
  · intro s
    rw [outline, Subject.bare, List.map_map]
    rfl
  · rw [hframe]
  · rw [hframe]

theorem outline_markSent (threshold : α) (s : Subject α β) :
    outline (s.serializeUpdate threshold).2.2 = outline s := by
  change (_, _, (s.mTransforms.map (Transform.markSent threshold)).map _) = _
  rw [List.map_map, outline]
  congr 2
  apply List.map_congr_left
  intro t _
  rw [Function.comp_apply, Transform.markSent]
  split <;> rfl

theorem outline_serialize (s : Subject α β) : outline s.serialize.2 = outline s := by
  change (_, _, (s.mTransforms.map fun t => (t.serialize (β := β)).2).map _) = _
  rw [List.map_map]
  rfl

theorem sentFull (l : SubjectList α β) :
    SameOutline l { l with mItems := l.mItems.map (Subject.sentFull l.mDeltaThreshold) } := by
  apply map
  intro s
  rw [Subject.sentFull]
  split
  · exact (outline_markSent _ _).trans (outline_serialize s)
  · rfl

theorem sentUpdate (l : SubjectList α β) :
    SameOutline l { l with mItems := l.mItems.map (Subject.sentUpdate l.mDeltaThreshold) } := by
  apply map
  intro s
  rw [Subject.sentUpdate]
  split
  · exact outline_markSent _ s
  · rfl

variable [Wire α β]

theorem serialize (l : SubjectList α β) (timestamp : α) (timecode : String) (now : α) :
    SameOutline l (l.serialize timestamp timecode now).2 := by
  by_cases hf : ItemsFinite l.mItems
  · rw [SubjectList.serialize_of_finite hf]
    exact .sentFull l
  · rw [SubjectList.serialize_of_not hf]
    exact .allFinite l

theorem serializeUpdate (l : SubjectList α β) (timestamp : α) (timecode : String) (now : α) :
    SameOutline l (l.serializeUpdate timestamp timecode now).2.2 := by
  by_cases hf : ItemsFinite l.mItems
  · obtain ⟨count, hs⟩ := SubjectList.serializeUpdate_of_finite hf timestamp timecode now
    rw [hs]
    exact .sentUpdate l
  · rw [SubjectList.serializeUpdate_of_not hf]
    exact .allFinite l

end SameOutline

section ready

variable [Numeric α β]

/-- A list whose packets the receiver can follow. -/
structure Ready (Items : SubjectList α β) (heard : List (SentView α)) : Prop where
  uuids : (Items.mItems.map (·.mUuid)).Nodup
  enough : ∀ s ∈ Items.mItems, s.mEnabled = true → ∀ t ∈ s.mTransforms, t.narrowed.EnoughMatrices
  views : List.Forall₂ Views (broadcast Items.mItems) heard

theorem enough_congr {t t' : Transform α} (ho : t'.mTransformOrder = t.mTransformOrder)
    (hm : t'.mMatrices = t.mMatrices) (h : t.narrowed.EnoughMatrices) :
    t'.narrowed.EnoughMatrices := by
  rw [Transform.EnoughMatrices, Transform.narrowed] at h ⊢
  rw [ho, hm]
  exact h

theorem Ready.of_outline {l l' : SubjectList α β} {heard : List (SentView α)}
    (h : Ready l heard) (ho : SameOutline l l') : Ready l' heard := by
  have hs := shape_of_outline ho.items
  refine ⟨?_, ?_, views_of_shape hs h.views⟩
  · rw [uuids_of_shape hs]
    exact h.uuids
  · intro s' hs' he t' ht'
    obtain ⟨s, hs, hsame⟩ := List.mem_map.mp (ho.items ▸ List.mem_map_of_mem hs')
    have henabled : s.mEnabled = s'.mEnabled := congrArg (fun x => x.1.1) hsame
    have hts : s.mTransforms.map (fun t => (t.mTransformOrder, t.mMatrices)) =
        s'.mTransforms.map fun t => (t.mTransformOrder, t.mMatrices) :=
      congrArg (fun x => x.2.2) hsame
    obtain ⟨t, ht, heq⟩ := List.mem_map.mp (hts ▸ List.mem_map_of_mem ht')
    rw [Prod.mk.injEq] at heq
    exact enough_congr heq.1.symm heq.2.symm (h.enough s hs (henabled.trans he) t ht)

end ready

end Open3DStream
