import Open3DStream.Acceptance
import Open3DStream.Lib.Lists
import Open3DStream.WorldMatrix

/-! Parsing undoes full serialization. -/

namespace Open3DStream

open Lib Numeric

variable {α β : Type}

/-! ### The context -/

theorem readDirection_write {d : Direction} (h : d ≠ .Last) :
    readDirection (writeDirection d) = d := by
  cases d <;> simp_all [readDirection, writeDirection]

theorem readUnit_write {d : DistanceUnit} (h : ∀ code, d ≠ .other code) :
    readUnit (writeUnit d) = d := by
  cases d <;> simp_all [readUnit, writeUnit]

/-- A context whose fields are named by their enumerations. -/
structure Context.Named (c : Context) : Prop where
  x : c.mX ≠ .Last
  y : c.mY ≠ .Last
  z : c.mZ ≠ .Last
  unit : ∀ code, c.mDistance ≠ .other code

theorem readContext_createRoot {c : Context} (h : c.Named) (definitions : Bool) (out : Sections β)
    (timestamp : α) (timecode : String) (env : TimeEnvelope) :
    readContext (createRoot definitions out timestamp timecode c env) = c := by
  rw [readContext, createRoot]
  dsimp only
  rw [readDirection_write h.x, readDirection_write h.y, readDirection_write h.z,
    readUnit_write h.unit]

/-! ### Copies -/

variable [Numeric α β]

/-- A value that has been through a `float`. -/
def Vector3d.narrowed (v : Vector3d α) : Vector3d α := (v.map narrow).map widen

def Quaterniond.narrowed (q : Quaterniond α) : Quaterniond α := (q.map narrow).map widen

def Matrix.narrowed (m : Matrix α) : Matrix α := (m.map narrow).map widen

/-- `u` is what a receiver should hold for the transform `t`. -/
structure Transform.Copies (t u : Transform α) : Prop where
  name : u.mName = t.mName
  parent : u.mParentId = t.mParentId
  order : u.mTransformOrder = t.mTransformOrder
  translation : u.translation.value = t.translation.value.narrowed
  rotation : u.rotation.value = t.rotation.value.narrowed
  scale : u.scale.value = t.scale.value.narrowed
  matrices : u.mMatrices.map (·.value) = t.mMatrices.map (·.value.narrowed)

/-- `r` is what a receiver should hold for the subject `s`. -/
structure Subject.Copies (s r : Subject α β) : Prop where
  kind : r.kind = s.kind
  uuid : r.mUuid = s.mUuid
  name : r.mName = s.mName
  transforms : List.Forall₂ Transform.Copies s.mTransforms r.mTransforms

theorem Transform.copies_narrowed {t u : Transform α}
    (ht : ∀ c ∈ t.mTransformOrder, c ≠ .TOrientation) (h : u.bare = t.narrowed.bare) :
    t.Copies u := by
  have field {γ : Type} (f : Transform α → γ) (hf : ∀ x, f x.bare = f x) : f u = f t.narrowed := by
    rw [← hf u, h, hf]
  have horder : t.narrowed.mTransformOrder = t.mTransformOrder :=
    List.filter_eq_self.mpr fun c hc => decide_eq_true (ht c hc)
  have hmatrices : t.narrowed.mMatrices.map (·.value) = t.mMatrices.map (·.value.narrowed) := by
    change (t.mMatrices.map _).map _ = _
    rw [List.map_map]
    rfl
  exact ⟨field (·.mName) fun _ => rfl, field (·.mParentId) fun _ => rfl,
    (field (·.mTransformOrder) fun _ => rfl).trans horder,
    field (·.translation.value) fun _ => rfl, field (·.rotation.value) fun _ => rfl,
    field (·.scale.value) fun _ => rfl,
    (field (fun x => x.mMatrices.map (·.value)) fun _ => rfl).trans hmatrices⟩

theorem Subject.copies_received {s r : Subject α β}
    (hs : ∀ t ∈ s.mTransforms, ∀ c ∈ t.mTransformOrder, c ≠ .TOrientation)
    (h : r.bare = s.received.bare) : s.Copies r := by
  have field {γ : Type} (f : Subject α β → γ) (hf : ∀ x, f x.bare = f x) : f r = f s.received := by
    rw [← hf r, h, hf]
  have hts : r.mTransforms.map Transform.bare =
      (s.mTransforms.map Transform.narrowed).map Transform.bare := congrArg Subject.mTransforms h
  rw [List.map_map] at hts
  refine ⟨(field Subject.kind fun _ => rfl).trans s.received_kind, field (·.mUuid) fun _ => rfl,
    field (·.mName) fun _ => rfl, ?_⟩
  have hall := (List.forall₂_and_left _ _).mpr ⟨hs, forall₂_of_map_eq hts.symm⟩
  exact hall.imp fun t u htu => t.copies_narrowed htu.1 htu.2.symm

/-! ### The round trip -/

theorem Transform.narrowed_allFinite {t : Transform α} (h : t.narrowed.valuesFinite = true) :
    t.narrowed.allFinite = true := by
  rw [allFinite_iff]
  exact ⟨Matrix.allFinite_identity, Matrix.allFinite_identity, h⟩

theorem Transform.narrowed_enough {t : Transform α} (h : t.EnoughMatrices) :
    t.narrowed.EnoughMatrices := by
  have hcount : t.narrowed.mTransformOrder.count .TMatrix = t.mTransformOrder.count .TMatrix :=
    List.count_filter (by decide)
  have hlength : t.narrowed.mMatrices.length = t.mMatrices.length := List.length_map _
  rw [EnoughMatrices, hcount, hlength]
  exact h

/-- What a list must be for its full packet to be understood. -/
structure SubjectList.Sendable (l : SubjectList α β) : Prop where
  uuids : (l.mItems.map (·.mUuid)).Nodup
  context : l.mContext.Named
  finite : ItemsFinite l.mItems
  narrowed : ∀ s ∈ l.mItems, ∀ t ∈ s.mTransforms, t.narrowed.valuesFinite = true
  trees : ∀ s ∈ l.mItems, s.mEnabled = true → RootedTree (parentIds s.mTransforms)
  orders : ∀ s ∈ l.mItems, ∀ t ∈ s.mTransforms, ∀ c ∈ t.mTransformOrder, c ≠ .TOrientation
  enough : ∀ s ∈ l.mItems, ∀ t ∈ s.mTransforms, t.EnoughMatrices

theorem SubjectList.Sendable.acceptable [ExactArith α] {l : SubjectList α β} (h : l.Sendable) :
    ∀ s ∈ l.mItems, s.mEnabled = true → Subject.Acceptable (s.mTransforms.map .narrowed) := by
  intro s hs he
  have hids : parentIds (s.mTransforms.map Transform.narrowed) = parentIds s.mTransforms := by
    rw [parentIds, List.map_map]
    rfl
  have hw : WellFormed (s.mTransforms.map Transform.narrowed) := by
    refine ⟨?_, ?_⟩
    · intro u hu
      obtain ⟨t, ht, rfl⟩ := List.mem_map.mp hu
      exact Transform.narrowed_allFinite (h.narrowed s hs t ht)
    · intro u hu
      obtain ⟨t, ht, rfl⟩ := List.mem_map.mp hu
      exact Transform.narrowed_enough (h.enough s hs t ht)
  have htree := h.trees s hs he
  apply hw.acceptable
  · rw [hids]
    exact htree.oneRoot
  · rw [hids]
    exact htree.validIds

/-- A fresh receiver holds a copy of each enabled subject, performers before rigid
bodies before cameras, with the sender's time and context. -/
theorem parse_serialize [ExactArith α] [Wire α β] [LawfulWire α β] {l : SubjectList α β}
    (h : l.Sendable) {timestamp : α} (hts : timestamp ≠ 0) (timecode : String) (now threshold : α)
    (clearInactive : Bool) :
    ∃ buf l' r, l.serialize timestamp timecode now = (some buf, l') ∧
      (SubjectList.empty threshold).parse (some buf) clearInactive = some (true, r) ∧
      List.Forall₂ Subject.Copies (broadcast l.mItems) r.mItems ∧
      r.mTime = timestamp ∧ r.mTimecode = timecode ∧ r.mContext = l.mContext := by
  obtain ⟨r, hr⟩ := (SubjectList.parse_outgoing_true_iff l h.uuids timestamp timecode now threshold
    clearInactive).mpr h.acceptable
  refine ⟨_, _, r, SubjectList.serialize_of_finite h.finite timestamp timecode now, hr, ?_⟩
  rw [SubjectList.parse_outgoing] at hr
  obtain ⟨hitems, hframe⟩ := SubjectList.parseRoot_frame (SubjectList.empty_not_rejected _ _) hr
  have happ : (l.outgoing timestamp timecode now).applied [] =
      (broadcast l.mItems).map Subject.received := applied_fullRoot _ _ _ _ _ h.uuids
  rw [SubjectList.empty_kept, happ, List.map_map] at hitems
  have horders : ∀ s ∈ broadcast l.mItems, ∀ t ∈ s.mTransforms, ∀ c ∈ t.mTransformOrder,
      c ≠ .TOrientation := fun s hs => h.orders s (mem_broadcast.mp hs).1
  have hcopies := (List.forall₂_and_left _ _).mpr ⟨horders, forall₂_of_map_eq hitems.symm⟩
  refine ⟨hcopies.imp fun s r hsr => Subject.copies_received hsr.1 hsr.2.symm, ?_, ?_, ?_⟩
  · rw [hframe]
    exact if_neg hts
  · rw [hframe]
    rfl
  · rw [hframe]
    exact readContext_createRoot h.context _ _ _ _ _

/-- A sender whose one performer lists a child before its root. -/
def childFirstSender : SubjectList Extended Extended :=
  { freshList with mItems := [childFirst], mContext := ⟨.Right, .Up, .Forward, .Meter⟩ }

theorem sendable_childFirstSender : childFirstSender.Sendable := by
  refine ⟨by decide, ⟨by decide, by decide, by decide, ?_⟩, by unfold ItemsFinite; decide,
    by decide, ?_, by decide, by decide⟩
  · intro code hcode
    cases hcode
  · intro s hs _
    rw [List.mem_singleton.mp hs]
    exact rootedTree_childFirst

theorem parse_serialize_childFirstSender :
    ∃ buf l' r, childFirstSender.serialize 5 "01:00:00:00" 1 = (some buf, l') ∧
      freshList.parse (some buf) false = some (true, r) ∧
      List.Forall₂ Subject.Copies (broadcast childFirstSender.mItems) r.mItems ∧
      r.mTime = 5 ∧ r.mTimecode = "01:00:00:00" ∧ r.mContext = childFirstSender.mContext :=
  parse_serialize sendable_childFirstSender (by decide) "01:00:00:00" 1 _ false

end Open3DStream
