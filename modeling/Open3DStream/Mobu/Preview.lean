import Open3DStream.Lib.Machine
import Open3DStream.Mobu.Items
import Open3DStream.Outline
import Open3DStream.Refresh

/-! Frames of the MotionBuilder plugin, and size previews between them. -/

namespace Open3DStream.Mobu

open Lib Numeric

variable {α β : Type}

/-- The plugin's list, and what its frames have told a receiver: a view of every subject that is
broadcast, with the values that were last written to a packet for it. -/
structure Teller (α β : Type) where
  Items : SubjectList α β
  heard : List (SentView α)

structure Session (α β : Type) where
  teller : Teller α β
  receiver : SubjectList α β

/-- Where a run starts: a receiver has read a full packet of a list. -/
def Session.start (l l₀ r₀ : SubjectList α β) : Session α β :=
  ⟨⟨l₀, (broadcast l.mItems).map Subject.toldView⟩, r₀⟩

inductive Event (α : Type) where
  | pose (subject transform : Nat) (Translation : Vector3d α) (Rotation : Quaterniond α)
      (Scaling : Vector3d α)
  | frame (keyframe : Bool) (time now : α)
  | select (ItemIndex : Int) (mJoints : List String) (model : FBModel α) (now now' : α)

variable [Numeric α β]

/-- The performer that is selected gets new transforms. -/
def rebuilt (Items : SubjectList α β) (id : Nat) (mJoints : List String) (model : FBModel α) :
    SubjectList α β :=
  let items := Items.mItems.modify id fun s =>
    { s with mTransforms := TraverseSubject mJoints s.mTransforms model (-1) }
  { Items with mItems := items }

variable [Wire α β]

/-- Both packets are written for their sizes and dropped. -/
def preview (Items : SubjectList α β) (now now' : α) : SubjectList α β :=
  let (_, Items) := Items.serialize 0 "" now
  (Items.serializeUpdate 0 "" now').2.2

def PopulateSubjectFields (Items : SubjectList α β) (ItemIndex : Int) (mJoints : List String)
    (model : FBModel α) (now now' : α) : SubjectList α β :=
  if ItemIndex < 0 then Items
  else
    match Items.mItems[ItemIndex.toNat]? with
    | none => Items
    | some s =>
      match s.derived with
      | .performer => preview (rebuilt Items ItemIndex.toNat mJoints model) now now'
      | _ => Items

namespace Teller

/-- The packet a step writes for the receiver, and what the receiver has then been told. -/
def tell (t : Teller α β) : Event α → Option (List UInt8) × Teller α β
  | .pose i j Translation Rotation Scaling =>
    let items := poseAt i j (posed Translation Rotation Scaling) t.Items.mItems
    (none, { t with Items := { t.Items with mItems := items } })
  | .frame keyframe time now =>
    match writeFrame t.Items keyframe time now with
    | (none, Items) => (none, { t with Items := Items })
    | (some buf, Items) =>
      let heard := if keyframe then (broadcast t.Items.mItems).map Subject.toldView
        else List.zipWith (Subject.told t.Items.mDeltaThreshold) (broadcast t.Items.mItems) t.heard
      (some buf, ⟨Items, heard⟩)
  | .select ItemIndex mJoints model now now' =>
    (none, { t with Items := PopulateSubjectFields t.Items ItemIndex mJoints model now now' })

end Teller

namespace Session

/-- Every packet is delivered; `none` is a parse that does not finish. -/
def step (c : Session α β) (e : Event α) : Option (Option (List UInt8) × Session α β) :=
  match c.teller.tell e with
  | (none, t) => some (none, { c with teller := t })
  | (some buf, t) => do
    let (_, r) ← c.receiver.parse (some buf) false
    some (some buf, ⟨t, r⟩)

end Session

theorem preview_outline (l : SubjectList α β) (now now' : α) :
    SameOutline l (preview l now now') :=
  (SameOutline.serialize l 0 "" now).trans (.serializeUpdate _ 0 "" now')

theorem writeFrame_of_not {Items : SubjectList α β} (h : ¬ItemsFinite Items.mItems)
    (keyframe : Bool) (time now : α) :
    writeFrame Items keyframe time now = (none, Items.allFinite.2) := by
  have hf := SubjectList.allFinite_of_not h
  rw [writeFrame]
  generalize Items.allFinite = r at hf
  obtain ⟨ok, l⟩ := r
  cases hf
  rfl

theorem writeFrame_keyframe {Items : SubjectList α β} (h : ItemsFinite Items.mItems)
    (time now : α) : writeFrame Items true time now =
      (some (finalize (Items.outgoing time "" now) 1),
        { Items with mItems := Items.mItems.map (Subject.sentFull Items.mDeltaThreshold) }) := by
  rw [writeFrame, SubjectList.allFinite_of_finite h]
  exact SubjectList.serialize_of_finite h time "" now

theorem writeFrame_update {Items : SubjectList α β} (h : ItemsFinite Items.mItems)
    (time now : α) : writeFrame Items false time now =
      (some (finalize (Items.outgoingUpdate time "" now) 2), Items.updated) := by
  obtain ⟨count, hs⟩ := SubjectList.serializeUpdate_of_finite h time "" now
  rw [writeFrame, SubjectList.allFinite_of_finite h]
  dsimp only
  rw [hs]
  rfl

namespace Teller

variable {t : Teller α β}

theorem tell_not_finite (h : ¬ItemsFinite t.Items.mItems) (keyframe : Bool) (time now : α) :
    t.tell (.frame keyframe time now) = (none, { t with Items := t.Items.allFinite.2 }) := by
  rw [tell, writeFrame_of_not h]

theorem tell_keyframe (h : ItemsFinite t.Items.mItems) (time now : α) :
    t.tell (.frame true time now) = (some (finalize (t.Items.outgoing time "" now) 1),
      ⟨{ t.Items with mItems := t.Items.mItems.map (Subject.sentFull t.Items.mDeltaThreshold) },
        (broadcast t.Items.mItems).map Subject.toldView⟩) := by
  rw [tell, writeFrame_keyframe h]
  rfl

theorem tell_update (h : ItemsFinite t.Items.mItems) (time now : α) :
    t.tell (.frame false time now) = (some (finalize (t.Items.outgoingUpdate time "" now) 2),
      ⟨t.Items.updated,
        List.zipWith (Subject.told t.Items.mDeltaThreshold) (broadcast t.Items.mItems) t.heard⟩) := by
  rw [tell, writeFrame_update h]
  rfl

end Teller

/-- The list of subjects is what it was: a performer that is selected has as many joints in the
scene as before. -/
def Teller.Unchanged (t : Teller α β) : Event α → Prop
  | .select ItemIndex mJoints model _ _ => 0 ≤ ItemIndex →
      ∀ s ∈ t.Items.mItems[ItemIndex.toNat]?, s.kind = .performer →
        (TraverseSubject mJoints s.mTransforms model (-1)).length = s.mTransforms.length
  | _ => True

omit [Wire α β] in
theorem rebuilt_ready {Items : SubjectList α β} {heard : List (SentView α)} (h : Ready Items heard)
    {id : Nat} {mJoints : List String} {model : FBModel α}
    (hlength : ∀ s ∈ Items.mItems[id]?,
      (TraverseSubject mJoints s.mTransforms model (-1)).length = s.mTransforms.length) :
    Ready (rebuilt Items id mJoints model) heard := by
  have hs : (rebuilt Items id mJoints model).mItems.map shape = Items.mItems.map shape := by
    apply map_modify_eq_of_get
    intro s hs
    rw [shape, hlength s hs]
    rfl
  refine ⟨?_, ?_, views_of_shape hs h.views⟩
  · rw [uuids_of_shape hs]
    exact h.uuids
  · intro s' hs' he t ht
    obtain ⟨k, hk⟩ := List.mem_iff_getElem?.mp hs'
    obtain ⟨s, hs, hcase⟩ := getElem?_modify_cases hk
    cases hcase with
    | inl heq =>
      subst heq
      exact h.enough _ (List.mem_of_getElem? hs) he t ht
    | inr heq =>
      subst heq
      apply Transform.narrowed_enough
      exact enough_traverseSubject mJoints s.mTransforms model (-1) (absurd rfl) t ht

theorem populateSubjectFields_ready {t : Teller α β} (h : Ready t.Items t.heard) {ItemIndex : Int}
    {mJoints : List String} {model : FBModel α} {now now' : α}
    (hu : t.Unchanged (.select ItemIndex mJoints model now now')) :
    let Items := PopulateSubjectFields t.Items ItemIndex mJoints model now now'
    Ready Items t.heard ∧ Items.mDeltaThreshold = t.Items.mDeltaThreshold ∧
      Items.mContext = t.Items.mContext := by
  dsimp only
  rw [PopulateSubjectFields]
  split
  · exact ⟨h, rfl, rfl⟩
  · split
    · exact ⟨h, rfl, rfl⟩
    · rename_i hid _ s hs
      split
      · rename_i hderived
        have hkind : s.kind = .performer := congrArg Derived.kind hderived
        have hready : Ready (rebuilt t.Items ItemIndex.toNat mJoints model) t.heard := by
          apply rebuilt_ready h
          intro s' hs'
          rw [hs, Option.mem_some_iff] at hs'
          exact hu (not_lt.mp hid) s' (hs ▸ hs' ▸ rfl) (hs' ▸ hkind)
        have ho := preview_outline (rebuilt t.Items ItemIndex.toNat mJoints model) now now'
        exact ⟨hready.of_outline ho, ho.threshold, ho.context⟩
      · exact ⟨h, rfl, rfl⟩

/-! ### Runs -/

namespace Session

/-- The receiver holds what it has been told, converted to `float`. -/
structure Hearing (c : Session α β) : Prop where
  ready : Ready c.teller.Items c.teller.heard
  threshold : 0 ≤ c.teller.Items.mDeltaThreshold
  context : c.receiver.mContext = c.teller.Items.mContext.carried
  mirrors : List.Forall₂ Mirrors c.teller.heard c.receiver.mItems

theorem step_eq (c : Session α β) (e : Event α) : c.step e =
    match (c.teller.tell e).1 with
    | none => some (none, { c with teller := (c.teller.tell e).2 })
    | some buf => (c.receiver.parse (some buf) false).map fun r =>
        (some buf, ⟨(c.teller.tell e).2, r.2⟩) := by
  rw [step]
  obtain ⟨buf, t⟩ := c.teller.tell e
  cases buf with
  | none => rfl
  | some buf =>
    dsimp only
    cases c.receiver.parse (some buf) false <;> rfl

omit [Wire α β] in
theorem Hearing.matches {c : Session α β} (h : c.Hearing) :
    List.Forall₂ Matches (broadcast c.teller.Items.mItems) c.receiver.mItems :=
  forall₂_trans (fun _ _ _ hsv hvr => hvr.matches hsv) h.ready.views h.mirrors

/-- A step that writes no packet. -/
theorem Hearing.quiet {c : Session α β} (h : c.Hearing) {e : Event α} {Items : SubjectList α β}
    (he : c.teller.tell e = (none, { c.teller with Items := Items }))
    (hr : Ready Items c.teller.heard) (hth : Items.mDeltaThreshold = c.teller.Items.mDeltaThreshold)
    (hctx : Items.mContext = c.teller.Items.mContext) :
    ∃ r, c.step e = some ((c.teller.tell e).1, ⟨(c.teller.tell e).2, r⟩) ∧
      (⟨(c.teller.tell e).2, r⟩ : Session α β).Hearing := by
  refine ⟨c.receiver, ?_, ?_⟩
  · rw [step_eq, he]
  · rw [he]
    exact ⟨hr, hth.symm ▸ h.threshold, hctx.symm ▸ h.context, h.mirrors⟩

/-- A step whose packet the receiver reads. -/
theorem Hearing.told {c : Session α β} (h : c.Hearing) {e : Event α} {buf : List UInt8}
    {Items : SubjectList α β} {heard : List (SentView α)}
    (he : c.teller.tell e = (some buf, ⟨Items, heard⟩)) (ho : SameOutline c.teller.Items Items)
    (hv : List.Forall₂ Views (broadcast c.teller.Items.mItems) heard)
    (hr : ∃ b r, c.receiver.parse (some buf) false = some (b, r) ∧
      List.Forall₂ Mirrors heard r.mItems ∧ r.mContext = c.teller.Items.mContext.carried) :
    ∃ r, c.step e = some ((c.teller.tell e).1, ⟨(c.teller.tell e).2, r⟩) ∧
      (⟨(c.teller.tell e).2, r⟩ : Session α β).Hearing := by
  obtain ⟨b, r, hparse, hmirrors, hcontext⟩ := hr
  refine ⟨r, ?_, ?_⟩
  · rw [step_eq, he]
    dsimp only
    rw [hparse, Option.map_some]
  · have hready : Ready c.teller.Items heard := ⟨h.ready.uuids, h.ready.enough, hv⟩
    rw [he]
    exact ⟨hready.of_outline ho, ho.threshold.symm ▸ h.threshold, ho.context.symm ▸ hcontext,
      hmirrors⟩

variable [LawfulWire α β]

/-- No step gets stuck, and the receiver keeps hearing. -/
theorem Hearing.step {c : Session α β} (h : c.Hearing) {e : Event α} (hu : c.teller.Unchanged e) :
    ∃ r, c.step e = some ((c.teller.tell e).1, ⟨(c.teller.tell e).2, r⟩) ∧
      (⟨(c.teller.tell e).2, r⟩ : Session α β).Hearing := by
  cases e with
  | pose i j Translation Rotation Scaling =>
    have ho := SameOutline.pose c.teller.Items i j (f := posed Translation Rotation Scaling)
      fun _ => ⟨rfl, rfl⟩
    exact h.quiet rfl (h.ready.of_outline ho) ho.threshold ho.context
  | select ItemIndex mJoints model now now' =>
    obtain ⟨hr, hth, hctx⟩ := populateSubjectFields_ready h.ready hu
    exact h.quiet rfl hr hth hctx
  | frame keyframe time now =>
    by_cases hf : ItemsFinite c.teller.Items.mItems
    · cases keyframe with
      | true =>
        refine h.told (Teller.tell_keyframe hf time now) (.sentFull c.teller.Items) ?_
          (mirrors_refreshed h.ready.uuids h.matches h.context h.ready.enough time "" now)
        rw [List.forall₂_map_right_iff, List.forall₂_same]
        exact fun s _ => ⟨rfl, rfl, (List.length_map _).symm⟩
      | false =>
        refine h.told (Teller.tell_update hf time now) (.sentUpdate c.teller.Items) ?_
          (mirrors_update h.ready.uuids h.ready.views h.mirrors h.context time "" now)
        refine forall₂_zipWith ?_ h.ready.views
        intro s v hsv
        refine ⟨hsv.kind, hsv.uuid, ?_⟩
        rw [Subject.told, List.length_zipWith, ← hsv.length, Nat.min_self]
    · have ho := SameOutline.allFinite c.teller.Items
      exact h.quiet (Teller.tell_not_finite hf keyframe time now) (h.ready.of_outline ho) ho.threshold
        ho.context

end Session

/-! ### After an update -/

namespace Teller

/-- Every value is within the threshold of what the receiver has been told. -/
def Near (t : Teller α β) : Prop :=
  ∀ x ∈ (broadcast t.Items.mItems).zip t.heard, ∀ y ∈ x.1.mTransforms.zip x.2.sent,
    TransformTranslation.delta ⟨y.1.translation.value, y.2.1⟩ ≤ t.Items.mDeltaThreshold ∧
      TransformRotation.delta ⟨y.1.rotation.value, y.2.2⟩ ≤ t.Items.mDeltaThreshold

/-- Every value is past the threshold from its last sent value, and so will be written, or is
within the threshold of what the receiver has been told. -/
def Current (t : Teller α β) : Prop :=
  ∀ x ∈ (broadcast t.Items.mItems).zip t.heard, ∀ y ∈ x.1.mTransforms.zip x.2.sent,
    (t.Items.mDeltaThreshold < y.1.translation.delta ∨
      TransformTranslation.delta ⟨y.1.translation.value, y.2.1⟩ ≤ t.Items.mDeltaThreshold) ∧
    (t.Items.mDeltaThreshold < y.1.rotation.delta ∨
      TransformRotation.delta ⟨y.1.rotation.value, y.2.2⟩ ≤ t.Items.mDeltaThreshold)

/-- What a step needs for its update to reach the receiver. -/
def Due (t : Teller α β) : Event α → Prop
  | .frame false _ _ => ItemsFinite t.Items.mItems → t.Current
  | _ => True

omit [Wire α β] in
theorem told_near_iff [ExactDistance α] {threshold : α} (hth : 0 ≤ threshold) {t : Transform α}
    (hf : t.allFinite = true) (p : Vector3d α × Quaterniond α) :
    (TransformTranslation.delta ⟨(t.markSent threshold).translation.value,
        (t.told threshold p).1⟩ ≤ threshold ↔
      threshold < t.translation.delta ∨
        TransformTranslation.delta ⟨t.translation.value, p.1⟩ ≤ threshold) ∧
    (TransformRotation.delta ⟨(t.markSent threshold).rotation.value,
        (t.told threshold p).2⟩ ≤ threshold ↔
      threshold < t.rotation.delta ∨
        TransformRotation.delta ⟨t.rotation.value, p.2⟩ ≤ threshold) := by
  obtain ⟨hv, -, hq, -⟩ := t.valuesFinite_iff.mp ((Transform.allFinite_iff t).mp hf).2.2
  obtain ⟨htranslation, hrotation⟩ := t.markSent_value threshold
  rw [htranslation, hrotation, Transform.told, hf]
  refine ⟨?_, ?_⟩
  · by_cases hd : threshold < t.translation.delta
    · have hself : TransformTranslation.delta ⟨t.translation.value, t.translation.value⟩ ≤ threshold :=
        (ExactDistance.vectorDistance_self hv).trans_le hth
      simp [hd, hself]
    · simp [hd]
  · by_cases hd : threshold < t.rotation.delta
    · have hself : TransformRotation.delta ⟨t.rotation.value, t.rotation.value⟩ ≤ threshold :=
        (ExactDistance.angularDistance_self hq).trans_le hth
      simp [hd, hself]
    · simp [hd]

theorem near_update_iff [ExactDistance α] {t : Teller α β} (hth : 0 ≤ t.Items.mDeltaThreshold)
    (hf : ItemsFinite t.Items.mItems) (time now : α) :
    (t.tell (.frame false time now)).2.Near ↔ t.Current := by
  rw [tell_update hf, Near, Current]
  change (∀ x ∈ (broadcast (t.Items.mItems.map _)).zip _, _) ↔ _
  rw [broadcast_map (sentUpdate_keeps _), zip_map_zipWith, List.forall_mem_map]
  apply forall₂_congr
  rintro ⟨s, v⟩ hx
  obtain ⟨hs, he⟩ := mem_broadcast.mp (List.of_mem_zip hx).1
  have hsent : (s.sentUpdate t.Items.mDeltaThreshold).mTransforms =
      s.mTransforms.map (Transform.markSent t.Items.mDeltaThreshold) := by
    rw [Subject.sentUpdate, if_pos he]
    rfl
  dsimp only
  rw [hsent, Subject.told, zip_map_zipWith, List.forall_mem_map]
  apply forall₂_congr
  rintro ⟨u, p⟩ hy
  obtain ⟨htranslation, hrotation⟩ := told_near_iff hth (hf s hs u (List.of_mem_zip hy).1) p
  exact and_congr htranslation hrotation

end Teller

namespace Session

/-- The receiver has every enabled subject, and each of its transforms holds values it has been
told, converted to `float`, that are within the threshold of those of the sender. -/
def Within (c : Session α β) : Prop :=
  ∀ s ∈ c.teller.Items.mItems, s.mEnabled = true →
    ∃ k r v, findSubjectByUuid s.kind s.mUuid c.receiver.mItems = some k ∧
      c.receiver.mItems[k]? = some r ∧ c.teller.heard[k]? = some v ∧
      r.mTransforms.length = s.mTransforms.length ∧
      ∀ (j : Nat) t, s.mTransforms[j]? = some t → ∃ u p, r.mTransforms[j]? = some u ∧
        v.sent[j]? = some p ∧
        (u.translation.value = p.1.narrowed ∧
          TransformTranslation.delta ⟨t.translation.value, p.1⟩ ≤ c.teller.Items.mDeltaThreshold) ∧
        u.rotation.value = p.2.narrowed ∧
          TransformRotation.delta ⟨t.rotation.value, p.2⟩ ≤ c.teller.Items.mDeltaThreshold

/-- After an update that has been sent, the receiver is within the threshold. -/
def Delivers (c : Session α β) : Event α → Prop
  | .frame false time now =>
    ∀ r ∈ c.step (.frame false time now), r.1 ≠ none → r.2.Within
  | _ => True

omit [Wire α β] in
theorem within_iff_near {c : Session α β} (h : c.Hearing) : c.Within ↔ c.teller.Near := by
  have hnodup : (c.receiver.mItems.map (·.mUuid)).Nodup := by
    rw [matches_uuids h.matches]
    exact broadcast_nodup h.ready.uuids
  -- where a subject that is broadcast is found
  have hplace {k : Nat} {s : Subject α β} (hk : (broadcast c.teller.Items.mItems)[k]? = some s) :
      ∃ v r, c.teller.heard[k]? = some v ∧ c.receiver.mItems[k]? = some r ∧ Views s v ∧
        Mirrors v r ∧ findSubjectByUuid s.kind s.mUuid c.receiver.mItems = some k := by
    obtain ⟨v, hv, hsv⟩ := forall₂_getElem? h.ready.views hk
    obtain ⟨r, hr, hvr⟩ := forall₂_getElem? h.mirrors hv
    have hfind := find_of_nodup hnodup hr
    rw [hvr.kind, hvr.uuid, hsv.kind, hsv.uuid] at hfind
    exact ⟨v, r, hv, hr, hsv, hvr, hfind⟩
  refine ⟨?_, ?_⟩
  · rintro hw ⟨s, v⟩ hx ⟨t, p⟩ hy
    obtain ⟨k, hk⟩ := List.mem_iff_getElem?.mp hx
    obtain ⟨hs, hv⟩ := List.getElem?_zip_eq_some.mp hk
    obtain ⟨hmem, he⟩ := mem_broadcast.mp (List.mem_of_getElem? hs)
    obtain ⟨-, -, -, -, -, -, hfind⟩ := hplace hs
    obtain ⟨k', r, v', hfind', hr, hv', -, hts⟩ := hw s hmem he
    cases hfind.symm.trans hfind'
    cases hv.symm.trans hv'
    obtain ⟨j, hj⟩ := List.mem_iff_getElem?.mp hy
    obtain ⟨ht, hp⟩ := List.getElem?_zip_eq_some.mp hj
    obtain ⟨u, p', -, hp', htranslation, hrotation⟩ := hts j t ht
    cases hp.symm.trans hp'
    exact ⟨htranslation.2, hrotation.2⟩
  · intro hn s hmem he
    obtain ⟨k, hk⟩ := List.mem_iff_getElem?.mp (mem_broadcast.mpr ⟨hmem, he⟩)
    obtain ⟨v, r, hv, hr, hsv, hvr, hfind⟩ := hplace hk
    have hx : (s, v) ∈ (broadcast c.teller.Items.mItems).zip c.teller.heard :=
      List.mem_of_getElem? (List.getElem?_zip_eq_some.mpr ⟨hk, hv⟩)
    refine ⟨k, r, v, hfind, hr, hv, (hsv.length.trans hvr.transforms.length_eq).symm, ?_⟩
    intro j t ht
    have hlt : j < v.sent.length := hsv.length ▸ (List.getElem?_eq_some_iff.mp ht).1
    have hp := List.getElem?_eq_getElem hlt
    obtain ⟨u, hu, hreflects⟩ := forall₂_getElem? hvr.transforms hp
    have hy : (t, v.sent[j]) ∈ s.mTransforms.zip v.sent :=
      List.mem_of_getElem? (List.getElem?_zip_eq_some.mpr ⟨ht, hp⟩)
    obtain ⟨htranslation, hrotation⟩ := hn (s, v) hx (t, v.sent[j]) hy
    exact ⟨u, _, hu, hp, ⟨hreflects.translation, htranslation⟩, hreflects.rotation, hrotation⟩

variable [LawfulWire α β]

theorem delivers_iff [ExactDistance α] {c : Session α β} (h : c.Hearing) {e : Event α}
    (hu : c.teller.Unchanged e) : c.Delivers e ↔ c.teller.Due e := by
  obtain ⟨r, hstep, hnext⟩ := h.step hu
  cases e with
  | pose i j Translation Rotation Scaling => exact Iff.rfl
  | select ItemIndex mJoints model now now' => exact Iff.rfl
  | frame keyframe time now =>
    cases keyframe with
    | true => exact Iff.rfl
    | false =>
      rw [Delivers, hstep]
      simp only [Option.mem_def, Option.some.injEq, forall_eq']
      rw [within_iff_near hnext]
      by_cases hf : ItemsFinite c.teller.Items.mItems
      · have hemitted : (c.teller.tell (.frame false time now)).1 ≠ none := by
          rw [Teller.tell_update hf]
          exact Option.some_ne_none _
        rw [Teller.near_update_iff h.threshold hf]
        exact ⟨fun hd _ => hd hemitted, fun hd _ => hd hf⟩
      · refine iff_of_true ?_ fun hf' => absurd hf' hf
        intro hemitted
        rw [Teller.tell_not_finite hf] at hemitted
        exact absurd rfl hemitted

theorem hearing_start {l l₀ r₀ : SubjectList α β} (h : (l.mItems.map (·.mUuid)).Nodup)
    (henough : ∀ s ∈ l.mItems, ∀ t ∈ s.mTransforms, t.EnoughMatrices)
    (hth : 0 ≤ l.mDeltaThreshold) {buf : List UInt8} {timestamp : α} {timecode : String}
    {now threshold : α} {b : Bool} (hs : l.serialize timestamp timecode now = (some buf, l₀))
    (hr : (SubjectList.empty threshold).parse (some buf) false = some (b, r₀)) :
    (start l l₀ r₀).Hearing := by
  obtain ⟨-, rfl, rfl⟩ := SubjectList.serialize_some hs
  have henough' : ∀ s ∈ l.mItems, s.mEnabled = true → ∀ t ∈ s.mTransforms,
      t.narrowed.EnoughMatrices := fun s hs _ t ht => Transform.narrowed_enough (henough s hs t ht)
  obtain ⟨hm, hc⟩ := mirrors_fresh h henough' hr
  have hready : Ready l ((broadcast l.mItems).map Subject.toldView) := by
    refine ⟨h, henough', ?_⟩
    rw [List.forall₂_map_right_iff, List.forall₂_same]
    exact fun s _ => ⟨rfl, rfl, (List.length_map _).symm⟩
  exact ⟨hready.of_outline (.sentFull l), hth, hc, hm⟩

theorem each_delivers_iff [ExactDistance α] {c : Session α β} (h : c.Hearing)
    {events : List (Event α)} (hu : Each step (fun c e => c.teller.Unchanged e) c events) :
    Each step Delivers c events ↔ Each step (fun c e => c.teller.Due e) c events := by
  refine Each.congr (P := Hearing) (s := c) ?_ (fun c e hc he => delivers_iff hc he) h hu
  intro c e r hc he hr
  obtain ⟨r', hr', hnext⟩ := hc.step he
  cases hr.symm.trans hr'
  exact hnext

end Session

/-! ### A preview between a pose and its update -/

/-- A model without children. -/
def joint (x : ℚ) : FBModel Extended :=
  .mk "joint" ⟨x, (0 : ℚ), (0 : ℚ)⟩ Quaterniond.identity ⟨(1 : ℚ), (1 : ℚ), (1 : ℚ)⟩
    Matrix.identity Matrix.identity []

/-- A performer of one joint, at rest. -/
def jointItems : SubjectList Extended Extended :=
  { freshList with
    mItems := [{ Subject.make (α := Extended) .performer "uuid" with
      mTransforms := TraverseSubject [] [] (joint 0) (-1) }]
    mContext := ⟨.Right, .Up, .Forward, .Meter⟩ }

theorem sendable_jointItems : jointItems.Sendable := by
  refine ⟨by decide, ⟨by decide, by decide, by decide, ?_⟩, by unfold ItemsFinite; decide,
    by decide, ?_, by decide, by decide⟩
  · intro code hcode
    cases hcode
  · intro s hs _
    rw [List.mem_singleton.mp hs]
    exact rootedTree_single

/-- The joint moves, the performer is selected, and an update is sent. -/
def selectMoved : List (Event Extended) :=
  [.pose 0 0 ⟨(1 : ℚ), (0 : ℚ), (0 : ℚ)⟩ Quaterniond.identity ⟨(1 : ℚ), (1 : ℚ), (1 : ℚ)⟩,
    .select 0 [] (joint 1) 1 1, .frame false 2 1]

/-- What the plugin has before that update. -/
def selected : Teller Extended Extended :=
  (selectMoved.take 2).foldl (fun t e => (t.tell e).2)
    ⟨(jointItems.serialize 5 "01:00:00:00" 1).2, (broadcast jointItems.mItems).map Subject.toldView⟩

theorem unchanged_selectMoved {l₀ : SubjectList Extended Extended} (r₀ : SubjectList Extended Extended)
    {timecode : String} {buf : List UInt8}
    (hs : jointItems.serialize 5 timecode 1 = (some buf, l₀)) :
    Each Session.step (fun c e => c.teller.Unchanged e) (Session.start jointItems l₀ r₀)
      selectMoved := by
  obtain ⟨-, -, rfl⟩ := SubjectList.serialize_some hs
  refine ⟨trivial, ?_⟩
  rintro r ⟨⟩
  refine ⟨?_, ?_⟩
  · intro _ s hs _
    cases hs
    rfl
  · rintro r ⟨⟩
    exact ⟨trivial, fun _ _ => trivial⟩

namespace Session

variable [LawfulWire α β]

end Session

end Open3DStream.Mobu
