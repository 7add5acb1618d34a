import Open3DStream.Acceptance
import Open3DStream.Lib.Lists

/-! What an update packet does to copies of the sender's subjects. -/

namespace Open3DStream

open Lib

variable {α β : Type}

/-- The same subject on both sides. -/
def Matches (s r : Subject α β) : Prop := r.mUuid = s.mUuid ∧ r.kind = s.kind

theorem readLens_of_ne {s : Subject α β} (h : s.kind ≠ .camera) (c : Data.CameraUpdate β) :
    readLens c s = s := by
  rw [readLens]
  cases hd : s.derived with
  | performer => rfl
  | rigidbody => rfl
  | camera lens => exact absurd (by rw [Subject.kind, hd]; rfl) h

theorem readLens_mTransforms (c : Data.CameraUpdate β) (s : Subject α β) :
    (readLens c s).mTransforms = s.mTransforms := by
  rw [readLens]
  split <;> rfl

theorem matches_uuids {subs rs : List (Subject α β)} (h : List.Forall₂ Matches subs rs) :
    rs.map (·.mUuid) = subs.map (·.mUuid) :=
  forall₂_map_eq h fun _ _ hsr => hsr.1

variable [Numeric α β]

/-- A copy of a subject after the update of the original; the lens goes along. -/
def Subject.followed (threshold : α) (s r : Subject α β) : Subject α β :=
  readLens (cameraUpdateData s.lens (s.serializeUpdate threshold).1)
    ((s.serializeUpdate threshold).1.applied r)

theorem matches_followed {s r : Subject α β} (h : Matches s r) (threshold : α) :
    Matches s (s.followed threshold r) := by
  obtain ⟨hu, hk⟩ := finishes_readLens (cameraUpdateData s.lens (s.serializeUpdate threshold).1)
    ((s.serializeUpdate threshold).1.applied r)
  exact ⟨hu.trans h.1, hk.trans h.2⟩

theorem followed_mTransforms {s r : Subject α β} (threshold : α)
    (h : s.mTransforms.length = r.mTransforms.length) :
    (s.followed threshold r).mTransforms =
      List.zipWith (Transform.follow (β := β) threshold) s.mTransforms r.mTransforms := by
  rw [Subject.followed, readLens_mTransforms, applied_serializeUpdate s r threshold h]

/-- The update loop of one type, on the copies of that type. -/
theorem update_loop {δ : Type} (T : SubjectKind) (body : δ → Option (Data.SubjectUpdate β))
    {finish : δ → Subject α β → Subject α β} (hf : Finishes finish) (mk : Subject α β → δ)
    (threshold : α) {subs rs : List (Subject α β)} (pre post : List (Subject α β))
    (hbody : ∀ s, body (mk s) = some (s.serializeUpdate threshold).1)
    (h : List.Forall₂ Matches subs rs) (hT : ∀ s ∈ subs, s.kind = T)
    (hn : (subs.map (·.mUuid)).Nodup) (hd : ∀ s ∈ subs, s.mUuid ∉ pre.map (·.mUuid))
    (hfinish : ∀ s ∈ subs, ∀ r, Matches s r →
      finish (mk s) ((s.serializeUpdate threshold).1.applied r) = s.followed threshold r) :
    (subs.map mk).foldl (updating T body finish) (pre ++ rs ++ post) =
      pre ++ List.zipWith (Subject.followed threshold) subs rs ++ post := by
  have hall := (List.forall₂_and_left (p := fun s => s ∈ subs) subs rs).mpr ⟨fun _ hs => hs, h⟩
  have habout : List.Forall₂ (About T body) (subs.map mk) rs := by
    rw [List.forall₂_map_left_iff]
    exact hall.imp fun s r hsr =>
      ⟨_, hbody s, congrArg some hsr.2.1.symm, hsr.2.2.trans (hT s hsr.1)⟩
  have hfresh : ∀ r ∈ rs, r.mUuid ∉ pre.map (·.mUuid) := by
    intro r hr
    have hm : r.mUuid ∈ subs.map (·.mUuid) := by
      rw [← matches_uuids h]
      exact List.mem_map_of_mem hr
    obtain ⟨s, hs, he⟩ := List.mem_map.mp hm
    rw [← he]
    exact hd s hs
  rw [updates_hit hf habout pre (by rw [matches_uuids h]; exact hn) hfresh post]
  congr 2
  rw [List.zipWith_map_left]
  apply List.zipWith_congr
  refine hall.imp fun s r hsr => ?_
  rw [reach, hbody]
  exact hfinish s hsr.1 r hsr.2

section update

variable (threshold timestamp : α) (timecode : String) (context : Context) (env : TimeEnvelope)
variable {items : List (Subject α β)}

theorem followed_uuids {subs rs : List (Subject α β)} (h : List.Forall₂ Matches subs rs) :
    (List.zipWith (Subject.followed threshold) subs rs).map (·.mUuid) = subs.map (·.mUuid) :=
  matches_uuids (forall₂_zipWith (fun _ _ hsr => matches_followed hsr threshold) h)

/-- Without a lens there is nothing but the transforms to follow. -/
theorem followed_plain {T : SubjectKind} (hT : T ≠ .camera) {s : Subject α β}
    (hs : s ∈ onAir T items) {r : Subject α β} (hr : Matches s r) :
    (s.serializeUpdate threshold).1.applied r = s.followed threshold r := by
  refine (readLens_of_ne ?_ _).symm
  change r.kind ≠ .camera
  rw [hr.2, (mem_onAir.mp hs).2.2]
  exact hT

theorem withPerformers_updateRoot (h : (items.map (·.mUuid)).Nodup) {rs : List (Subject α β)}
    (hm : List.Forall₂ Matches (onAir .performer items) rs) (post : List (Subject α β)) :
    (updateRoot threshold timestamp timecode context env items).withPerformers (rs ++ post) =
      List.zipWith (Subject.followed threshold) (onAir .performer items) rs ++ post :=
  update_loop .performer Data.PerformerUpdate.data finishes_id
    (fun s => ⟨some (s.serializeUpdate threshold).1⟩) threshold [] post (fun _ => rfl) hm
    (fun _ hs => (mem_onAir.mp hs).2.2) (onAir_nodup h _) (by simp)
    fun _ hs _ hr => followed_plain threshold (by decide) hs hr

theorem withRigidbodies_updateRoot (h : (items.map (·.mUuid)).Nodup) {rs : List (Subject α β)}
    (hm : List.Forall₂ Matches (onAir .rigidbody items) rs) {pre : List (Subject α β)}
    (hpre : ∀ s ∈ onAir .rigidbody items, s.mUuid ∉ pre.map (·.mUuid)) (post : List (Subject α β)) :
    (updateRoot threshold timestamp timecode context env items).withRigidbodies (pre ++ rs ++ post) =
      pre ++ List.zipWith (Subject.followed threshold) (onAir .rigidbody items) rs ++ post :=
  update_loop .rigidbody Data.RigidbodyUpdate.data finishes_id
    (fun s => ⟨some (s.serializeUpdate threshold).1⟩) threshold pre post (fun _ => rfl) hm
    (fun _ hs => (mem_onAir.mp hs).2.2) (onAir_nodup h _) hpre
    fun _ hs _ hr => followed_plain threshold (by decide) hs hr

theorem withCameras_updateRoot (h : (items.map (·.mUuid)).Nodup) {rs : List (Subject α β)}
    (hm : List.Forall₂ Matches (onAir .camera items) rs) {pre : List (Subject α β)}
    (hpre : ∀ s ∈ onAir .camera items, s.mUuid ∉ pre.map (·.mUuid)) :
    (updateRoot threshold timestamp timecode context env items).withCameras (pre ++ rs) =
      pre ++ List.zipWith (Subject.followed threshold) (onAir .camera items) rs := by
  have hloop := update_loop .camera Data.CameraUpdate.data finishes_readLens
    (fun s => cameraUpdateData s.lens (s.serializeUpdate threshold).1) threshold pre []
    (fun _ => rfl) hm (fun _ hs => (mem_onAir.mp hs).2.2) (onAir_nodup h _) hpre
    (fun _ _ _ _ => rfl)
  rw [List.append_nil, List.append_nil] at hloop
  exact hloop

/-- An update packet reaches every copy the receiver holds. -/
theorem applied_updateRoot {rs : List (Subject α β)} (h : (items.map (·.mUuid)).Nodup)
    (hm : List.Forall₂ Matches (broadcast items) rs) :
    (updateRoot threshold timestamp timecode context env items).applied rs =
      List.zipWith (Subject.followed threshold) (broadcast items) rs := by
  obtain ⟨ab, c, rfl, hab, hc⟩ := forall₂_append_split hm
  obtain ⟨a, b, rfl, ha, hb⟩ := forall₂_append_split hab
  have hrigid : ∀ s ∈ onAir .rigidbody items, s.mUuid ∉
      (List.zipWith (Subject.followed threshold) (onAir .performer items) a).map (·.mUuid) := by
    intro s hs
    rw [followed_uuids threshold ha]
    exact onAir_uuid_ne h (by decide) hs
  have hcamera : ∀ s ∈ onAir .camera items, s.mUuid ∉
      (List.zipWith (Subject.followed threshold) (onAir .performer items) a ++
        List.zipWith (Subject.followed threshold) (onAir .rigidbody items) b).map (·.mUuid) := by
    intro s hs
    rw [List.map_append, followed_uuids threshold ha, followed_uuids threshold hb, List.mem_append,
      not_or]
    exact ⟨onAir_uuid_ne h (by decide) hs, onAir_uuid_ne h (by decide) hs⟩
  rw [broadcast, List.zipWith_append hab.length_eq, List.zipWith_append ha.length_eq,
    Data.SubjectList.applied, List.append_assoc a b c, withPerformers_updateRoot _ _ _ _ _ h ha,
    ← List.append_assoc _ b c, withRigidbodies_updateRoot _ _ _ _ _ h hb hrigid,
    withCameras_updateRoot _ _ _ _ _ h hc hcamera]

end update

end Open3DStream
