import Open3DStream.Populate
import Open3DStream.Sections

/-! What a sender's packets do to the list of its receiver. -/

namespace Open3DStream

variable {α β : Type}

/-- The enabled subjects in the order in which a packet lists them. -/
def broadcast (items : List (Subject α β)) : List (Subject α β) :=
  onAir .performer items ++ onAir .rigidbody items ++ onAir .camera items

theorem mem_onAir {T : SubjectKind} {s : Subject α β} {items : List (Subject α β)} :
    s ∈ onAir T items ↔ s ∈ items ∧ s.mEnabled = true ∧ s.kind = T := by
  simp [onAir]

theorem mem_broadcast {s : Subject α β} {items : List (Subject α β)} :
    s ∈ broadcast items ↔ s ∈ items ∧ s.mEnabled = true := by
  simp only [broadcast, List.mem_append, mem_onAir]
  cases hk : s.kind <;> simp

theorem onAir_uuid_ne {items : List (Subject α β)} (h : (items.map (·.mUuid)).Nodup)
    {T U : SubjectKind} (hT : T ≠ U) {s : Subject α β} (hs : s ∈ onAir T items) :
    s.mUuid ∉ (onAir U items).map (·.mUuid) := by
  intro hm
  obtain ⟨u, hu, he⟩ := List.mem_map.mp hm
  obtain ⟨hs, -, hsT⟩ := mem_onAir.mp hs
  obtain ⟨hu, -, huU⟩ := mem_onAir.mp hu
  have heq : u = s := List.inj_on_of_nodup_map h hu hs he
  rw [heq, hsT] at huU
  exact hT huU

theorem onAir_nodup {items : List (Subject α β)} (h : (items.map (·.mUuid)).Nodup)
    (T : SubjectKind) : ((onAir T items).map (·.mUuid)).Nodup :=
  h.sublist (List.filter_sublist.map _)

section loops

variable [Numeric α β] {δ : Type} {T : SubjectKind}

/-- What an update does to the subject it is about. -/
def reach (body : δ → Option (Data.SubjectUpdate β)) (finish : δ → Subject α β → Subject α β)
    (u : δ) (r : Subject α β) : Subject α β :=
  match body u with
  | some data => finish u (data.applied r)
  | none => r

/-- The update is about the subject. -/
def About (T : SubjectKind) (body : δ → Option (Data.SubjectUpdate β)) (u : δ) (r : Subject α β) :
    Prop :=
  ∃ data, body u = some data ∧ data.uuid = some r.mUuid ∧ r.kind = T

theorem updating_hit {body : δ → Option (Data.SubjectUpdate β)}
    (finish : δ → Subject α β → Subject α β) {u : δ} {r : Subject α β} (h : About T body u r)
    {pre : List (Subject α β)} (hpre : r.mUuid ∉ pre.map (·.mUuid)) (post : List (Subject α β)) :
    updating T body finish (pre ++ r :: post) u = pre ++ reach body finish u r :: post := by
  obtain ⟨data, hb, hu, hk⟩ := h
  rw [updating, reach, hb]
  dsimp only
  rw [hu, Option.getD_some, edit_append _ hpre, edit, if_pos rfl, if_pos hk]

/-- Updates about consecutive subjects change each of them. -/
theorem updates_hit {body : δ → Option (Data.SubjectUpdate β)}
    {finish : δ → Subject α β → Subject α β} (hf : Finishes finish) {us : List δ}
    {rs : List (Subject α β)} (h : List.Forall₂ (About T body) us rs) (pre : List (Subject α β))
    (hn : (rs.map (·.mUuid)).Nodup) (hpre : ∀ r ∈ rs, r.mUuid ∉ pre.map (·.mUuid))
    (post : List (Subject α β)) :
    us.foldl (updating T body finish) (pre ++ rs ++ post) =
      pre ++ List.zipWith (reach body finish) us rs ++ post := by
  induction h generalizing pre with
  | nil => rfl
  | @cons u r us rs hur hrest ih =>
    obtain ⟨hpr, hprest⟩ := List.forall_mem_cons.mp hpre
    rw [List.map_cons, List.nodup_cons] at hn
    have huuid : (reach body finish u r).mUuid = r.mUuid := by
      rw [reach]
      split
      · exact (hf _ _).1
      · rfl
    have hpre' : ∀ r' ∈ rs, r'.mUuid ∉ (pre ++ [reach body finish u r]).map (·.mUuid) := by
      intro r' hr'
      rw [List.map_append, List.mem_append, not_or]
      refine ⟨hprest r' hr', ?_⟩
      intro hm
      have he : r'.mUuid = r.mUuid := by simpa [huuid] using hm
      exact hn.1 (List.mem_map.mpr ⟨r', hr', he⟩)
    have hstep := updating_hit finish hur hpr (rs ++ post)
    have hnext := ih _ hn.2 hpre'
    rw [List.foldl_cons, List.append_assoc, List.cons_append, hstep]
    simpa using hnext

/-- What the loop over definitions adds for a new subject. -/
def copyOf (T : SubjectKind) (finish : δ → Subject α β → Subject α β) (mk : Subject α β → δ)
    (s : Subject α β) : Subject α β :=
  finish (mk s) (s.serialize.1.described (Subject.make T s.mUuid))

section copies

variable {finish : δ → Subject α β → Subject α β} (hf : Finishes finish) (mk : Subject α β → δ)
include hf

theorem copyOf_mUuid (s : Subject α β) : (copyOf T finish mk s).mUuid = s.mUuid :=
  (hf (mk s) (s.serialize.1.described (Subject.make T s.mUuid))).1

theorem copyOf_kind (s : Subject α β) : (copyOf T finish mk s).kind = T :=
  (hf (mk s) (s.serialize.1.described (Subject.make T s.mUuid))).2.trans (make_kind T s.mUuid)

theorem copyOf_uuids (subs : List (Subject α β)) :
    (subs.map (copyOf T finish mk)).map (·.mUuid) = subs.map (·.mUuid) := by
  rw [List.map_map]
  exact List.map_congr_left fun s _ => copyOf_mUuid hf mk s

end copies

/-- Definitions of new subjects add them in order. -/
theorem definitions_new {body : δ → Option (Data.SubjectData β)}
    {finish : δ → Subject α β → Subject α β} (hf : Finishes finish) {mk : Subject α β → δ}
    (hbody : ∀ s, body (mk s) = some s.serialize.1) {subs items : List (Subject α β)}
    (hn : (subs.map (·.mUuid)).Nodup) (hd : ∀ s ∈ subs, s.mUuid ∉ items.map (·.mUuid)) :
    (subs.map mk).foldl (defining T body finish) items =
      items ++ subs.map (copyOf T finish mk) := by
  induction subs generalizing items with
  | nil => simp
  | cons s subs ih =>
    obtain ⟨hs, hsubs⟩ := List.forall_mem_cons.mp hd
    rw [List.map_cons, List.nodup_cons] at hn
    have hstep : defining T body finish items (mk s) = items ++ [copyOf T finish mk s] := by
      have hno : owner s.mUuid items ≠ some T := by
        rw [(owner_eq_none_iff _ _).mpr hs]
        exact nofun
      rw [defining, hbody]
      change define T s.mUuid _ items = _
      rw [define, if_neg hno]
      rfl
    have hd' : ∀ u ∈ subs, u.mUuid ∉ (items ++ [copyOf T finish mk s]).map (·.mUuid) := by
      intro u hu
      rw [List.map_append, List.mem_append, not_or]
      refine ⟨hsubs u hu, ?_⟩
      intro hm
      have he : u.mUuid = s.mUuid := by simpa [copyOf_mUuid hf] using hm
      exact hn.1 (List.mem_map.mpr ⟨u, hu, he⟩)
    rw [List.map_cons, List.foldl_cons, hstep, ih hn.2 hd', List.append_assoc]
    rfl

/-- The two loops of one type add a copy of each subject. -/
theorem both_loops {ε : Type} (T : SubjectKind) (body : δ → Option (Data.SubjectData β))
    (body' : ε → Option (Data.SubjectUpdate β)) {finish : δ → Subject α β → Subject α β}
    {finish' : ε → Subject α β → Subject α β} (hf : Finishes finish) (hf' : Finishes finish')
    (mk : Subject α β → δ) (mk' : Subject α β → ε) (threshold : α)
    (subs items : List (Subject α β)) (hbody : ∀ s, body (mk s) = some s.serialize.1)
    (hbody' : ∀ s, body' (mk' s) = some (s.fullUpdate threshold))
    (hts : ∀ d s, (finish d s).mTransforms = s.mTransforms)
    (hn : (subs.map (·.mUuid)).Nodup) (hd : ∀ s ∈ subs, s.mUuid ∉ items.map (·.mUuid))
    (hreceived : ∀ s ∈ subs, finish' (mk' s) (copyOf T finish mk s) = s.received) :
    (subs.map mk').foldl (updating T body' finish') ((subs.map mk).foldl (defining T body finish) items) =
      items ++ subs.map Subject.received := by
  have habout : List.Forall₂ (About T body') (subs.map mk') (subs.map (copyOf T finish mk)) := by
    rw [List.forall₂_map_left_iff, List.forall₂_map_right_iff, List.forall₂_same]
    intro s _
    exact ⟨_, hbody' s, congrArg some (copyOf_mUuid hf mk s).symm, copyOf_kind hf mk s⟩
  have hfresh : ∀ r ∈ subs.map (copyOf T finish mk), r.mUuid ∉ items.map (·.mUuid) := by
    intro r hr
    obtain ⟨s, hs, rfl⟩ := List.mem_map.mp hr
    rw [copyOf_mUuid hf]
    exact hd s hs
  have hhit := updates_hit hf' habout items (by rw [copyOf_uuids hf]; exact hn) hfresh []
  rw [List.append_nil, List.append_nil] at hhit
  rw [definitions_new hf hbody hn hd, hhit, List.zipWith_map, List.zipWith_self]
  congr 1
  apply List.map_congr_left
  intro s hs
  have happ : (s.fullUpdate threshold).applied (copyOf T finish mk s) = copyOf T finish mk s := by
    apply Subject.applied_narrowed
    rw [copyOf, hts, Subject.described_serialize]
  rw [reach, hbody']
  dsimp only
  rw [happ]
  exact hreceived s hs

end loops

/-! ### Whole packets -/

variable [Numeric α β]

theorem updatePresent_some {T : SubjectKind} {f : String → Option SubjectKind}
    {u : Data.SubjectUpdate β} (h : u.Complete) : UpdatePresent T f (some u) := by
  obtain ⟨uuid, hu⟩ := Option.isSome_iff_exists.mp h.uuid
  exact ⟨u, uuid, rfl, hu, fun _ => h⟩

section packets

variable (threshold timestamp : α) (timecode : String) (context : Context) (env : TimeEnvelope)

/-- The root table of a full packet about a list of subjects. -/
def fullRoot (items : List (Subject α β)) : Data.SubjectList α β :=
  createRoot true (fullSections threshold items) timestamp timecode context env

/-- The root table of an update packet. -/
def updateRoot (items : List (Subject α β)) : Data.SubjectList α β :=
  createRoot false (updateSections threshold items) timestamp timecode context env

theorem readable_fullRoot (items rs : List (Subject α β)) :
    (fullRoot threshold timestamp timecode context env items).Readable rs := by
  constructor
  all_goals
    intro d hd
    obtain ⟨s, -, rfl⟩ := List.mem_map.mp hd
  · exact ⟨_, rfl, s.serialize_complete⟩
  · exact updatePresent_some (s.serialize.2.serializeUpdate_complete threshold)
  · exact ⟨_, rfl, s.serialize_complete⟩
  · exact updatePresent_some (s.serialize.2.serializeUpdate_complete threshold)
  · exact ⟨_, rfl, s.serialize_complete⟩
  · exact updatePresent_some (s.serialize.2.serializeUpdate_complete threshold)

theorem readable_updateRoot (items rs : List (Subject α β)) :
    (updateRoot threshold timestamp timecode context env items).Readable rs := by
  constructor
  · exact fun d hd => absurd hd List.not_mem_nil
  · intro u hu
    obtain ⟨s, -, rfl⟩ := List.mem_map.mp hu
    exact updatePresent_some (s.serializeUpdate_complete threshold)
  · exact fun d hd => absurd hd List.not_mem_nil
  · intro u hu
    obtain ⟨s, -, rfl⟩ := List.mem_map.mp hu
    exact updatePresent_some (s.serializeUpdate_complete threshold)
  · exact fun d hd => absurd hd List.not_mem_nil
  · intro u hu
    obtain ⟨s, -, rfl⟩ := List.mem_map.mp hu
    exact updatePresent_some (s.serializeUpdate_complete threshold)

theorem received_uuids (subs : List (Subject α β)) :
    (subs.map Subject.received).map (·.mUuid) = subs.map (·.mUuid) := by
  rw [List.map_map]
  rfl

/-- A class that has no fields of its own is copied as it is received. -/
theorem copyOf_plain {T : SubjectKind} (hT : T ≠ .camera) {mk : Subject α β → δ} {s : Subject α β}
    (hk : s.kind = T) : copyOf T (fun _ s => s) mk s = s.received := by
  rw [Subject.kind] at hk
  rw [copyOf, Subject.described_serialize, ← hk]
  cases hd : s.derived with
  | performer => simp [Subject.received, Subject.make, hd, Derived.kind]
  | rigidbody => simp [Subject.received, Subject.make, hd, Derived.kind]
  | camera lens =>
    rw [hd] at hk
    exact absurd hk.symm hT

section full

variable {items : List (Subject α β)}

theorem withPerformers_fullRoot (h : (items.map (·.mUuid)).Nodup) :
    (fullRoot threshold timestamp timecode context env items).withPerformers [] =
      (onAir .performer items).map .received := by
  refine both_loops .performer Data.Performer.data Data.PerformerUpdate.data finishes_id finishes_id
    (fun s => ⟨some s.serialize.1⟩) (fun s => ⟨some (s.fullUpdate threshold)⟩) threshold
    (onAir .performer items) [] (fun _ => rfl) (fun _ => rfl) (fun _ _ => rfl) (onAir_nodup h _)
    (by simp) ?_
  exact fun s hs => copyOf_plain (by decide) (mem_onAir.mp hs).2.2

theorem withRigidbodies_fullRoot (h : (items.map (·.mUuid)).Nodup) :
    (fullRoot threshold timestamp timecode context env items).withRigidbodies
        ((onAir .performer items).map .received) =
      (onAir .performer items ++ onAir .rigidbody items).map .received := by
  rw [List.map_append]
  refine both_loops .rigidbody Data.Rigidbody.data Data.RigidbodyUpdate.data finishes_id finishes_id
    (fun s => ⟨some s.serialize.1⟩) (fun s => ⟨some (s.fullUpdate threshold)⟩) threshold
    (onAir .rigidbody items) _ (fun _ => rfl) (fun _ => rfl) (fun _ _ => rfl) (onAir_nodup h _) ?_ ?_
  · intro s hs
    rw [received_uuids]
    exact onAir_uuid_ne h (by decide) hs
  · exact fun s hs => copyOf_plain (by decide) (mem_onAir.mp hs).2.2

theorem withCameras_fullRoot (h : (items.map (·.mUuid)).Nodup) :
    (fullRoot threshold timestamp timecode context env items).withCameras
        ((onAir .performer items ++ onAir .rigidbody items).map .received) =
      (broadcast items).map .received := by
  have hfilm (d : Data.Camera β) (s : Subject α β) :
      (readFilmBack d s).mTransforms = s.mTransforms := by
    rw [readFilmBack]
    split <;> rfl
  have hsplit : (broadcast items).map Subject.received =
      (onAir .performer items ++ onAir .rigidbody items).map Subject.received ++
        (onAir .camera items).map Subject.received := List.map_append
  rw [hsplit]
  refine both_loops .camera Data.Camera.data Data.CameraUpdate.data finishes_readFilmBack
    finishes_readLens (fun s => cameraData (α := α) s.lens s.serialize.1)
    (fun s => cameraUpdateData s.lens (s.fullUpdate threshold)) threshold (onAir .camera items) _
    (fun _ => rfl) (fun _ => rfl) hfilm (onAir_nodup h _) ?_ ?_
  · intro s hs
    rw [received_uuids, List.map_append, List.mem_append, not_or]
    exact ⟨onAir_uuid_ne h (by decide) hs, onAir_uuid_ne h (by decide) hs⟩
  · intro s hs
    have hk : s.derived.kind = .camera := (mem_onAir.mp hs).2.2
    rw [copyOf, Subject.described_serialize]
    cases hd : s.derived with
    | performer => simp [hd, Derived.kind] at hk
    | rigidbody => simp [hd, Derived.kind] at hk
    | camera lens =>
      simp [Subject.received, Subject.make, Subject.lens, hd, readFilmBack, readLens, cameraData,
        cameraUpdateData, Lens.zero]

/-- A full packet builds a copy of every enabled subject, in broadcast order. -/
theorem applied_fullRoot (h : (items.map (·.mUuid)).Nodup) :
    (fullRoot threshold timestamp timecode context env items).applied [] =
      (broadcast items).map .received := by
  rw [Data.SubjectList.applied, withPerformers_fullRoot _ _ _ _ _ h,
    withRigidbodies_fullRoot _ _ _ _ _ h, withCameras_fullRoot _ _ _ _ _ h]

end full

end packets

end Open3DStream
