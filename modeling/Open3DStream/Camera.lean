import Open3DStream.Lib.Machine
import Open3DStream.Lookup
import Open3DStream.RoundTrip

/-! The lens of a camera on its way through full packets and updates. -/

namespace Open3DStream

open Lib

attribute [ext] Lens

variable {α β : Type}

namespace Derived

/-- `readFilmBack` on the fields of a class. -/
def filmed (c : Data.Camera β) : Derived β → Derived β
  | .camera lens =>
    .camera { lens with filmBackWidth := c.filmback_width, filmBackHeight := c.filmback_height }
  | x => x

/-- `readLens` on the fields of a class. -/
def focused (c : Data.CameraUpdate β) : Derived β → Derived β
  | .camera lens => .camera { lens with
      focalLength := c.focal_length
      focusDistance := c.focus_distance
      aperture := c.aperture }
  | x => x

theorem filmed_filmed (c : Data.Camera β) (x : Derived β) : (x.filmed c).filmed c = x.filmed c := by
  cases x <;> rfl

theorem focused_focused (c : Data.CameraUpdate β) (x : Derived β) :
    (x.focused c).focused c = x.focused c := by
  cases x <;> rfl

theorem filmed_kind (c : Data.Camera β) (x : Derived β) :
    (if x.kind = .camera then x.filmed c else x) = x.filmed c := by
  cases x <;> rfl

theorem focused_kind (c : Data.CameraUpdate β) (x : Derived β) :
    (if x.kind = .camera then x.focused c else x) = x.focused c := by
  cases x <;> rfl

end Derived

theorem refines_readFilmBack : Refines (α := α) (β := β) readFilmBack Derived.filmed := by
  rintro c ⟨derived, name, uuid, ts, error, enabled⟩
  cases derived <;> rfl

theorem refines_readLens : Refines (α := α) (β := β) readLens Derived.focused := by
  rintro c ⟨derived, name, uuid, ts, error, enabled⟩
  cases derived <;> rfl

variable [Numeric α β]

theorem derivedOf_of_bare {items items' : List (Subject α β)}
    (h : items'.map Subject.bare = items.map Subject.bare) (u : String) :
    derivedOf u items' = derivedOf u items := by
  have hview (l : List (Subject α β)) : derivedOf u l =
      ((l.map fun s => (s.mUuid, s.derived)).find? fun x => decide (x.1 = u)).map (·.2) := by
    rw [List.find?_map, Option.map_map]
    rfl
  rw [hview, hview, map_of_bare (fun _ => rfl) h]

/-- The lens of the camera that is found under a uuid. -/
def cameraLens (uuid : String) (items : List (Subject α β)) : Option (Lens β) := do
  let k ← findSubjectByUuid .camera uuid items
  let s ← items[k]?
  some s.lens

/-- A lens, if the class has one. -/
def Derived.lens? : Derived β → Option (Lens β)
  | .camera lens => some lens
  | .performer | .rigidbody => none

theorem cameraLens_eq (uuid : String) (items : List (Subject α β)) :
    cameraLens uuid items = (derivedOf uuid items).bind Derived.lens? := by
  have hfind := getElem?_find .camera uuid items
  have hlens : cameraLens uuid items =
      ((findSubjectByUuid .camera uuid items).bind (items[·]?)).map Subject.lens := by
    rw [cameraLens, Option.bind_eq_bind]
    cases findSubjectByUuid .camera uuid items with
    | none => rfl
    | some k => cases hk : items[k]? <;> simp [hk]
  rw [hlens, hfind, derivedOf]
  cases subjectOf uuid items with
  | none => rfl
  | some s =>
    cases hd : s.derived <;> simp [Option.filter, Subject.kind, hd, Derived.kind, Derived.lens?,
      Subject.lens]

/-! ### A packet with one camera under a uuid -/

section packets

variable {items : List (Subject α β)} {s : Subject α β}

/-- Of the subjects that a packet lists, the camera is the only one with its uuid. -/
structure Alone (s : Subject α β) (items : List (Subject α β)) : Prop where
  listed : s ∈ onAir .camera items
  only : ∀ t ∈ items, t.mEnabled = true → t.mUuid = s.mUuid → t = s

omit [Numeric α β] in
theorem Alone.elsewhere (h : Alone s items) {T : SubjectKind} (hT : T ≠ .camera) :
    ∀ t ∈ onAir T items, t.mUuid ≠ s.mUuid := by
  intro t ht hu
  obtain ⟨hmem, he, hk⟩ := mem_onAir.mp ht
  rw [h.only t hmem he hu, (mem_onAir.mp h.listed).2.2] at hk
  exact hT hk.symm

omit [Numeric α β] in
theorem Alone.others (h : Alone s items) {δ : Type} (mk : Subject α β → δ) :
    ∀ t ∈ onAir .camera items, mk t ≠ mk s → t.mUuid ≠ s.mUuid := by
  intro t ht hne hu
  obtain ⟨hmem, he, -⟩ := mem_onAir.mp ht
  exact hne (congrArg mk (h.only t hmem he hu))

/-- The loops of the other types. -/
theorem Alone.definitions (h : Alone s items) {δ : Type} (T : SubjectKind) (hT : T ≠ .camera)
    (body : δ → Option (Data.SubjectData β)) (mk : Subject α β → δ)
    (hbody : ∀ t, body (mk t) = some t.serialize.1) (rs : List (Subject α β)) :
    derivedOf s.mUuid (((onAir T items).map mk).foldl (defining T body fun _ s => s) rs) =
      derivedOf s.mUuid rs := by
  apply foldl_miss
  intro d hd rs
  obtain ⟨t, ht, rfl⟩ := List.mem_map.mp hd
  apply derivedOf_defining_ne finishes_id
  intro data hdata
  cases (hbody t).symm.trans hdata
  exact h.elsewhere hT t ht

theorem Alone.updates (h : Alone s items) {δ : Type} (T : SubjectKind) (hT : T ≠ .camera)
    (body : δ → Option (Data.SubjectUpdate β)) (mk : Subject α β → δ)
    (hbody : ∀ t, ∃ data, body (mk t) = some data ∧ data.uuid = some t.mUuid)
    (rs : List (Subject α β)) :
    derivedOf s.mUuid (((onAir T items).map mk).foldl (updating T body fun _ s => s) rs) =
      derivedOf s.mUuid rs := by
  apply foldl_miss
  intro d hd rs
  obtain ⟨t, ht, rfl⟩ := List.mem_map.mp hd
  obtain ⟨data, hdata, huuid⟩ := hbody t
  apply derivedOf_updating_ne finishes_id
  intro data' hdata'
  cases hdata.symm.trans hdata'
  rw [huuid]
  exact h.elsewhere hT t ht

theorem cameras_loop (h : Alone s items) (rs : List (Subject α β)) :
    derivedOf s.mUuid (((onAir .camera items).map fun t =>
        cameraData (α := α) t.lens t.serialize.1).foldl
        (defining .camera Data.Camera.data readFilmBack) rs) =
      ((derivedOf s.mUuid rs).or (some (.camera (Lens.zero (α := α))))).map
        (Derived.filmed (cameraData (α := α) s.lens s.serialize.1)) := by
  refine foldl_hit (H := (· = cameraData (α := α) s.lens s.serialize.1)) (F := derivedOf s.mUuid)
    (g := fun o => (o.or (some (.camera (Lens.zero (α := α))))).map
      (Derived.filmed (cameraData (α := α) s.lens s.serialize.1))) ?_ ?_ ?_ ?_ rs
  · intro o
    cases o <;> simp [Derived.filmed_filmed]
  · rintro d - rfl rs
    have hbody : Data.Camera.data (cameraData (α := α) s.lens s.serialize.1) =
        some s.serialize.1 := rfl
    have hstep :=
      derivedOf_defining_eq (T := .camera) finishes_readFilmBack refines_readFilmBack hbody rs
    simp only [Derived.filmed_kind] at hstep
    exact hstep
  · intro d hd hne rs
    obtain ⟨t, ht, rfl⟩ := List.mem_map.mp hd
    apply derivedOf_defining_ne finishes_readFilmBack
    rintro data ⟨⟩
    exact h.others (fun t => cameraData (α := α) t.lens t.serialize.1) t ht hne
  · exact ⟨_, List.mem_map_of_mem h.listed, rfl⟩

theorem cameraUpdates_loop (h : Alone s items) (update : Subject α β → Data.SubjectUpdate β)
    (hu : ∀ t, (update t).uuid = some t.mUuid) (rs : List (Subject α β)) :
    derivedOf s.mUuid (((onAir .camera items).map fun t => cameraUpdateData t.lens (update t)).foldl
        (updating .camera Data.CameraUpdate.data readLens) rs) =
      (derivedOf s.mUuid rs).map (Derived.focused (cameraUpdateData s.lens (update s))) := by
  refine foldl_hit (H := (· = cameraUpdateData s.lens (update s))) (F := derivedOf s.mUuid)
    (g := fun o => o.map (Derived.focused (cameraUpdateData s.lens (update s)))) ?_ ?_ ?_ ?_ rs
  · intro o
    cases o <;> simp [Derived.focused_focused]
  · rintro d - rfl rs
    have hbody : Data.CameraUpdate.data (cameraUpdateData s.lens (update s)) = some (update s) := rfl
    have hstep := derivedOf_updating_eq (T := .camera) finishes_readLens refines_readLens hbody rs
    simp only [Derived.focused_kind, hu, Option.getD_some] at hstep
    exact hstep
  · intro d hd hne rs
    obtain ⟨t, ht, rfl⟩ := List.mem_map.mp hd
    apply derivedOf_updating_ne finishes_readLens
    rintro data ⟨⟩
    rw [hu]
    exact h.others (fun t => cameraUpdateData t.lens (update t)) t ht hne
  · exact ⟨_, List.mem_map_of_mem h.listed, rfl⟩

variable (threshold timestamp : α) (timecode : String) (context : Context) (env : TimeEnvelope)

theorem derivedOf_fullRoot (h : Alone s items) (rs : List (Subject α β)) :
    derivedOf s.mUuid ((fullRoot threshold timestamp timecode context env items).applied rs) =
      ((derivedOf s.mUuid rs).or (some (.camera (Lens.zero (α := α))))).map fun x =>
        (x.filmed (cameraData (α := α) s.lens s.serialize.1)).focused
          (cameraUpdateData s.lens (s.fullUpdate threshold)) := by
  let p := fullRoot threshold timestamp timecode context env items
  have hperformers : derivedOf s.mUuid (p.withPerformers rs) = derivedOf s.mUuid rs :=
    (h.updates .performer (by decide) Data.PerformerUpdate.data
      (fun t => ⟨some (t.fullUpdate threshold)⟩) (fun _ => ⟨_, rfl, rfl⟩) _).trans
      (h.definitions .performer (by decide) Data.Performer.data (fun t => ⟨some t.serialize.1⟩)
        (fun _ => rfl) rs)
  have hrigidbodies : derivedOf s.mUuid (p.withRigidbodies (p.withPerformers rs)) =
      derivedOf s.mUuid (p.withPerformers rs) :=
    (h.updates .rigidbody (by decide) Data.RigidbodyUpdate.data
      (fun t => ⟨some (t.fullUpdate threshold)⟩) (fun _ => ⟨_, rfl, rfl⟩) _).trans
      (h.definitions .rigidbody (by decide) Data.Rigidbody.data (fun t => ⟨some t.serialize.1⟩)
        (fun _ => rfl) _)
  have hcameras := cameras_loop h (p.withRigidbodies (p.withPerformers rs))
  have hupdates := cameraUpdates_loop h (Subject.fullUpdate threshold) (fun _ => rfl)
    (List.foldl (defining .camera Data.Camera.data readFilmBack)
      (p.withRigidbodies (p.withPerformers rs)) (p.cameras.getD []))
  refine hupdates.trans ?_
  rw [hrigidbodies, hperformers] at hcameras
  exact (congrArg _ hcameras).trans (Option.map_map _ _ _)

theorem derivedOf_updateRoot (h : Alone s items) (rs : List (Subject α β)) :
    derivedOf s.mUuid ((updateRoot threshold timestamp timecode context env items).applied rs) =
      (derivedOf s.mUuid rs).map
        (Derived.focused (cameraUpdateData s.lens (s.serializeUpdate threshold).1)) := by
  let p := updateRoot threshold timestamp timecode context env items
  have hperformers : derivedOf s.mUuid (p.withPerformers rs) = derivedOf s.mUuid rs :=
    h.updates .performer (by decide) Data.PerformerUpdate.data
      (fun t => ⟨some (t.serializeUpdate threshold).1⟩) (fun _ => ⟨_, rfl, rfl⟩) rs
  have hrigidbodies : derivedOf s.mUuid (p.withRigidbodies (p.withPerformers rs)) =
      derivedOf s.mUuid (p.withPerformers rs) :=
    h.updates .rigidbody (by decide) Data.RigidbodyUpdate.data
      (fun t => ⟨some (t.serializeUpdate threshold).1⟩) (fun _ => ⟨_, rfl, rfl⟩) _
  have hupdates := cameraUpdates_loop h (fun t => (t.serializeUpdate threshold).1)
    (fun _ => rfl) (p.withRigidbodies (p.withPerformers rs))
  rw [hrigidbodies, hperformers] at hupdates
  exact hupdates

end packets

/-! ### Packets one after the other -/

/-- A packet of a list in which one enabled subject has the uuid, and that one is a camera. -/
structure Shot (α β : Type) (uuid : String) where
  l : SubjectList α β
  camera : Subject α β
  keyframe : Bool
  timestamp : α
  timecode : String
  now : α
  clearInactive : Bool
  named : camera.mUuid = uuid
  alone : Alone camera l.mItems

/-- A receiver, and the lens in the last full packet that it has read. -/
structure Viewer (α β : Type) where
  receiver : SubjectList α β
  last : Option (Lens β)

instance (l : SubjectList α β) (p : Data.SubjectList α β) : Decidable (ContextRejected l p) :=
  inferInstanceAs (Decidable (_ ∧ _))

variable {uuid : String}

namespace Shot

def root (e : Shot α β uuid) : Data.SubjectList α β :=
  if e.keyframe then e.l.outgoing e.timestamp e.timecode e.now
  else e.l.outgoingUpdate e.timestamp e.timecode e.now

/-- What a packet leaves of a lens; there may have been none. -/
def shown (e : Shot α β uuid) (held : Option (Lens β)) : Option (Lens β) :=
  if e.keyframe then
    some { e.camera.lens with aspect := (held.getD (Lens.zero (α := α))).aspect }
  else held.map fun lens => { lens with
    focalLength := e.camera.lens.focalLength
    focusDistance := e.camera.lens.focusDistance
    aperture := e.camera.lens.aperture }

theorem derivedOf_camera {rs : List (Subject α β)}
    (h : ∀ x ∈ derivedOf uuid rs, x.kind = .camera) :
    derivedOf uuid rs = (cameraLens uuid rs).map .camera := by
  rw [cameraLens_eq]
  cases hd : derivedOf uuid rs with
  | none => rfl
  | some x =>
    have hk := h x hd
    cases x with
    | performer | rigidbody => cases hk
    | camera lens => rfl

theorem derivedOf_root (e : Shot α β uuid) {rs : List (Subject α β)}
    (h : ∀ x ∈ derivedOf uuid rs, x.kind = .camera) :
    derivedOf uuid (e.root.applied rs) = (e.shown (cameraLens uuid rs)).map .camera := by
  have hd := derivedOf_camera h
  have hnamed := e.named
  rw [root, shown]
  cases e.keyframe with
  | true =>
    have hfull := derivedOf_fullRoot e.l.mDeltaThreshold (stamp e.timestamp e.now) e.timecode
      e.l.mContext e.l.mTimeEnvelope e.alone rs
    rw [hnamed, hd] at hfull
    refine hfull.trans ?_
    cases cameraLens uuid rs <;> rfl
  | false =>
    have hupdate := derivedOf_updateRoot e.l.mDeltaThreshold (stamp e.timestamp e.now) e.timecode
      e.l.mContext e.l.mTimeEnvelope e.alone rs
    rw [hnamed, hd] at hupdate
    refine hupdate.trans ?_
    cases cameraLens uuid rs <;> rfl

variable [Wire α β]

def buf (e : Shot α β uuid) : Option (List UInt8) :=
  if e.keyframe then (e.l.serialize e.timestamp e.timecode e.now).1
  else (e.l.serializeUpdate e.timestamp e.timecode e.now).1

theorem buf_verified [LawfulWire α β] {e : Shot α β uuid} {buf : List UInt8}
    (h : e.buf = some buf) : Verified α β (some buf) e.root := by
  rw [Shot.buf] at h
  rw [root]
  by_cases hf : ItemsFinite e.l.mItems
  · cases hk : e.keyframe with
    | true =>
      rw [hk, if_pos rfl, SubjectList.serialize_of_finite hf] at h
      cases h
      exact verified_finalize _ (.inl rfl)
    | false =>
      obtain ⟨count, hs⟩ :=
        SubjectList.serializeUpdate_of_finite hf e.timestamp e.timecode e.now
      rw [hk, if_neg Bool.false_ne_true, hs] at h
      cases h
      exact verified_finalize _ (.inr rfl)
  · rw [SubjectList.serialize_of_not hf, SubjectList.serializeUpdate_of_not hf, ite_self] at h
    cases h

end Shot

namespace Viewer

section step

variable [Wire α β]

/-- The packet, if one is written, is read, and whether it is accepted. -/
def step (v : Viewer α β) (e : Shot α β uuid) : Option (Bool × Viewer α β) :=
  match e.buf with
  | none => some (false, v)
  | some buf => do
    let (ok, receiver) ← v.receiver.parse (some buf) e.clearInactive
    let read := e.keyframe ∧ ¬ContextRejected v.receiver e.root
    some (ok, ⟨receiver, if read then some e.camera.lens else v.last⟩)

/-- After a full packet the camera has the sender's lens; after a later update it has the sender's
values of the fields that vary, and those of the last full packet of the others. -/
def Carries (v : Viewer α β) (e : Shot α β uuid) : Prop :=
  ∀ v', v.step e = some (true, v') →
    (e.keyframe = true → cameraLens uuid v'.receiver.mItems = some e.camera.lens) ∧
    (e.keyframe = false → ∀ lens ∈ v.last,
      cameraLens uuid v'.receiver.mItems = some { lens with
        focalLength := e.camera.lens.focalLength
        focusDistance := e.camera.lens.focusDistance
        aperture := e.camera.lens.aperture })

/-- The camera that the packet finds has the aspect already. -/
def Due (v : Viewer α β) (e : Shot α β uuid) : Prop :=
  (∃ v', v.step e = some (true, v')) →
    let held := cameraLens uuid (v.receiver.kept e.clearInactive)
    (e.keyframe = true → (held.getD (Lens.zero (α := α))).aspect = e.camera.lens.aspect) ∧
    (e.keyframe = false → ∀ lens ∈ v.last, ∃ lens' ∈ held, lens'.aspect = lens.aspect)

end step

/-- Only a camera has the uuid, and its film back is that of the last full packet. -/
structure Films (uuid : String) (v : Viewer α β) : Prop where
  cameras : ∀ x ∈ derivedOf uuid v.receiver.mItems, x.kind = .camera
  filmBack : ∀ lens ∈ v.last, ∀ lens' ∈ cameraLens uuid v.receiver.mItems,
    lens'.filmBackWidth = lens.filmBackWidth ∧ lens'.filmBackHeight = lens.filmBackHeight

variable [Wire α β] [LawfulWire α β]

/-- What a step does: nothing to the subjects, or what the packet shows. -/
theorem step_cases {v v' : Viewer α β} {e : Shot α β uuid} {ok : Bool}
    (hcam : ∀ x ∈ derivedOf uuid v.receiver.mItems, x.kind = .camera)
    (h : v.step e = some (ok, v')) :
    (ok = false ∧ v'.receiver.mItems = v.receiver.mItems ∧ v'.last = v.last) ∨
    (v'.last = (if e.keyframe then some e.camera.lens else v.last) ∧
      derivedOf uuid v'.receiver.mItems =
        (e.shown (cameraLens uuid (v.receiver.kept e.clearInactive))).map .camera) := by
  rw [step] at h
  cases hb : e.buf with
  | none =>
    rw [hb] at h
    cases h
    exact .inl ⟨rfl, rfl, rfl⟩
  | some buf =>
    rw [hb] at h
    dsimp only at h
    rw [parse_verified _ (Shot.buf_verified hb), Option.bind_eq_bind, Option.bind_eq_some_iff] at h
    obtain ⟨⟨ok', receiver⟩, hparse, h⟩ := h
    cases h
    by_cases hc : ContextRejected v.receiver e.root
    · have hc' : ContextRejected { v.receiver with mError := "" } e.root := hc
      rw [SubjectList.parseRoot_rejected hc'] at hparse
      cases hparse
      refine .inl ⟨rfl, SubjectList.adopted_mItems _ _, ?_⟩
      rw [if_neg fun hread => hread.2 hc]
    · obtain ⟨hitems, -⟩ :=
        SubjectList.parseRoot_frame (l := { v.receiver with mError := "" }) hc hparse
      refine .inr ⟨?_, ?_⟩
      · simp only [hc, not_false_eq_true, and_true]
      · rw [derivedOf_of_bare hitems]
        apply e.derivedOf_root
        intro x hx
        cases hclear : e.clearInactive with
        | true =>
          rw [hclear] at hx
          cases hx
        | false =>
          rw [hclear] at hx
          exact hcam x hx

omit [Wire α β] [LawfulWire α β] in
theorem cameraLens_of_derivedOf {items : List (Subject α β)} {shown : Option (Lens β)}
    (h : derivedOf uuid items = shown.map .camera) : cameraLens uuid items = shown := by
  rw [cameraLens_eq, h]
  cases shown <;> rfl

omit [Wire α β] [LawfulWire α β] in
/-- Clearing the list only takes lenses away. -/
theorem Films.kept {v : Viewer α β} (h : Films uuid v) (clearInactive : Bool) :
    ∀ lens ∈ v.last, ∀ lens' ∈ cameraLens uuid (v.receiver.kept clearInactive),
      lens'.filmBackWidth = lens.filmBackWidth ∧ lens'.filmBackHeight = lens.filmBackHeight := by
  cases clearInactive with
  | true => exact fun _ _ _ hlens' => absurd hlens' (Option.not_mem_none _)
  | false => exact h.filmBack

theorem Films.step {v v' : Viewer α β} {e : Shot α β uuid} {ok : Bool} (h : Films uuid v)
    (hs : v.step e = some (ok, v')) : Films uuid v' := by
  obtain ⟨-, hitems, hlast⟩ | ⟨hlast, hderived⟩ := step_cases h.cameras hs
  · refine ⟨?_, ?_⟩
    · rw [hitems]
      exact h.cameras
    · rw [hitems, hlast]
      exact h.filmBack
  · have hlens := cameraLens_of_derivedOf hderived
    refine ⟨?_, ?_⟩
    · rw [hderived]
      intro x hx
      obtain ⟨lens, -, rfl⟩ := Option.mem_map.mp hx
      rfl
    · intro lens hlens' lens' hlens''
      rw [hlens, Shot.shown] at hlens''
      rw [hlast] at hlens'
      cases hk : e.keyframe with
      | true =>
        rw [hk] at hlens' hlens''
        cases hlens'
        cases hlens''
        exact ⟨rfl, rfl⟩
      | false =>
        rw [hk] at hlens' hlens''
        obtain ⟨held, hheld, rfl⟩ := Option.mem_map.mp hlens''
        exact h.kept e.clearInactive lens hlens' held hheld

theorem carries_iff {v : Viewer α β} (h : Films uuid v) (e : Shot α β uuid) :
    v.Carries e ↔ v.Due e := by
  have hafter {v' : Viewer α β} (hs : v.step e = some (true, v')) :
      cameraLens uuid v'.receiver.mItems =
        e.shown (cameraLens uuid (v.receiver.kept e.clearInactive)) := by
    obtain ⟨hfalse, -⟩ | ⟨-, hderived⟩ := step_cases h.cameras hs
    · cases hfalse
    · exact cameraLens_of_derivedOf hderived
  have hkept := h.kept e.clearInactive
  rw [Carries, Due]
  generalize cameraLens uuid (v.receiver.kept e.clearInactive) = held at hafter hkept
  have hsame : (e.keyframe = true → e.shown held = some e.camera.lens) ∧
      (e.keyframe = false → ∀ lens ∈ v.last, e.shown held = some { lens with
        focalLength := e.camera.lens.focalLength
        focusDistance := e.camera.lens.focusDistance
        aperture := e.camera.lens.aperture }) ↔
      (e.keyframe = true → (held.getD (Lens.zero (α := α))).aspect = e.camera.lens.aspect) ∧
      (e.keyframe = false → ∀ lens ∈ v.last, ∃ lens' ∈ held, lens'.aspect = lens.aspect) := by
    rw [Shot.shown]
    cases e.keyframe with
    | true => simp [Lens.ext_iff]
    | false =>
      simp only [Bool.false_eq_true, if_false, false_imp_iff, true_and, true_imp_iff]
      refine forall₂_congr fun lens hlens => ?_
      cases held with
      | none => simp
      | some lens' =>
        obtain ⟨hwidth, hheight⟩ := hkept lens hlens lens' rfl
        simp only [Option.map_some, Option.mem_def, Option.some.injEq, exists_eq_left']
        simp [Lens.ext_iff, hwidth, hheight]
  refine ⟨?_, ?_⟩
  · rintro hall ⟨v', hs⟩
    apply hsame.mp
    rw [← hafter hs]
    exact hall v' hs
  · intro hdue v' hs
    rw [hafter hs]
    exact hsame.mpr (hdue ⟨v', hs⟩)

end Viewer

/-! ### A lens whose aspect is lost -/

/-- A camera at rest, with an aspect of two. -/
def wideCamera : Subject Extended Extended :=
  { Subject.make (α := Extended) .camera "uuid" with
    derived := .camera ⟨(36 : ℚ), (24 : ℚ), (35 : ℚ), (2 : ℚ), (5 : ℚ), (3 : ℚ)⟩
    mTransforms := [Transform.empty] }

def wideSender : SubjectList Extended Extended :=
  { freshList with mItems := [wideCamera], mContext := ⟨.Right, .Up, .Forward, .Meter⟩ }

theorem sendable_wideSender : wideSender.Sendable := by
  refine ⟨by decide, ⟨by decide, by decide, by decide, ?_⟩, by unfold ItemsFinite; decide,
    by decide, ?_, by decide, by decide⟩
  · intro code hcode
    cases hcode
  · intro s hs _
    rw [List.mem_singleton.mp hs]
    exact rootedTree_single

theorem alone_wideCamera : Alone wideCamera wideSender.mItems :=
  ⟨by decide, fun _ ht _ _ => List.mem_singleton.mp ht⟩

/-- The camera in a full packet. -/
def wideShot : Shot Extended Extended "uuid" where
  l := wideSender
  camera := wideCamera
  keyframe := true
  timestamp := (5 : ℚ)
  timecode := ""
  now := (1 : ℚ)
  clearInactive := false
  named := rfl
  alone := alone_wideCamera

namespace Viewer

/-- The receiver's camera has an aspect of zero. -/
theorem aspect_lost : ¬Each step Carries (⟨freshList, none⟩ : Viewer Extended Extended) [wideShot] := by
  obtain ⟨buf, l', r, hs, hr, -⟩ := parse_serialize sendable_wideSender
    (by decide : ((5 : ℚ) : Extended) ≠ 0) "" (1 : ℚ) _ false
  have hfilms : Films "uuid" (⟨freshList, none⟩ : Viewer Extended Extended) :=
    ⟨fun x hx => absurd hx (Option.not_mem_none x), fun x hx => absurd hx (Option.not_mem_none x)⟩
  have hbuf : wideShot.buf = some buf := congrArg Prod.fst hs
  have hstep : ∃ v', step (⟨freshList, none⟩ : Viewer Extended Extended) wideShot =
      some (true, v') := by
    have hclear : wideShot.clearInactive = false := rfl
    rw [step, hbuf]
    dsimp only
    rw [hclear, show freshList.parse (some buf) false = _ from hr]
    exact ⟨_, rfl⟩
  intro h
  obtain ⟨hfull, -⟩ := (carries_iff hfilms wideShot).mp h.1 hstep
  exact absurd (hfull rfl) (by decide)

variable [Wire α β] [LawfulWire α β]

/-- A run of packets carries the lens exactly if, at each one that is accepted, the receiver has
the aspect that the packet leaves out. -/
theorem each_carries_iff {receiver : SubjectList α β}
    (h : ∀ s ∈ receiver.mItems, s.mUuid = uuid → s.kind = .camera) (es : List (Shot α β uuid)) :
    Each step Carries ⟨receiver, none⟩ es ↔ Each step Due ⟨receiver, none⟩ es := by
  have hstart : Films uuid (⟨receiver, none⟩ : Viewer α β) := by
    refine ⟨?_, fun lens hlens => absurd hlens (Option.not_mem_none lens)⟩
    intro x hx
    obtain ⟨s, hs, rfl⟩ := Option.mem_map.mp hx
    exact h s (mem_of_subjectOf hs) (mUuid_of_subjectOf hs)
  exact Each.congr (P := Films uuid) (fun v e r hv _ hr => hv.step hr)
    (fun v e hv _ => carries_iff hv e) hstart (each_true es)

theorem each_carries_iff_wideShot :
    Each step Carries (⟨freshList, none⟩ : Viewer Extended Extended) [wideShot] ↔
      Each step Due (⟨freshList, none⟩ : Viewer Extended Extended) [wideShot] :=
  each_carries_iff (fun _ hs => absurd hs List.not_mem_nil) [wideShot]

end Viewer

end Open3DStream
