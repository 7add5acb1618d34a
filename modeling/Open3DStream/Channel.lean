import Open3DStream.Lib.Lists
import Open3DStream.Mirror
import Open3DStream.RoundTrip

/-! Delta streaming over runs of any length. -/

namespace Open3DStream

open Lib Numeric

variable {α β : Type}

/-- What a sender does after its full packet. -/
inductive Action (α : Type) where
  | translate (subject transform : Nat) (value : Vector3d α)
  | rotate (subject transform : Nat) (value : Quaterniond α)
  | update (timestamp : α) (timecode : String) (now : α)

structure Channel (α β : Type) where
  sender : SubjectList α β
  receiver : SubjectList α β

/-- Change one transform of one subject. -/
def poseAt (i j : Nat) (f : Transform α → Transform α) (items : List (Subject α β)) :
    List (Subject α β) :=
  items.modify i fun s => { s with mTransforms := s.mTransforms.modify j f }

/-- A transform of an enabled subject. -/
def liveAt (items : List (Subject α β)) (i j : Nat) : Option (Transform α) :=
  items[i]?.bind fun s => if s.mEnabled then s.mTransforms[j]? else none

theorem liveAt_eq_some_iff {items : List (Subject α β)} {i j : Nat} {t : Transform α} :
    liveAt items i j = some t ↔
      ∃ s, items[i]? = some s ∧ s.mEnabled = true ∧ s.mTransforms[j]? = some t := by
  rw [liveAt, Option.bind_eq_some_iff]
  refine ⟨?_, ?_⟩
  · rintro ⟨s, hs, ht⟩
    split at ht
    · exact ⟨s, hs, ‹_›, ht⟩
    · cases ht
  · rintro ⟨s, hs, he, ht⟩
    exact ⟨s, hs, by rw [if_pos he, ht]⟩

theorem liveAt_poseAt {i j a b : Nat} {f : Transform α → Transform α}
    {items : List (Subject α β)} {t' : Transform α}
    (h : liveAt (poseAt i j f items) a b = some t') :
    ∃ t, liveAt items a b = some t ∧ (t' = t ∨ t' = f t) := by
  obtain ⟨s', hs', he, ht'⟩ := liveAt_eq_some_iff.mp h
  obtain ⟨s, hs, hcase⟩ := getElem?_modify_cases hs'
  cases hcase with
  | inl heq =>
    subst heq
    exact ⟨t', liveAt_eq_some_iff.mpr ⟨s', hs, he, ht'⟩, .inl rfl⟩
  | inr heq =>
    subst heq
    obtain ⟨t, ht, hcase⟩ := getElem?_modify_cases ht'
    exact ⟨t, liveAt_eq_some_iff.mpr ⟨s, hs, he, ht⟩, hcase⟩

theorem poseAt_sentView {f : Transform α → Transform α}
    (hf : ∀ t, (f t).translation.lastSentValue = t.translation.lastSentValue ∧
      (f t).rotation.lastSentValue = t.rotation.lastSentValue) (i j : Nat)
    (items : List (Subject α β)) :
    (poseAt i j f items).map Subject.sentView = items.map Subject.sentView := by
  apply map_modify_eq
  intro s
  have hts := map_modify_eq (g := fun t : Transform α =>
    (t.translation.lastSentValue, t.rotation.lastSentValue)) (f := f)
    (fun t => by rw [(hf t).1, (hf t).2]) s.mTransforms j
  rw [Subject.sentView, hts]
  rfl

theorem poseAt_uuids (f : Transform α → Transform α) (i j : Nat) (items : List (Subject α β)) :
    (poseAt i j f items).map (·.mUuid) = items.map (·.mUuid) := by
  apply map_modify_eq
  intro s
  rfl

theorem broadcast_nodup {items : List (Subject α β)} (h : (items.map (·.mUuid)).Nodup) :
    ((broadcast items).map (·.mUuid)).Nodup := by
  have hdisjoint {T U : SubjectKind} (hT : T ≠ U) :
      ∀ x ∈ (onAir T items).map (·.mUuid), x ∉ (onAir U items).map (·.mUuid) := by
    intro x hx
    obtain ⟨s, hs, rfl⟩ := List.mem_map.mp hx
    exact onAir_uuid_ne h hT hs
  rw [broadcast, List.map_append, List.map_append, List.nodup_append', List.nodup_append']
  refine ⟨⟨onAir_nodup h _, onAir_nodup h _, hdisjoint (by decide)⟩, onAir_nodup h _, ?_⟩
  intro x hx
  obtain hx | hx := List.mem_append.mp hx
  · exact hdisjoint (by decide) x hx
  · exact hdisjoint (by decide) x hx

theorem find_of_nodup {rs : List (Subject α β)} (h : (rs.map (·.mUuid)).Nodup) {k : Nat}
    {r : Subject α β} (hr : rs[k]? = some r) : findSubjectByUuid r.kind r.mUuid rs = some k := by
  induction rs generalizing k with
  | nil => cases hr
  | cons s rs ih =>
    rw [List.map_cons, List.nodup_cons] at h
    cases k with
    | zero =>
      cases hr
      simp [findSubjectByUuid]
    | succ k =>
      rw [List.getElem?_cons_succ] at hr
      have hne : s.mUuid ≠ r.mUuid := by
        intro he
        exact h.1 (he ▸ List.mem_map_of_mem (List.mem_of_getElem? hr))
      rw [findSubjectByUuid, if_neg hne, ih h.2 hr]
      rfl

theorem liveAt_map {f : Subject α β → Subject α β} {g : Transform α → Transform α}
    (hf : ∀ s, (f s).mEnabled = s.mEnabled ∧
      (s.mEnabled = true → (f s).mTransforms = s.mTransforms.map g)) (items : List (Subject α β))
    (i j : Nat) : liveAt (items.map f) i j = (liveAt items i j).map g := by
  simp only [liveAt]
  rw [List.getElem?_map]
  cases items[i]? with
  | none => rfl
  | some s =>
    rw [Option.map_some, Option.bind_some, Option.bind_some, (hf s).1]
    split
    · rw [(hf s).2 ‹_›, List.getElem?_map]
    · rfl

namespace Channel

def pose (c : Channel α β) (i j : Nat) (f : Transform α → Transform α) : Channel α β :=
  { c with sender := { c.sender with mItems := poseAt i j f c.sender.mItems } }

/-- What a step can do to the values a transform last sent. -/
def Sent (t t' : Transform α) : Prop :=
  (t'.translation.lastSentValue = t.translation.lastSentValue ∨
      t'.translation.lastSentValue = t.translation.value) ∧
    (t'.rotation.lastSentValue = t.rotation.lastSentValue ∨
      t'.rotation.lastSentValue = t.rotation.value)

/-- A change of a pose. -/
def Poses (f : Transform α → Transform α) : Prop :=
  ∀ t, (f t).translation.lastSentValue = t.translation.lastSentValue ∧
    (f t).rotation.lastSentValue = t.rotation.lastSentValue

theorem pose_sent {c : Channel α β} {f : Transform α → Transform α} (hf : Poses f) {a b i j : Nat}
    {t' : Transform α} (ht' : liveAt (c.pose a b f).sender.mItems i j = some t') :
    ∃ t, liveAt c.sender.mItems i j = some t ∧ Sent t t' := by
  obtain ⟨t, ht, hcase⟩ := liveAt_poseAt ht'
  refine ⟨t, ht, ?_⟩
  cases hcase with
  | inl he =>
    rw [he]
    exact ⟨.inl rfl, .inl rfl⟩
  | inr he =>
    rw [he]
    exact ⟨.inl (hf t).1, .inl (hf t).2⟩

end Channel

variable [Numeric α β]

theorem liveAt_of_bare {items items' : List (Subject α β)}
    (h : items'.map Subject.bare = items.map Subject.bare) (i j : Nat) :
    (liveAt items' i j).map Transform.bare = (liveAt items i j).map Transform.bare := by
  have hb (l : List (Subject α β)) :
      (liveAt l i j).map Transform.bare = liveAt (l.map Subject.bare) i j :=
    (liveAt_map (f := Subject.bare) (g := Transform.bare) (fun _ => ⟨rfl, fun _ => rfl⟩) l i j).symm
  rw [hb, hb, h]

theorem allFinite_frame (l : SubjectList α β) :
    l.allFinite.2.mItems.map Subject.bare = l.mItems.map Subject.bare ∧
      l.allFinite.2 = { l with mItems := l.allFinite.2.mItems, mError := l.allFinite.2.mError } := by
  have hb := bare_allFiniteItems l.mItems
  rw [SubjectList.allFinite]
  generalize allFiniteItems l.mItems = r at hb
  obtain ⟨e, items⟩ := r
  cases e <;> exact ⟨hb, rfl⟩

/-- The sender after a call of `serializeUpdate` that emits a packet. -/
def SubjectList.updated (l : SubjectList α β) : SubjectList α β :=
  let items := l.mItems.map (Subject.sentUpdate l.mDeltaThreshold)
  { l with mItems := items }

theorem sentUpdate_uuids (threshold : α) (items : List (Subject α β)) :
    (items.map (Subject.sentUpdate threshold)).map (·.mUuid) = items.map (·.mUuid) := by
  rw [List.map_map]
  apply List.map_congr_left
  intro s _
  simp only [Function.comp_apply, Subject.sentUpdate]
  split <;> rfl

theorem sentFull_uuids (threshold : α) (items : List (Subject α β)) :
    (items.map (Subject.sentFull threshold)).map (·.mUuid) = items.map (·.mUuid) := by
  rw [List.map_map]
  apply List.map_congr_left
  intro s _
  simp only [Function.comp_apply, Subject.sentFull]
  split <;> rfl

theorem liveAt_sentFull (threshold : α) (items : List (Subject α β)) (i j : Nat) :
    liveAt (items.map (Subject.sentFull threshold)) i j =
      (liveAt items i j).map fun t => ((t.serialize (β := β)).2).markSent threshold := by
  apply liveAt_map
  intro s
  refine ⟨(sentFull_keeps threshold s).1, ?_⟩
  intro he
  rw [Subject.sentFull, if_pos he]
  change (s.mTransforms.map _).map _ = _
  rw [List.map_map]
  rfl

theorem liveAt_sentUpdate (threshold : α) (items : List (Subject α β)) (i j : Nat) :
    liveAt (items.map (Subject.sentUpdate threshold)) i j =
      (liveAt items i j).map (Transform.markSent threshold) := by
  apply liveAt_map
  intro s
  refine ⟨(sentUpdate_keeps threshold s).1, ?_⟩
  intro he
  rw [Subject.sentUpdate, if_pos he]
  rfl

/-! ### Runs -/

namespace Channel

variable [Wire α β]

/-- One call of `serializeUpdate`; what it emits is parsed by the receiver. -/
def exchange (c : Channel α β) (timestamp : α) (timecode : String) (now : α) :
    Option (Channel α β) :=
  match c.sender.serializeUpdate timestamp timecode now with
  | (none, _, l) => some { c with sender := l }
  | (some buf, _, l) => do
    let (_, r) ← c.receiver.parse (some buf) false
    some ⟨l, r⟩

/-- `none` is a parse that does not finish. -/
def step (c : Channel α β) : Action α → Option (Channel α β)
  | .translate i j v => some (c.pose i j fun t => { t with translation := { t.translation with value := v } })
  | .rotate i j q => some (c.pose i j fun t => { t with rotation := { t.rotation with value := q } })
  | .update timestamp timecode now => c.exchange timestamp timecode now

def run (c : Channel α β) (actions : List (Action α)) : Option (Channel α β) :=
  actions.foldlM step c

theorem run_append (c : Channel α β) (actions : List (Action α)) (a : Action α) :
    c.run (actions ++ [a]) = (c.run actions).bind (step · a) := by
  simp only [run]
  rw [List.foldlM_append]
  simp

/-- A value that a transform had at some point of a run. -/
def Held {γ : Type} (value : Transform α → γ) (start : Channel α β) (actions : List (Action α))
    (i j : Nat) (v : γ) : Prop :=
  ∃ past c t, past <+: actions ∧ start.run past = some c ∧
    liveAt c.sender.mItems i j = some t ∧ value t = v

theorem Held.mono {γ : Type} {value : Transform α → γ} {start : Channel α β}
    {actions : List (Action α)} {i j : Nat} {v : γ} (h : Held value start actions i j v)
    (a : Action α) : Held value start (actions ++ [a]) i j v := by
  obtain ⟨past, c, t, hp, hc, ht, hv⟩ := h
  exact ⟨past, c, t, hp.trans (List.prefix_append actions [a]), hc, ht, hv⟩

/-- What was last sent was held, where a step keeps it or sends what is there. -/
theorem Held.next {γ : Type} {value last : Transform α → γ} {start c c' : Channel α β}
    {actions : List (Action α)}
    (h : ∀ i j t, liveAt c.sender.mItems i j = some t → Held value start actions i j (last t))
    (hrun : start.run actions = some c) (a : Action α)
    (hs : ∀ i j t', liveAt c'.sender.mItems i j = some t' →
      ∃ t, liveAt c.sender.mItems i j = some t ∧ (last t' = last t ∨ last t' = value t)) :
    ∀ i j t, liveAt c'.sender.mItems i j = some t →
      Held value start (actions ++ [a]) i j (last t) := by
  intro i j t' ht'
  obtain ⟨t, ht, he | he⟩ := hs i j t' ht'
  · rw [he]
    exact (h i j t ht).mono a
  · rw [he]
    exact ⟨actions, c, t, List.prefix_append actions [a], hrun, ht, rfl⟩

theorem exchange_of_not {c : Channel α β} (h : ¬ItemsFinite c.sender.mItems) (timestamp : α)
    (timecode : String) (now : α) :
    c.exchange timestamp timecode now = some { c with sender := c.sender.allFinite.2 } := by
  rw [exchange, SubjectList.serializeUpdate_of_not h]

theorem exchange_of_finite {c : Channel α β} (h : ItemsFinite c.sender.mItems) (timestamp : α)
    (timecode : String) (now : α) :
    c.exchange timestamp timecode now =
      (c.receiver.parse (some (finalize (c.sender.outgoingUpdate timestamp timecode now) 2)) false).map
        fun r => ⟨c.sender.updated, r.2⟩ := by
  obtain ⟨count, hs⟩ := SubjectList.serializeUpdate_of_finite h timestamp timecode now
  rw [exchange, hs]
  dsimp only
  cases c.receiver.parse _ false <;> rfl

/-- A transform's last sent value stays, or becomes the value it has. -/
theorem exchange_sent {c c' : Channel α β} {timestamp : α} {timecode : String} {now : α}
    (h : c.exchange timestamp timecode now = some c') {i j : Nat} {t' : Transform α}
    (ht' : liveAt c'.sender.mItems i j = some t') :
    ∃ t, liveAt c.sender.mItems i j = some t ∧ Sent t t' := by
  by_cases hf : ItemsFinite c.sender.mItems
  · rw [exchange_of_finite hf, Option.map_eq_some_iff] at h
    obtain ⟨r, -, rfl⟩ := h
    change liveAt (c.sender.mItems.map _) i j = some t' at ht'
    rw [liveAt_sentUpdate, Option.map_eq_some_iff] at ht'
    obtain ⟨t, ht, rfl⟩ := ht'
    exact ⟨t, ht, t.markSent_lastSentValue _⟩
  · rw [exchange_of_not hf, Option.some.injEq] at h
    subst h
    have hbare := liveAt_of_bare (allFinite_frame c.sender).1 i j
    rw [ht', Option.map_some] at hbare
    obtain ⟨t, ht, hb⟩ := Option.map_eq_some_iff.mp hbare.symm
    have htranslation : t'.bare.translation = t.bare.translation := by rw [hb]
    have hrotation : t'.bare.rotation = t.bare.rotation := by rw [hb]
    exact ⟨t, ht, .inl (congrArg (·.lastSentValue) htranslation),
      .inl (congrArg (·.lastSentValue) hrotation)⟩

/-- The invariant of a run. -/
structure Streaming (start : Channel α β) (actions : List (Action α)) (c : Channel α β) : Prop where
  threshold : c.sender.mDeltaThreshold = start.sender.mDeltaThreshold
  context : c.receiver.mContext = c.sender.mContext.carried
  uuids : (c.sender.mItems.map (·.mUuid)).Nodup
  mirrors : List.Forall₂ Mirrors ((broadcast c.sender.mItems).map Subject.sentView) c.receiver.mItems
  translations : ∀ i j t, liveAt c.sender.mItems i j = some t →
    Held (·.translation.value) start actions i j t.translation.lastSentValue
  rotations : ∀ i j t, liveAt c.sender.mItems i j = some t →
    Held (·.rotation.value) start actions i j t.rotation.lastSentValue

theorem Streaming.history {start c c' : Channel α β} {actions : List (Action α)}
    (h : Streaming start actions c) (hrun : start.run actions = some c) (a : Action α)
    (hs : ∀ i j t', liveAt c'.sender.mItems i j = some t' →
      ∃ t, liveAt c.sender.mItems i j = some t ∧ Sent t t') :
    (∀ i j t, liveAt c'.sender.mItems i j = some t →
      Held (·.translation.value) start (actions ++ [a]) i j t.translation.lastSentValue) ∧
    ∀ i j t, liveAt c'.sender.mItems i j = some t →
      Held (·.rotation.value) start (actions ++ [a]) i j t.rotation.lastSentValue := by
  refine ⟨?_, ?_⟩
  · apply Held.next h.translations hrun a
    intro i j t' ht'
    obtain ⟨t, ht, hsent, -⟩ := hs i j t' ht'
    exact ⟨t, ht, hsent⟩
  · apply Held.next h.rotations hrun a
    intro i j t' ht'
    obtain ⟨t, ht, -, hsent⟩ := hs i j t' ht'
    exact ⟨t, ht, hsent⟩

theorem Streaming.pose {start c : Channel α β} {actions : List (Action α)}
    (h : Streaming start actions c) (hrun : start.run actions = some c) (a : Action α) (i j : Nat)
    {f : Transform α → Transform α} (hf : Poses f) :
    Streaming start (actions ++ [a]) (c.pose i j f) := by
  have hsent : ∀ i' j' t', liveAt (c.pose i j f).sender.mItems i' j' = some t' →
      ∃ t, liveAt c.sender.mItems i' j' = some t ∧ Sent t t' := fun _ _ _ h => pose_sent hf h
  obtain ⟨ht, hr⟩ := h.history hrun a hsent
  refine ⟨h.threshold, h.context, ?_, ?_, ht, hr⟩
  · exact (poseAt_uuids f i j c.sender.mItems).symm ▸ h.uuids
  · have hviews := broadcast_sentView (poseAt_sentView hf i j c.sender.mItems)
    exact hviews.symm ▸ h.mirrors

/-- The receiver holds, for every transform of every enabled subject, the narrowing of
values the sender once had and that are within its threshold of the present ones. -/
def Converged (start : Channel α β) (actions : List (Action α)) (c : Channel α β) : Prop :=
  ∀ (i : Nat) s, c.sender.mItems[i]? = some s → s.mEnabled = true →
    ∃ k r, findSubjectByUuid s.kind s.mUuid c.receiver.mItems = some k ∧
      c.receiver.mItems[k]? = some r ∧ r.mTransforms.length = s.mTransforms.length ∧
      ∀ (j : Nat) t, s.mTransforms[j]? = some t → ∃ u, r.mTransforms[j]? = some u ∧
        (∃ v, Held (·.translation.value) start actions i j v ∧
          u.translation.value = v.narrowed ∧
          TransformTranslation.delta ⟨t.translation.value, v⟩ ≤ c.sender.mDeltaThreshold) ∧
        ∃ q, Held (·.rotation.value) start actions i j q ∧
          u.rotation.value = q.narrowed ∧
          TransformRotation.delta ⟨t.rotation.value, q⟩ ≤ c.sender.mDeltaThreshold

theorem Streaming.converged {start c : Channel α β} {actions : List (Action α)}
    (h : Streaming start actions c)
    (hclose : ∀ i j t, liveAt c.sender.mItems i j = some t →
      t.translation.delta ≤ c.sender.mDeltaThreshold ∧
        t.rotation.delta ≤ c.sender.mDeltaThreshold) : Converged start actions c := by
  intro i s hs he
  obtain ⟨k, hk⟩ := List.mem_iff_getElem?.mp (mem_broadcast.mpr ⟨List.mem_of_getElem? hs, he⟩)
  have hview : ((broadcast c.sender.mItems).map Subject.sentView)[k]? = some s.sentView := by
    rw [List.getElem?_map, hk]
    rfl
  obtain ⟨r, hr, hm⟩ := forall₂_getElem? h.mirrors hview
  have hnodup : (c.receiver.mItems.map (·.mUuid)).Nodup := by
    have hmatch := h.mirrors
    rw [List.forall₂_map_left_iff] at hmatch
    rw [matches_uuids (hmatch.imp fun _ _ hsr => ⟨hsr.uuid, hsr.kind⟩)]
    exact broadcast_nodup h.uuids
  have hfind := find_of_nodup hnodup hr
  rw [hm.kind, hm.uuid] at hfind
  have hlength := hm.transforms.length_eq
  rw [Subject.sentView, List.length_map] at hlength
  refine ⟨k, r, hfind, hr, hlength.symm, ?_⟩
  intro j t ht
  have hlive : liveAt c.sender.mItems i j = some t := liveAt_eq_some_iff.mpr ⟨s, hs, he, ht⟩
  have hsent : s.sentView.sent[j]? = some (t.translation.lastSentValue, t.rotation.lastSentValue) := by
    rw [Subject.sentView, List.getElem?_map, ht]
    rfl
  obtain ⟨u, hu, hreflects⟩ := forall₂_getElem? hm.transforms hsent
  obtain ⟨hd, hq⟩ := hclose i j t hlive
  exact ⟨u, hu, ⟨_, h.translations i j t hlive, hreflects.translation, hd⟩,
    ⟨_, h.rotations i j t hlive, hreflects.rotation, hq⟩⟩

theorem exchange_close [ExactDistance α] {c c' : Channel α β} (hth : 0 ≤ c.sender.mDeltaThreshold)
    (hf : ItemsFinite c.sender.mItems) {timestamp : α} {timecode : String} {now : α}
    (h : c.exchange timestamp timecode now = some c') :
    ∀ i j t, liveAt c'.sender.mItems i j = some t →
      t.translation.delta ≤ c'.sender.mDeltaThreshold ∧
        t.rotation.delta ≤ c'.sender.mDeltaThreshold := by
  rw [exchange_of_finite hf, Option.map_eq_some_iff] at h
  obtain ⟨r, -, rfl⟩ := h
  intro i j t' ht'
  change liveAt (c.sender.mItems.map _) i j = some t' at ht'
  rw [liveAt_sentUpdate, Option.map_eq_some_iff] at ht'
  obtain ⟨t, ht, rfl⟩ := ht'
  obtain ⟨s, hs, -, ht⟩ := liveAt_eq_some_iff.mp ht
  exact Transform.markSent_delta hth
    (hf s (List.mem_of_getElem? hs) t (List.mem_of_getElem? ht))

variable [LawfulWire α β]

theorem Streaming.exchange {start c : Channel α β} {actions : List (Action α)}
    (h : Streaming start actions c) (hrun : start.run actions = some c) (a : Action α)
    (timestamp : α) (timecode : String) (now : α) :
    ∃ c', c.exchange timestamp timecode now = some c' ∧ Streaming start (actions ++ [a]) c' := by
  by_cases hf : ItemsFinite c.sender.mItems
  · obtain ⟨b, r, hr, hm, hc⟩ := mirrors_next h.uuids h.mirrors h.context timestamp timecode now
    have he := exchange_of_finite hf timestamp timecode now
    rw [hr, Option.map_some] at he
    refine ⟨_, he, ?_⟩
    obtain ⟨ht, hrot⟩ := h.history hrun a fun _ _ _ hl => exchange_sent he hl
    refine ⟨h.threshold, hc, ?_, hm, ht, hrot⟩
    change ((c.sender.mItems.map _).map _).Nodup
    rw [sentUpdate_uuids]
    exact h.uuids
  · have he := exchange_of_not hf timestamp timecode now
    refine ⟨_, he, ?_⟩
    obtain ⟨hbare, hframe⟩ := allFinite_frame c.sender
    obtain ⟨ht, hrot⟩ := h.history hrun a fun _ _ _ hl => exchange_sent he hl
    refine ⟨?_, ?_, ?_, ?_, ht, hrot⟩
    · rw [hframe]
      exact h.threshold
    · rw [hframe]
      exact h.context
    · exact (map_of_bare (g := (·.mUuid)) (fun _ => rfl) hbare).symm ▸ h.uuids
    · have hview (s : Subject α β) : s.bare.sentView = s.sentView := by
        rw [Subject.sentView, Subject.bare, List.map_map]
        rfl
      have hviews := broadcast_sentView (map_of_bare hview hbare)
      exact hviews.symm ▸ h.mirrors

theorem Streaming.step {start c : Channel α β} {actions : List (Action α)}
    (h : Streaming start actions c) (hrun : start.run actions = some c) (a : Action α) :
    ∃ c', c.step a = some c' ∧ Streaming start (actions ++ [a]) c' := by
  cases a with
  | translate i j v => exact ⟨_, rfl, h.pose hrun _ i j fun _ => ⟨rfl, rfl⟩⟩
  | rotate i j q => exact ⟨_, rfl, h.pose hrun _ i j fun _ => ⟨rfl, rfl⟩⟩
  | update timestamp timecode now => exact h.exchange hrun _ timestamp timecode now

theorem Streaming.run {start : Channel α β} (h : Streaming start [] start)
    (actions : List (Action α)) : ∃ c, start.run actions = some c ∧ Streaming start actions c := by
  induction actions using List.reverseRecOn with
  | nil => exact ⟨start, rfl, h⟩
  | append_singleton actions a ih =>
    obtain ⟨c, hc, hs⟩ := ih
    obtain ⟨c', hc', hs'⟩ := hs.step hc a
    refine ⟨c', ?_, hs'⟩
    rw [run_append, hc, Option.bind_some, hc']

/-- Where a run starts: the full packet has been accepted by a fresh receiver. -/
theorem streaming_start {l l₀ r₀ : SubjectList α β} (h : (l.mItems.map (·.mUuid)).Nodup)
    {buf : List UInt8} {timestamp : α} {timecode : String} {now threshold : α}
    (hs : l.serialize timestamp timecode now = (some buf, l₀))
    (hr : (SubjectList.empty threshold).parse (some buf) false = some (true, r₀)) :
    Streaming (⟨l₀, r₀⟩ : Channel α β) [] ⟨l₀, r₀⟩ := by
  obtain ⟨-, rfl, rfl⟩ := SubjectList.serialize_some hs
  obtain ⟨hm, hc⟩ := mirrors_first h hr
  have hlast {i j : Nat} {t : Transform α}
      (ht : liveAt (l.mItems.map (Subject.sentFull l.mDeltaThreshold)) i j = some t) :
      t.translation.lastSentValue = t.translation.value ∧
        t.rotation.lastSentValue = t.rotation.value := by
    rw [liveAt_sentFull, Option.map_eq_some_iff] at ht
    obtain ⟨t₀, -, rfl⟩ := ht
    obtain ⟨hv, hq⟩ := Transform.markSent_value l.mDeltaThreshold (t₀.serialize (β := β)).2
    obtain ⟨ht, hr⟩ := Transform.markSent_lastSentValue l.mDeltaThreshold (t₀.serialize (β := β)).2
    rw [hv, hq]
    exact ⟨ht.elim id id, hr.elim id id⟩
  refine ⟨rfl, hc, ?_, hm, ?_, ?_⟩
  · change ((l.mItems.map _).map _).Nodup
    rw [sentFull_uuids]
    exact h
  · intro i j t ht
    exact ⟨[], _, t, List.prefix_rfl, rfl, ht, (hlast ht).1.symm⟩
  · intro i j t ht
    exact ⟨[], _, t, List.prefix_rfl, rfl, ht, (hlast ht).2.symm⟩

/-- Every run goes through, and after each update that emits a packet the receiver has
converged. -/
theorem deltas_converge [ExactDistance α] {l l₀ r₀ : SubjectList α β}
    (h : (l.mItems.map (·.mUuid)).Nodup) (hth : 0 ≤ l.mDeltaThreshold) {buf : List UInt8}
    {timestamp : α} {timecode : String} {now threshold : α}
    (hs : l.serialize timestamp timecode now = (some buf, l₀))
    (hr : (SubjectList.empty threshold).parse (some buf) false = some (true, r₀))
    (actions : List (Action α)) :
    ∃ c : Channel α β, run ⟨l₀, r₀⟩ actions = some c ∧
      ∀ timestamp timecode now, (c.sender.serializeUpdate timestamp timecode now).1 ≠ none →
        ∃ c', c.step (.update timestamp timecode now) = some c' ∧
          Converged ⟨l₀, r₀⟩ (actions ++ [.update timestamp timecode now]) c' := by
  have hstart := streaming_start h hs hr
  obtain ⟨c, hc, hstream⟩ := hstart.run actions
  refine ⟨c, hc, ?_⟩
  intro timestamp timecode now hemit
  have hf : ItemsFinite c.sender.mItems := by
    by_contra hf
    rw [SubjectList.serializeUpdate_of_not hf] at hemit
    exact hemit rfl
  obtain ⟨c', hc', hstream'⟩ := hstream.step hc (.update timestamp timecode now)
  refine ⟨c', hc', hstream'.converged (exchange_close ?_ hf hc')⟩
  obtain ⟨-, -, rfl⟩ := SubjectList.serialize_some hs
  exact hstream.threshold.symm ▸ hth

theorem deltas_converge_childFirstSender :
    ∃ buf l₀ r₀, childFirstSender.serialize 5 "01:00:00:00" 1 = (some buf, l₀) ∧
      freshList.parse (some buf) false = some (true, r₀) ∧
      ∃ c : Channel Extended Extended,
        run ⟨l₀, r₀⟩ [.translate 0 1 ⟨1, 2, 3⟩, .update 6 "01:00:00:01" 2] = some c ∧
        ∀ timestamp timecode now, (c.sender.serializeUpdate timestamp timecode now).1 ≠ none →
          ∃ c', c.step (.update timestamp timecode now) = some c' ∧
            Converged ⟨l₀, r₀⟩ ([.translate 0 1 ⟨1, 2, 3⟩, .update 6 "01:00:00:01" 2] ++
              [.update timestamp timecode now]) c' := by
  have hts : (5 : Extended) ≠ 0 := by decide
  obtain ⟨buf, l₀, r₀, hs, hr, -⟩ :=
    parse_serialize sendable_childFirstSender hts "01:00:00:00" 1 _ false
  exact ⟨buf, l₀, r₀, hs, hr, deltas_converge (by decide) (by decide +kernel) hs hr _⟩

end Channel

end Open3DStream
