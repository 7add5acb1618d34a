import Open3DStream.Follow
import Open3DStream.Lib.Lists
import Open3DStream.RoundTrip

/-! A receiver holds, narrowed, what its sender last sent. -/

namespace Open3DStream

open Lib Numeric

variable {α β : Type}

/-- What a sender knows its receiver to hold of a subject. -/
structure SentView (α : Type) where
  enabled : Bool
  kind : SubjectKind
  uuid : String
  sent : List (Vector3d α × Quaterniond α)

def Subject.sentView (s : Subject α β) : SentView α where
  enabled := s.mEnabled
  kind := s.kind
  uuid := s.mUuid
  sent := s.mTransforms.map fun t => (t.translation.lastSentValue, t.rotation.lastSentValue)

/-- The values of a subject, as a full packet tells them. -/
def Subject.toldView (s : Subject α β) : SentView α where
  enabled := s.mEnabled
  kind := s.kind
  uuid := s.mUuid
  sent := s.mTransforms.map fun t => (t.translation.value, t.rotation.value)

/-- Where type and enabled flag can be read off a view, lists with the same views broadcast the
same views. -/
theorem broadcast_congr {γ : Type} {g : Subject α β → γ} (P : γ → Bool × SubjectKind)
    (hP : ∀ s, P (g s) = (s.mEnabled, s.kind)) {items items' : List (Subject α β)}
    (h : items'.map g = items.map g) : (broadcast items').map g = (broadcast items).map g := by
  have honAir (T : SubjectKind) (items : List (Subject α β)) :
      (onAir T items).map g = (items.map g).filter fun x => (P x).1 && decide ((P x).2 = T) := by
    rw [List.filter_map, onAir]
    congr 2
    funext s
    rw [Function.comp_apply, hP]
  simp only [broadcast, List.map_append, honAir, h]

theorem broadcast_sentView {items items' : List (Subject α β)}
    (h : items'.map Subject.sentView = items.map Subject.sentView) :
    (broadcast items').map Subject.sentView = (broadcast items).map Subject.sentView :=
  broadcast_congr (fun v => (v.enabled, v.kind)) (fun _ => rfl) h

/-- A change that keeps type and enabled flag goes through to what is broadcast. -/
theorem broadcast_map {f : Subject α β → Subject α β}
    (hf : ∀ s, (f s).mEnabled = s.mEnabled ∧ (f s).kind = s.kind) (items : List (Subject α β)) :
    broadcast (items.map f) = (broadcast items).map f := by
  have honAir (T : SubjectKind) : onAir T (items.map f) = (onAir T items).map f := by
    rw [onAir, List.filter_map]
    congr 1
    apply List.filter_congr
    intro s _
    simp [(hf s).1, (hf s).2]
  simp only [broadcast, List.map_append, honAir]

/-- A context as a receiver reads it. -/
def Context.carried (c : Context) : Context :=
  ⟨readDirection (writeDirection c.mX), readDirection (writeDirection c.mY),
    readDirection (writeDirection c.mZ), readUnit (writeUnit c.mDistance)⟩

theorem adopted_mContext {r : SubjectList α β} {p : Data.SubjectList α β}
    (h : r.mContext.valid = false ∨ r.mContext = readContext p) :
    ¬ContextRejected r p ∧ (r.adopted p).mContext = readContext p := by
  rw [ContextRejected, SubjectList.adopted, SubjectList.adoptContext]
  have hread : (r.readTime p).mContext = r.mContext := rfl
  rw [hread]
  cases hv : r.mContext.valid with
  | false => simp
  | true =>
    have heq : r.mContext = readContext p := h.resolve_left (by simp [hv])
    rw [heq] at hv
    simp only [hv, Bool.not_true, Bool.false_eq_true, if_false]
    refine ⟨by simp, ?_⟩
    split
    · exact heq
    · exact heq

variable [Numeric α β]

/-- A receiver's transform holds a pair of sent values, and can be evaluated. -/
structure Reflects (sent : Vector3d α × Quaterniond α) (u : Transform α) : Prop where
  translation : u.translation.value = sent.1.narrowed
  rotation : u.rotation.value = sent.2.narrowed
  enough : u.EnoughMatrices

structure Mirrors (v : SentView α) (r : Subject α β) : Prop where
  kind : r.kind = v.kind
  uuid : r.mUuid = v.uuid
  transforms : List.Forall₂ Reflects v.sent r.mTransforms

theorem reflects_bare (p : Vector3d α × Quaterniond α) (u : Transform α) :
    Reflects p u.bare ↔ Reflects p u :=
  ⟨fun h => ⟨h.translation, h.rotation, h.enough⟩, fun h => ⟨h.translation, h.rotation, h.enough⟩⟩

theorem mirrors_bare (v : SentView α) (r : Subject α β) : Mirrors v r.bare ↔ Mirrors v r := by
  have hts : List.Forall₂ Reflects v.sent r.bare.mTransforms ↔
      List.Forall₂ Reflects v.sent r.mTransforms := by
    change List.Forall₂ Reflects v.sent (r.mTransforms.map Transform.bare) ↔ _
    rw [List.forall₂_map_right_iff]
    simp only [reflects_bare]
  exact ⟨fun h => ⟨h.kind, h.uuid, hts.mp h.transforms⟩, fun h => ⟨h.kind, h.uuid, hts.mpr h.transforms⟩⟩

/-- The computed fields and errors of a receiver do not matter. -/
theorem mirrors_of_bare {vs : List (SentView α)} {rs rs' : List (Subject α β)}
    (h : rs'.map Subject.bare = rs.map Subject.bare) (hm : List.Forall₂ Mirrors vs rs) :
    List.Forall₂ Mirrors vs rs' := by
  have hbare (l : List (Subject α β)) :
      List.Forall₂ Mirrors vs (l.map Subject.bare) ↔ List.Forall₂ Mirrors vs l := by
    rw [List.forall₂_map_right_iff]
    simp only [mirrors_bare]
  rw [← hbare, h, hbare]
  exact hm

theorem Mirrors.not_starved {vs : List (SentView α)} {rs : List (Subject α β)}
    (h : List.Forall₂ Mirrors vs rs) : ¬Starved rs := by
  apply Open3DStream.not_starved
  exact forall₂_right h fun v r hvr => forall₂_right hvr.transforms fun _ _ hpu => hpu.enough

/-! ### One transform -/

namespace Transform

theorem markSent_lastSentValue (threshold : α) (t : Transform α) :
    ((t.markSent threshold).translation.lastSentValue = t.translation.lastSentValue ∨
      (t.markSent threshold).translation.lastSentValue = t.translation.value) ∧
    ((t.markSent threshold).rotation.lastSentValue = t.rotation.lastSentValue ∨
      (t.markSent threshold).rotation.lastSentValue = t.rotation.value) := by
  rw [markSent_translation, markSent_rotation]
  refine ⟨?_, ?_⟩
  · split
    · exact .inr rfl
    · exact .inl rfl
  · split
    · exact .inr rfl
    · exact .inl rfl

theorem markSent_value (threshold : α) (t : Transform α) :
    (t.markSent threshold).translation.value = t.translation.value ∧
      (t.markSent threshold).rotation.value = t.rotation.value := by
  rw [markSent_translation, markSent_rotation]
  refine ⟨?_, ?_⟩
  · split <;> rfl
  · split <;> rfl

/-- The values a transform is known by once an update has told of it. -/
def told (threshold : α) (t : Transform α) (p : Vector3d α × Quaterniond α) :
    Vector3d α × Quaterniond α :=
  (if t.allFinite && decide (threshold < t.translation.delta) then t.translation.value else p.1,
   if t.allFinite && decide (threshold < t.rotation.delta) then t.rotation.value else p.2)

/-- A copy follows what it is told. -/
theorem reflects_told (threshold : α) (t : Transform α) {p : Vector3d α × Quaterniond α}
    {u : Transform α} (h : Reflects p u) :
    Reflects (t.told threshold p) (follow (β := β) threshold t u) := by
  rw [told, follow, emitTranslation, emitRotation]
  refine ⟨?_, ?_, h.enough⟩
  · dsimp only
    split
    · rfl
    · exact h.translation
  · dsimp only
    split
    · rfl
    · exact h.rotation

/-- What is marked as sent is what an update tells to those who know what was sent before. -/
theorem told_lastSentValue (threshold : α) (t : Transform α) :
    t.told threshold (t.translation.lastSentValue, t.rotation.lastSentValue) =
      ((t.markSent threshold).translation.lastSentValue,
        (t.markSent threshold).rotation.lastSentValue) := by
  rw [told, markSent_translation, markSent_rotation]
  simp only [Bool.and_eq_true, decide_eq_true_eq, Prod.mk.injEq]
  refine ⟨?_, ?_⟩
  · split <;> rfl
  · split <;> rfl

/-- After an update every value is within the threshold of what was last sent. -/
theorem markSent_delta [ExactDistance α] {threshold : α} (hth : 0 ≤ threshold) {t : Transform α}
    (hf : t.allFinite = true) :
    (t.markSent threshold).translation.delta ≤ threshold ∧
      (t.markSent threshold).rotation.delta ≤ threshold := by
  obtain ⟨ht, -, hr, -⟩ := t.valuesFinite_iff.mp ((allFinite_iff t).mp hf).2.2
  have hdelta {d : α} (h : ¬(t.allFinite = true ∧ threshold < d)) : d ≤ threshold :=
    not_lt.mp fun hd => h ⟨hf, hd⟩
  rw [markSent_translation, markSent_rotation]
  refine ⟨?_, ?_⟩
  · split
    · exact (ExactDistance.vectorDistance_self ht).trans_le hth
    · exact hdelta ‹_›
  · split
    · exact (ExactDistance.angularDistance_self hr).trans_le hth
    · exact hdelta ‹_›

end Transform

/-! ### One packet -/

/-- A view is of a subject. -/
structure Views (s : Subject α β) (v : SentView α) : Prop where
  kind : v.kind = s.kind
  uuid : v.uuid = s.mUuid
  length : s.mTransforms.length = v.sent.length

omit [Numeric α β] in
theorem views_sentView (s : Subject α β) : Views s s.sentView :=
  ⟨rfl, rfl, (List.length_map _).symm⟩

/-- What is known of a subject once an update has told of it. -/
def Subject.told (threshold : α) (s : Subject α β) (v : SentView α) : SentView α :=
  { v with sent := List.zipWith (Transform.told threshold) s.mTransforms v.sent }

theorem Mirrors.matches {s r : Subject α β} {v : SentView α} (hv : Views s v) (h : Mirrors v r) :
    Matches s r :=
  ⟨h.uuid.trans hv.uuid, h.kind.trans hv.kind⟩

theorem mirrors_told (threshold : α) {s r : Subject α β} {v : SentView α} (hv : Views s v)
    (h : Mirrors v r) : Mirrors (s.told threshold v) (s.followed threshold r) := by
  obtain ⟨hu, hk⟩ := matches_followed (h.matches hv) threshold
  refine ⟨hk.trans hv.kind.symm, hu.trans hv.uuid.symm, ?_⟩
  rw [followed_mTransforms threshold (hv.length.trans h.transforms.length_eq)]
  have hpairs : List.Forall₂ (fun _ _ => True) s.mTransforms v.sent :=
    List.forall₂_iff_get.mpr ⟨hv.length, fun _ _ _ => trivial⟩
  refine forall₂_zipWith_zipWith ?_ hpairs h.transforms
  intro t p u _ hpu
  exact t.reflects_told (β := β) threshold hpu

/-- What a subject has marked as sent is what its updates tell. -/
theorem told_sentView (threshold : α) {s : Subject α β} (he : s.mEnabled = true) :
    s.told threshold s.sentView = (s.sentUpdate threshold).sentView := by
  have hsent : s.sentUpdate threshold = (s.serializeUpdate threshold).2.2 := if_pos he
  rw [hsent, Subject.told, Subject.sentView, Subject.sentView]
  congr 1
  change _ = (s.mTransforms.map (Transform.markSent threshold)).map _
  rw [List.map_map, List.zipWith_map_right, List.zipWith_self]
  apply List.map_congr_left
  intro t _
  exact t.told_lastSentValue threshold

theorem mirrors_received {s : Subject α β}
    (h : ∀ t ∈ s.mTransforms, t.narrowed.EnoughMatrices) : Mirrors s.toldView s.received := by
  refine ⟨s.received_kind, rfl, ?_⟩
  change List.Forall₂ Reflects (s.mTransforms.map _) (s.mTransforms.map Transform.narrowed)
  rw [List.forall₂_map_left_iff, List.forall₂_map_right_iff, List.forall₂_same]
  intro t ht
  exact ⟨rfl, rfl, h t ht⟩

/-- A full packet tells what it marks as sent. -/
theorem sentView_sentFull (threshold : α) {s : Subject α β} (he : s.mEnabled = true) :
    (s.sentFull threshold).sentView = s.toldView := by
  have hsent : s.sentFull threshold = (s.serialize.2.serializeUpdate threshold).2.2 := if_pos he
  rw [hsent, Subject.sentView, Subject.toldView]
  congr 1
  change ((s.mTransforms.map fun t => (t.serialize (β := β)).2).map
    (Transform.markSent threshold)).map _ = _
  rw [List.map_map, List.map_map]
  apply List.map_congr_left
  intro t _
  have hlast := Transform.markSent_lastSentValue threshold (t.serialize (β := β)).2
  exact Prod.ext (hlast.1.elim id id) (hlast.2.elim id id)

theorem sentUpdate_keeps (threshold : α) (s : Subject α β) :
    (s.sentUpdate threshold).mEnabled = s.mEnabled ∧ (s.sentUpdate threshold).kind = s.kind := by
  rw [Subject.sentUpdate]
  split <;> exact ⟨rfl, rfl⟩

theorem sentFull_keeps (threshold : α) (s : Subject α β) :
    (s.sentFull threshold).mEnabled = s.mEnabled ∧ (s.sentFull threshold).kind = s.kind := by
  rw [Subject.sentFull]
  split <;> exact ⟨rfl, rfl⟩

section wire

variable [Wire α β] [LawfulWire α β]

/-- A full packet sets the mirror up, whether it is accepted or not. -/
theorem mirrors_fresh {l r : SubjectList α β} (h : (l.mItems.map (·.mUuid)).Nodup)
    (henough : ∀ s ∈ l.mItems, s.mEnabled = true → ∀ t ∈ s.mTransforms, t.narrowed.EnoughMatrices)
    {timestamp : α} {timecode : String} {now threshold : α} {b : Bool}
    (hr : (SubjectList.empty threshold).parse
      (some (finalize (l.outgoing timestamp timecode now) 1)) false = some (b, r)) :
    List.Forall₂ Mirrors ((broadcast l.mItems).map Subject.toldView) r.mItems ∧
      r.mContext = l.mContext.carried := by
  rw [SubjectList.parse_outgoing] at hr
  obtain ⟨hitems, hframe⟩ := SubjectList.parseRoot_frame (SubjectList.empty_not_rejected _ _) hr
  have happ : (l.outgoing timestamp timecode now).applied [] =
      (broadcast l.mItems).map Subject.received := applied_fullRoot _ _ _ _ _ h
  rw [SubjectList.empty_kept, happ] at hitems
  refine ⟨?_, ?_⟩
  · apply mirrors_of_bare hitems
    rw [List.forall₂_map_left_iff, List.forall₂_map_right_iff, List.forall₂_same]
    intro s hs
    obtain ⟨hs, he⟩ := mem_broadcast.mp hs
    exact mirrors_received (henough s hs he)
  · rw [hframe]
    exact (adopted_mContext (.inl rfl)).2

/-- The accepted full packet is mirrored as it has been marked as sent. -/
theorem mirrors_first {l r : SubjectList α β} (h : (l.mItems.map (·.mUuid)).Nodup)
    {timestamp : α} {timecode : String} {now threshold : α}
    (hr : (SubjectList.empty threshold).parse
      (some (finalize (l.outgoing timestamp timecode now) 1)) false = some (true, r)) :
    List.Forall₂ Mirrors
        ((broadcast (l.mItems.map (Subject.sentFull l.mDeltaThreshold))).map Subject.sentView)
        r.mItems ∧ r.mContext = l.mContext.carried := by
  have hacc := (SubjectList.parse_outgoing_true_iff l h timestamp timecode now threshold false).mp
    ⟨r, hr⟩
  have henough : ∀ s ∈ l.mItems, s.mEnabled = true → ∀ t ∈ s.mTransforms,
      t.narrowed.EnoughMatrices :=
    fun s hs he t ht => ((hacc s hs he).evaluable _ (List.mem_map_of_mem ht)).2.1
  obtain ⟨hm, hc⟩ := mirrors_fresh h henough hr
  refine ⟨?_, hc⟩
  have hviews : ((broadcast l.mItems).map (Subject.sentFull l.mDeltaThreshold)).map
      Subject.sentView = (broadcast l.mItems).map Subject.toldView := by
    rw [List.map_map]
    exact List.map_congr_left fun s hs => sentView_sentFull _ (mem_broadcast.mp hs).2
  rw [broadcast_map (sentFull_keeps _), hviews]
  exact hm

/-- An emitted update tells the receiver, whether it accepts the packet or not. -/
theorem mirrors_update {l r : SubjectList α β} (h : (l.mItems.map (·.mUuid)).Nodup)
    {vs : List (SentView α)} (hv : List.Forall₂ Views (broadcast l.mItems) vs)
    (hm : List.Forall₂ Mirrors vs r.mItems) (hc : r.mContext = l.mContext.carried) (timestamp : α)
    (timecode : String) (now : α) :
    ∃ b r', r.parse (some (finalize (l.outgoingUpdate timestamp timecode now) 2)) false =
        some (b, r') ∧
      List.Forall₂ Mirrors
        (List.zipWith (Subject.told l.mDeltaThreshold) (broadcast l.mItems) vs) r'.mItems ∧
      r'.mContext = l.mContext.carried := by
  let p := l.outgoingUpdate timestamp timecode now
  let r₀ : SubjectList α β := { r with mError := "" }
  obtain ⟨hok, hctx⟩ := adopted_mContext (r := r₀) (p := p) (.inr hc)
  have happ : p.applied r.mItems =
      List.zipWith (Subject.followed l.mDeltaThreshold) (broadcast l.mItems) r.mItems :=
    applied_updateRoot _ _ _ _ _ h (forall₂_trans (fun _ _ _ hsv hvr => hvr.matches hsv) hv hm)
  have hnext : List.Forall₂ Mirrors
      (List.zipWith (Subject.told l.mDeltaThreshold) (broadcast l.mItems) vs)
      (p.applied r.mItems) := by
    rw [happ]
    exact forall₂_zipWith_zipWith (fun _ _ _ hsv hvr => mirrors_told _ hsv hvr) hv hm
  have hsome : r₀.parseRoot p false ≠ none := by
    rw [ne_eq, SubjectList.parseRoot_eq_none_iff]
    rintro ⟨-, hs⟩
    exact Mirrors.not_starved hnext (hs (readable_updateRoot _ _ _ _ _ _ _)).2
  obtain ⟨⟨b, r'⟩, hr'⟩ := Option.ne_none_iff_exists'.mp hsome
  obtain ⟨hitems, hframe⟩ := SubjectList.parseRoot_frame hok hr'
  refine ⟨b, r', ?_, mirrors_of_bare hitems hnext, ?_⟩
  · rw [parse_verified r (verified_finalize p (.inr rfl))]
    exact hr'
  · rw [hframe]
    exact hctx

/-- An emitted update keeps the mirror of what the sender has marked as sent. -/
theorem mirrors_next {l r : SubjectList α β} (h : (l.mItems.map (·.mUuid)).Nodup)
    (hm : List.Forall₂ Mirrors ((broadcast l.mItems).map Subject.sentView) r.mItems)
    (hc : r.mContext = l.mContext.carried) (timestamp : α) (timecode : String) (now : α) :
    ∃ b r', r.parse (some (finalize (l.outgoingUpdate timestamp timecode now) 2)) false =
        some (b, r') ∧
      List.Forall₂ Mirrors
        ((broadcast (l.mItems.map (Subject.sentUpdate l.mDeltaThreshold))).map Subject.sentView)
        r'.mItems ∧ r'.mContext = l.mContext.carried := by
  have hv : List.Forall₂ Views (broadcast l.mItems) ((broadcast l.mItems).map Subject.sentView) := by
    rw [List.forall₂_map_right_iff, List.forall₂_same]
    exact fun s _ => views_sentView s
  obtain ⟨b, r', hr', hnext, hc'⟩ := mirrors_update h hv hm hc timestamp timecode now
  refine ⟨b, r', hr', ?_, hc'⟩
  rw [List.zipWith_map_right, List.zipWith_self] at hnext
  rw [broadcast_map (sentUpdate_keeps _), List.map_map]
  have hsent : (broadcast l.mItems).map (fun s => s.told l.mDeltaThreshold s.sentView) =
      (broadcast l.mItems).map (Subject.sentView ∘ Subject.sentUpdate l.mDeltaThreshold) :=
    List.map_congr_left fun s hs => told_sentView _ (mem_broadcast.mp hs).2
  exact hsent ▸ hnext

end wire

end Open3DStream
