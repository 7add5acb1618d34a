import Open3DStream.Outline
import Open3DStream.Refresh

/-! Streaming over a link that loses and repeats packets. -/

namespace Open3DStream

open Lib Numeric

variable {α β : Type}

/-- What a sender does, and how often each of its packets arrives. -/
inductive Sending (α : Type) where
  | translate (subject transform : Nat) (value : Vector3d α)
  | rotate (subject transform : Nat) (value : Quaterniond α)
  | keyframe (timestamp : α) (timecode : String) (now : α) (copies : Nat)
  | update (timestamp : α) (timecode : String) (now : α) (copies : Nat)

/-- No packet is lost here. -/
def Sending.Heard : Sending α → Prop
  | .translate _ _ _ | .rotate _ _ _ => True
  | .keyframe _ _ _ copies | .update _ _ _ copies => 0 < copies

variable [Numeric α β]

/-- The subjects have the matrices that their copies take. -/
def Supplied (items : List (Subject α β)) : Prop :=
  ∀ s ∈ items, s.mEnabled = true → ∀ t ∈ s.mTransforms, t.narrowed.EnoughMatrices

omit [Numeric α β] in
theorem views_map {f : Subject α β → SentView α} (hf : ∀ s, Views s (f s))
    (items : List (Subject α β)) : List.Forall₂ Views (broadcast items) ((broadcast items).map f) := by
  rw [List.forall₂_map_right_iff, List.forall₂_same]
  exact fun s _ => hf s

theorem ready_sentView {l : SubjectList α β} (hn : (l.mItems.map (·.mUuid)).Nodup)
    (hs : Supplied l.mItems) : Ready l ((broadcast l.mItems).map Subject.sentView) :=
  ⟨hn, hs, views_map views_sentView l.mItems⟩

theorem views_told (threshold : α) {s : Subject α β} {v : SentView α} (h : Views s v) :
    Views s (s.told threshold v) := by
  refine ⟨h.kind, h.uuid, ?_⟩
  rw [Subject.told, List.length_zipWith, ← h.length, Nat.min_self]

/-- What an update tells it tells also when it is repeated. -/
theorem told_told (threshold : α) (ss : List (Subject α β)) (vs : List (SentView α)) :
    List.zipWith (Subject.told threshold) ss (List.zipWith (Subject.told threshold) ss vs) =
      List.zipWith (Subject.told threshold) ss vs := by
  have htransform (t : Transform α) (p : Vector3d α × Quaterniond α) :
      t.told threshold (t.told threshold p) = t.told threshold p := by
    simp only [Transform.told, Prod.mk.injEq]
    refine ⟨?_, ?_⟩
    · split <;> rfl
    · split <;> rfl
  apply zipWith_zipWith_self
  intro s v
  rw [Subject.told, Subject.told, zipWith_zipWith_self htransform]

omit [Numeric α β] in
theorem views_toldView (s : Subject α β) : Views s s.toldView :=
  ⟨rfl, rfl, (List.length_map _).symm⟩

section link

variable [Wire α β]

/-! ### The link -/

/-- A packet that arrives a number of times; `none` is a parse that does not finish. -/
def SubjectList.hear (r : SubjectList α β) (buf : List UInt8) : Nat → Option (SubjectList α β)
  | 0 => some r
  | copies + 1 => do
    let (_, r) ← r.parse (some buf) false
    r.hear buf copies

namespace Channel

/-- What has been emitted goes over the link. -/
def hear (c : Channel α β) (copies : Nat) : Option (List UInt8) → Option (Channel α β)
  | none => some c
  | some buf => (c.receiver.hear buf copies).map fun r => { c with receiver := r }

def send (c : Channel α β) : Sending α → Option (Channel α β)
  | .translate i j v => some (c.pose i j fun t => { t with translation := { t.translation with value := v } })
  | .rotate i j q => some (c.pose i j fun t => { t with rotation := { t.rotation with value := q } })
  | .keyframe timestamp timecode now copies =>
    let (buf, l) := c.sender.serialize timestamp timecode now
    hear ⟨l, c.receiver⟩ copies buf
  | .update timestamp timecode now copies =>
    let (buf, _, l) := c.sender.serializeUpdate timestamp timecode now
    hear ⟨l, c.receiver⟩ copies buf

def stream (c : Channel α β) (actions : List (Sending α)) : Option (Channel α β) :=
  actions.foldlM send c

/-- A packet comes out. -/
def Emits (c : Channel α β) : Sending α → Prop
  | .translate _ _ _ | .rotate _ _ _ => False
  | .keyframe timestamp timecode now _ => (c.sender.serialize timestamp timecode now).1 ≠ none
  | .update timestamp timecode now _ => (c.sender.serializeUpdate timestamp timecode now).1 ≠ none

theorem Emits.finite {c : Channel α β} {a : Sending α} (h : c.Emits a) :
    ItemsFinite c.sender.mItems := by
  by_contra hf
  cases a with
  | translate i j v => exact h
  | rotate i j q => exact h
  | keyframe timestamp timecode now copies =>
    apply h
    rw [SubjectList.serialize_of_not hf]
  | update timestamp timecode now copies =>
    apply h
    rw [SubjectList.serializeUpdate_of_not hf]

end Channel

end link

/-! ### What a receiver keeps -/

/-- A receiver holds copies of a list's subjects, or nothing yet. -/
structure Follows (l r : SubjectList α β) : Prop where
  context : r.mContext.valid = false ∨ r.mContext = l.mContext.carried
  copies : r.mItems = [] ∨ r.mContext = l.mContext.carried ∧
    ∃ vs, List.Forall₂ Views (broadcast l.mItems) vs ∧ List.Forall₂ Mirrors vs r.mItems

theorem Follows.of_outline {l l' r : SubjectList α β} (h : Follows l r) (ha : SameOutline l l') :
    Follows l' r := by
  refine ⟨?_, ?_⟩
  · rw [ha.context]
    exact h.context
  · obtain hnone | ⟨hc, vs, hv, hm⟩ := h.copies
    · exact .inl hnone
    · rw [ha.context]
      exact .inr ⟨hc, vs, views_of_shape (shape_of_outline ha.items) hv, hm⟩

section link

variable [Wire α β] [LawfulWire α β]

/-- A full packet fills a receiver that has heard of no subject. -/
theorem mirrors_filled {l r : SubjectList α β} (h : (l.mItems.map (·.mUuid)).Nodup)
    (henough : ∀ s ∈ l.mItems, s.mEnabled = true → ∀ t ∈ s.mTransforms, t.narrowed.EnoughMatrices)
    (hnone : r.mItems = []) (hc : r.mContext.valid = false ∨ r.mContext = l.mContext.carried)
    (timestamp : α) (timecode : String) (now : α) :
    ∃ b r', r.parse (some (finalize (l.outgoing timestamp timecode now) 1)) false = some (b, r') ∧
      List.Forall₂ Mirrors ((broadcast l.mItems).map Subject.toldView) r'.mItems ∧
      r'.mContext = l.mContext.carried := by
  let p := l.outgoing timestamp timecode now
  let r₀ : SubjectList α β := { r with mError := "" }
  obtain ⟨hok, hctx⟩ := adopted_mContext (r := r₀) (p := p) hc
  have hnext : List.Forall₂ Mirrors ((broadcast l.mItems).map Subject.toldView)
      (p.applied r.mItems) := by
    have happ : p.applied [] = (broadcast l.mItems).map Subject.received :=
      applied_fullRoot _ _ _ _ _ h
    rw [hnone, happ, List.forall₂_map_left_iff, List.forall₂_map_right_iff, List.forall₂_same]
    intro s hs
    obtain ⟨hs, he⟩ := mem_broadcast.mp hs
    exact mirrors_received (henough s hs he)
  have hsome : r₀.parseRoot p false ≠ none := by
    rw [ne_eq, SubjectList.parseRoot_eq_none_iff]
    rintro ⟨-, hs⟩
    exact Mirrors.not_starved hnext (hs (readable_fullRoot _ _ _ _ _ _ _)).2
  obtain ⟨⟨b, r'⟩, hr'⟩ := Option.ne_none_iff_exists'.mp hsome
  obtain ⟨hitems, hframe⟩ := SubjectList.parseRoot_frame hok hr'
  refine ⟨b, r', ?_, mirrors_of_bare hitems hnext, ?_⟩
  · rw [parse_verified r (verified_finalize p (.inl rfl))]
    exact hr'
  · rw [hframe]
    exact hctx

/-- An update finds nothing to change in a receiver that has heard of no subject. -/
theorem mirrors_unknown {l r : SubjectList α β} (hnone : r.mItems = [])
    (hc : r.mContext.valid = false ∨ r.mContext = l.mContext.carried) (timestamp : α)
    (timecode : String) (now : α) :
    ∃ b r', r.parse (some (finalize (l.outgoingUpdate timestamp timecode now) 2)) false =
        some (b, r') ∧ r'.mItems = [] ∧ r'.mContext = l.mContext.carried := by
  let p := l.outgoingUpdate timestamp timecode now
  let r₀ : SubjectList α β := { r with mError := "" }
  obtain ⟨hok, hctx⟩ := adopted_mContext (r := r₀) (p := p) hc
  have hskip {δ : Type} (T : SubjectKind) (body : δ → Option (Data.SubjectUpdate β))
      (finish : δ → Subject α β → Subject α β) (us : List δ) :
      us.foldl (updating T body finish) [] = [] := by
    induction us with
    | nil => rfl
    | cons u us ih =>
      rw [List.foldl_cons, updating]
      split
      · exact ih
      · exact ih
  have happ : p.applied [] = [] := by
    rw [Data.SubjectList.applied, Data.SubjectList.withPerformers, Data.SubjectList.withRigidbodies,
      Data.SubjectList.withCameras]
    have hp : p.performers = none := rfl
    have hr : p.rigidbodies = none := rfl
    have hcam : p.cameras = none := rfl
    simp only [hp, hr, hcam, Option.getD_none, List.foldl_nil, hskip]
  have hsome : r₀.parseRoot p false ≠ none := by
    rw [ne_eq, SubjectList.parseRoot_eq_none_iff]
    rintro ⟨-, hs⟩
    have hstarved := (hs (readable_updateRoot _ _ _ _ _ _ _)).2
    change Starved (p.applied r.mItems) at hstarved
    rw [hnone, happ] at hstarved
    exact not_starved (fun _ hs => absurd hs List.not_mem_nil) hstarved
  obtain ⟨⟨b, r'⟩, hr'⟩ := Option.ne_none_iff_exists'.mp hsome
  obtain ⟨hitems, hframe⟩ := SubjectList.parseRoot_frame hok hr'
  refine ⟨b, r', ?_, ?_, ?_⟩
  · rw [parse_verified r (verified_finalize p (.inr rfl))]
    exact hr'
  · change r'.mItems.map Subject.bare = (p.applied r.mItems).map Subject.bare at hitems
    rw [hnone, happ] at hitems
    exact List.map_eq_nil_iff.mp hitems
  · rw [hframe]
    exact hctx

/-- Whatever has been missed, a full packet leaves the receiver with what it tells. -/
theorem Follows.refill {l r : SubjectList α β} (h : Follows l r)
    (hn : (l.mItems.map (·.mUuid)).Nodup) (hs : Supplied l.mItems) (timestamp : α)
    (timecode : String) (now : α) :
    ∃ b r', r.parse (some (finalize (l.outgoing timestamp timecode now) 1)) false = some (b, r') ∧
      List.Forall₂ Mirrors ((broadcast l.mItems).map Subject.toldView) r'.mItems ∧
      r'.mContext = l.mContext.carried := by
  obtain hnone | ⟨hc, vs, hv, hm⟩ := h.copies
  · exact mirrors_filled hn hs hnone h.context timestamp timecode now
  · have hmatches : List.Forall₂ Matches (broadcast l.mItems) r.mItems :=
      forall₂_trans (fun _ _ _ hsv hvr => hvr.matches hsv) hv hm
    exact mirrors_refreshed hn hmatches hc hs timestamp timecode now

/-- Keyframes that come through leave the receiver with what they tell. -/
theorem Follows.keyframe {l r : SubjectList α β} (h : Follows l r)
    (hn : (l.mItems.map (·.mUuid)).Nodup) (hs : Supplied l.mItems) (timestamp : α)
    (timecode : String) (now : α) (copies : Nat) :
    ∃ r', r.hear (finalize (l.outgoing timestamp timecode now) 1) copies = some r' ∧
      Follows l r' ∧ (0 < copies →
        List.Forall₂ Mirrors ((broadcast l.mItems).map Subject.toldView) r'.mItems ∧
          r'.mContext = l.mContext.carried) := by
  induction copies generalizing r with
  | zero => exact ⟨r, rfl, h, fun hpos => absurd hpos (Nat.lt_irrefl 0)⟩
  | succ copies ih =>
    obtain ⟨b, r₁, hr, hm, hc⟩ := h.refill hn hs timestamp timecode now
    have hviews := views_map views_toldView l.mItems
    obtain ⟨r', hr', hfollows, hlast⟩ := ih ⟨.inr hc, .inr ⟨hc, _, hviews, hm⟩⟩
    refine ⟨r', ?_, hfollows, fun _ => ?_⟩
    · rw [SubjectList.hear, hr]
      exact hr'
    · cases copies with
      | zero =>
        cases hr'
        exact ⟨hm, hc⟩
      | succ copies => exact hlast (Nat.succ_pos copies)

/-- Updates that come through tell the receiver, whatever it has been told before. -/
theorem Follows.told {l r : SubjectList α β} (hn : (l.mItems.map (·.mUuid)).Nodup)
    {vs : List (SentView α)} (hv : List.Forall₂ Views (broadcast l.mItems) vs)
    (hm : List.Forall₂ Mirrors vs r.mItems) (hc : r.mContext = l.mContext.carried) (timestamp : α)
    (timecode : String) (now : α) (copies : Nat) :
    ∃ r', r.hear (finalize (l.outgoingUpdate timestamp timecode now) 2) (copies + 1) = some r' ∧
      List.Forall₂ Mirrors
        (List.zipWith (Subject.told l.mDeltaThreshold) (broadcast l.mItems) vs) r'.mItems ∧
      r'.mContext = l.mContext.carried := by
  induction copies generalizing r vs with
  | zero =>
    obtain ⟨b, r', hr, hm', hc'⟩ := mirrors_update hn hv hm hc timestamp timecode now
    refine ⟨r', ?_, hm', hc'⟩
    rw [SubjectList.hear, hr]
    rfl
  | succ copies ih =>
    obtain ⟨b, r₁, hr, hm₁, hc₁⟩ := mirrors_update hn hv hm hc timestamp timecode now
    have hv₁ : List.Forall₂ Views (broadcast l.mItems)
        (List.zipWith (Subject.told l.mDeltaThreshold) (broadcast l.mItems) vs) :=
      forall₂_zipWith (fun _ _ hsv => views_told _ hsv) hv
    obtain ⟨r', hr', hm', hc'⟩ := ih hv₁ hm₁ hc₁
    rw [told_told] at hm'
    refine ⟨r', ?_, hm', hc'⟩
    rw [SubjectList.hear, hr]
    exact hr'

/-- Updates find nothing to change in a receiver that has heard of no subject. -/
theorem Follows.unknown {l r : SubjectList α β} (hnone : r.mItems = [])
    (hc : r.mContext.valid = false ∨ r.mContext = l.mContext.carried) (timestamp : α)
    (timecode : String) (now : α) (copies : Nat) :
    ∃ r', r.hear (finalize (l.outgoingUpdate timestamp timecode now) 2) copies = some r' ∧
      Follows l r' := by
  induction copies generalizing r with
  | zero => exact ⟨r, rfl, hc, .inl hnone⟩
  | succ copies ih =>
    obtain ⟨b, r₁, hr, hitems, hc₁⟩ := mirrors_unknown hnone hc timestamp timecode now
    obtain ⟨r', hr', hfollows⟩ := ih hitems (.inr hc₁)
    refine ⟨r', ?_, hfollows⟩
    rw [SubjectList.hear, hr]
    exact hr'

/-- Updates leave copies, whatever has been missed before. -/
theorem Follows.update {l r : SubjectList α β} (h : Follows l r)
    (hn : (l.mItems.map (·.mUuid)).Nodup) (timestamp : α) (timecode : String) (now : α)
    (copies : Nat) :
    ∃ r', r.hear (finalize (l.outgoingUpdate timestamp timecode now) 2) copies = some r' ∧
      Follows l r' := by
  obtain hnone | ⟨hc, vs, hv, hm⟩ := h.copies
  · exact Follows.unknown hnone h.context timestamp timecode now copies
  · cases copies with
    | zero => exact ⟨r, rfl, h⟩
    | succ copies =>
      obtain ⟨r', hr, hm', hc'⟩ := Follows.told hn hv hm hc timestamp timecode now copies
      refine ⟨r', hr, .inr hc', .inr ⟨hc', _, ?_, hm'⟩⟩
      exact forall₂_zipWith (fun _ _ hsv => views_told _ hsv) hv

end link

/-! ### Runs -/

namespace Channel

/-- The receiver mirrors what the sender has marked as sent. -/
structure Synced (c : Channel α β) : Prop where
  mirrors : List.Forall₂ Mirrors ((broadcast c.sender.mItems).map Subject.sentView) c.receiver.mItems
  context : c.receiver.mContext = c.sender.mContext.carried

/-- Where the two ends are, whatever has been lost. -/
structure Sound (l : SubjectList α β) (c : Channel α β) : Prop where
  outline : SameOutline l c.sender
  follows : Follows c.sender c.receiver

theorem Sound.change {l l' : SubjectList α β} {c : Channel α β} (h : Sound l c)
    (ha : SameOutline c.sender l') : Sound l ⟨l', c.receiver⟩ :=
  ⟨h.outline.trans ha, h.follows.of_outline ha⟩

/-- A sender that has the same views of its subjects is as much in step. -/
theorem Synced.change {l' : SubjectList α β} {c : Channel α β} (h : Synced c)
    (hv : l'.mItems.map Subject.sentView = c.sender.mItems.map Subject.sentView)
    (hc : l'.mContext = c.sender.mContext) : Synced ⟨l', c.receiver⟩ := by
  refine ⟨?_, ?_⟩
  · exact (broadcast_sentView hv).symm ▸ h.mirrors
  · rw [hc]
    exact h.context

theorem sentView_bare (s : Subject α β) : s.bare.sentView = s.sentView := by
  rw [Subject.sentView, Subject.bare, List.map_map]
  rfl

theorem Synced.allFinite {c : Channel α β} (h : Synced c) :
    Synced ⟨c.sender.allFinite.2, c.receiver⟩ :=
  h.change (map_of_bare sentView_bare (allFinite_frame c.sender).1)
    (SameOutline.allFinite c.sender).context

theorem Synced.pose {c : Channel α β} (h : Synced c) (i j : Nat) {f : Transform α → Transform α}
    (hf : Poses f) : Synced (c.pose i j f) :=
  h.change (poseAt_sentView hf i j c.sender.mItems) rfl

theorem Sound.nodup {l : SubjectList α β} {c : Channel α β} (h : Sound l c)
    (hn : (l.mItems.map (·.mUuid)).Nodup) : (c.sender.mItems.map (·.mUuid)).Nodup := by
  rw [uuids_of_shape (shape_of_outline h.outline.items)]
  exact hn

section link

variable [Wire α β] {l : SubjectList α β} {c : Channel α β}

theorem send_keyframe (hf : ItemsFinite c.sender.mItems) (timestamp : α) (timecode : String)
    (now : α) (copies : Nat) : c.send (.keyframe timestamp timecode now copies) =
      hear ⟨{ c.sender with mItems := c.sender.mItems.map (Subject.sentFull c.sender.mDeltaThreshold) },
        c.receiver⟩ copies (some (finalize (c.sender.outgoing timestamp timecode now) 1)) := by
  rw [send, SubjectList.serialize_of_finite hf]

theorem send_keyframe_of_not (hf : ¬ItemsFinite c.sender.mItems) (timestamp : α) (timecode : String)
    (now : α) (copies : Nat) : c.send (.keyframe timestamp timecode now copies) =
      some ⟨c.sender.allFinite.2, c.receiver⟩ := by
  rw [send, SubjectList.serialize_of_not hf]
  rfl

theorem send_update (hf : ItemsFinite c.sender.mItems) (timestamp : α) (timecode : String)
    (now : α) (copies : Nat) : c.send (.update timestamp timecode now copies) =
      hear ⟨c.sender.updated, c.receiver⟩ copies
        (some (finalize (c.sender.outgoingUpdate timestamp timecode now) 2)) := by
  obtain ⟨count, hs⟩ := SubjectList.serializeUpdate_of_finite hf timestamp timecode now
  rw [send, hs]
  rfl

theorem send_update_of_not (hf : ¬ItemsFinite c.sender.mItems) (timestamp : α) (timecode : String)
    (now : α) (copies : Nat) : c.send (.update timestamp timecode now copies) =
      some ⟨c.sender.allFinite.2, c.receiver⟩ := by
  rw [send, SubjectList.serializeUpdate_of_not hf]
  rfl

theorem stream_cons (c : Channel α β) (a : Sending α) (actions : List (Sending α)) :
    c.stream (a :: actions) = (c.send a).bind (stream · actions) := by
  rw [stream, List.foldlM_cons]
  rfl

theorem hear_some {l : SubjectList α β} {buf : List UInt8} {copies : Nat} {r : SubjectList α β}
    (h : c.receiver.hear buf copies = some r) :
    hear ⟨l, c.receiver⟩ copies (some buf) = some ⟨l, r⟩ := by
  rw [hear, h]
  rfl

variable [LawfulWire α β]

theorem Sound.keyframe (h : Sound l c) (hn : (l.mItems.map (·.mUuid)).Nodup)
    (hs : Supplied l.mItems) (hf : ItemsFinite c.sender.mItems) (timestamp : α) (timecode : String)
    (now : α) (copies : Nat) :
    ∃ c', c.send (.keyframe timestamp timecode now copies) = some c' ∧ Sound l c' ∧
      (0 < copies → Synced c') ∧ c'.sender = { c.sender with
        mItems := c.sender.mItems.map (Subject.sentFull c.sender.mDeltaThreshold) } := by
  have hsupplied := ((ready_sentView hn hs).of_outline h.outline).enough
  obtain ⟨r, hr, hfollows, hheard⟩ :=
    h.follows.keyframe (h.nodup hn) hsupplied timestamp timecode now copies
  have houtline := SameOutline.sentFull c.sender
  refine ⟨_, (send_keyframe hf timestamp timecode now copies).trans (hear_some hr), ?_, ?_, rfl⟩
  · exact ⟨h.outline.trans houtline, hfollows.of_outline houtline⟩
  · intro hpos
    obtain ⟨hm, hc⟩ := hheard hpos
    refine ⟨?_, hc⟩
    have hviews : ((broadcast c.sender.mItems).map
        (Subject.sentFull c.sender.mDeltaThreshold)).map Subject.sentView =
        (broadcast c.sender.mItems).map Subject.toldView := by
      rw [List.map_map]
      exact List.map_congr_left fun s hs => sentView_sentFull _ (mem_broadcast.mp hs).2
    dsimp only
    rw [broadcast_map (sentFull_keeps _), hviews]
    exact hm

theorem Sound.update (h : Sound l c) (hn : (l.mItems.map (·.mUuid)).Nodup)
    (hf : ItemsFinite c.sender.mItems) (timestamp : α) (timecode : String) (now : α)
    (copies : Nat) :
    ∃ c', c.send (.update timestamp timecode now copies) = some c' ∧ Sound l c' ∧
      c'.sender = c.sender.updated := by
  obtain ⟨r, hr, hfollows⟩ := h.follows.update (h.nodup hn) timestamp timecode now copies
  have houtline := SameOutline.sentUpdate c.sender
  refine ⟨_, (send_update hf timestamp timecode now copies).trans (hear_some hr), ?_, rfl⟩
  exact ⟨h.outline.trans houtline, hfollows.of_outline houtline⟩

/-- Whatever is lost or repeated, a step goes through and the receiver keeps copies or nothing. -/
theorem Sound.send (h : Sound l c) (hn : (l.mItems.map (·.mUuid)).Nodup) (hs : Supplied l.mItems)
    (a : Sending α) : ∃ c', c.send a = some c' ∧ Sound l c' := by
  cases a with
  | translate i j v => exact ⟨_, rfl, h.change (.pose c.sender i j fun _ => ⟨rfl, rfl⟩)⟩
  | rotate i j q => exact ⟨_, rfl, h.change (.pose c.sender i j fun _ => ⟨rfl, rfl⟩)⟩
  | keyframe timestamp timecode now copies =>
    by_cases hf : ItemsFinite c.sender.mItems
    · obtain ⟨c', hc', hsound, -⟩ := h.keyframe hn hs hf timestamp timecode now copies
      exact ⟨c', hc', hsound⟩
    · exact ⟨_, send_keyframe_of_not hf _ _ _ _, h.change (.allFinite c.sender)⟩
  | update timestamp timecode now copies =>
    by_cases hf : ItemsFinite c.sender.mItems
    · obtain ⟨c', hc', hsound, -⟩ := h.update hn hf timestamp timecode now copies
      exact ⟨c', hc', hsound⟩
    · exact ⟨_, send_update_of_not hf _ _ _ _, h.change (.allFinite c.sender)⟩

/-- An update that comes through keeps the two ends in step. -/
theorem Synced.update (h : Synced c) (hn : (c.sender.mItems.map (·.mUuid)).Nodup)
    (hf : ItemsFinite c.sender.mItems) (timestamp : α) (timecode : String) (now : α) {copies : Nat}
    (hpos : 0 < copies) {c' : Channel α β}
    (hc' : c.send (.update timestamp timecode now copies) = some c') : Synced c' := by
  obtain ⟨copies, rfl⟩ := Nat.exists_eq_add_of_lt hpos
  rw [Nat.zero_add] at hc'
  have hv := views_map views_sentView c.sender.mItems
  obtain ⟨r, hr, hm, hc⟩ := Follows.told hn hv h.mirrors h.context timestamp timecode now copies
  rw [send_update hf, hear_some hr, Option.some.injEq] at hc'
  subst hc'
  refine ⟨?_, hc⟩
  rw [List.zipWith_map_right, List.zipWith_self] at hm
  have hsent : (broadcast c.sender.mItems).map
      (fun s => s.told c.sender.mDeltaThreshold s.sentView) =
      (broadcast c.sender.mItems).map
        (Subject.sentView ∘ Subject.sentUpdate c.sender.mDeltaThreshold) :=
    List.map_congr_left fun s hs => told_sentView _ (mem_broadcast.mp hs).2
  rw [hsent, ← List.map_map, ← broadcast_map (sentUpdate_keeps _)] at hm
  exact hm

/-- While nothing is lost the two ends stay in step. -/
theorem Synced.send (h : Synced c) (hsound : Sound l c) (hn : (l.mItems.map (·.mUuid)).Nodup)
    (hs : Supplied l.mItems) {a : Sending α} (ha : a.Heard) :
    ∃ c', c.send a = some c' ∧ Sound l c' ∧ Synced c' := by
  cases a with
  | translate i j v =>
    exact ⟨_, rfl, hsound.change (.pose c.sender i j fun _ => ⟨rfl, rfl⟩), h.pose i j fun _ => ⟨rfl, rfl⟩⟩
  | rotate i j q =>
    exact ⟨_, rfl, hsound.change (.pose c.sender i j fun _ => ⟨rfl, rfl⟩), h.pose i j fun _ => ⟨rfl, rfl⟩⟩
  | keyframe timestamp timecode now copies =>
    by_cases hf : ItemsFinite c.sender.mItems
    · obtain ⟨c', hc', hsound', hsynced, -⟩ := hsound.keyframe hn hs hf timestamp timecode now copies
      exact ⟨c', hc', hsound', hsynced ha⟩
    · exact ⟨_, send_keyframe_of_not hf _ _ _ _, hsound.change (.allFinite c.sender),
        h.allFinite⟩
  | update timestamp timecode now copies =>
    by_cases hf : ItemsFinite c.sender.mItems
    · obtain ⟨c', hc', hsound', -⟩ := hsound.update hn hf timestamp timecode now copies
      exact ⟨c', hc', hsound', h.update (hsound.nodup hn) hf timestamp timecode now ha hc'⟩
    · exact ⟨_, send_update_of_not hf _ _ _ _, hsound.change (.allFinite c.sender),
        h.allFinite⟩

theorem Sound.stream (h : Sound l c) (hn : (l.mItems.map (·.mUuid)).Nodup) (hs : Supplied l.mItems)
    (actions : List (Sending α)) : ∃ c', c.stream actions = some c' ∧ Sound l c' := by
  induction actions generalizing c with
  | nil => exact ⟨c, rfl, h⟩
  | cons a actions ih =>
    obtain ⟨c₁, hc₁, hsound⟩ := h.send hn hs a
    obtain ⟨c', hc', hsound'⟩ := ih hsound
    refine ⟨c', ?_, hsound'⟩
    rw [stream_cons, hc₁, Option.bind_some, hc']

theorem Synced.stream (h : Synced c) (hsound : Sound l c) (hn : (l.mItems.map (·.mUuid)).Nodup)
    (hs : Supplied l.mItems) {actions : List (Sending α)} (ha : ∀ a ∈ actions, a.Heard) :
    ∃ c', c.stream actions = some c' ∧ Sound l c' ∧ Synced c' := by
  induction actions generalizing c with
  | nil => exact ⟨c, rfl, hsound, h⟩
  | cons a actions ih =>
    obtain ⟨hhead, htail⟩ := List.forall_mem_cons.mp ha
    obtain ⟨c₁, hc₁, hsound₁, hsynced₁⟩ := h.send hsound hn hs hhead
    obtain ⟨c', hc', hrest⟩ := ih hsynced₁ hsound₁ htail
    refine ⟨c', ?_, hrest⟩
    rw [stream_cons, hc₁, Option.bind_some, hc']

end link

/-- A copy holds, narrowed, values within a threshold of the present ones. -/
structure Near (threshold : α) (t u : Transform α) : Prop where
  translation : ∃ v, u.translation.value = v.narrowed ∧
    TransformTranslation.delta ⟨t.translation.value, v⟩ ≤ threshold
  rotation : ∃ q, u.rotation.value = q.narrowed ∧
    TransformRotation.delta ⟨t.rotation.value, q⟩ ≤ threshold

/-- The receiver has a copy of every enabled subject, with every transform within the sender's
threshold. -/
def Close (c : Channel α β) : Prop :=
  ∀ (i : Nat) s, c.sender.mItems[i]? = some s → s.mEnabled = true →
    ∃ k r, findSubjectByUuid s.kind s.mUuid c.receiver.mItems = some k ∧
      c.receiver.mItems[k]? = some r ∧
      List.Forall₂ (Near c.sender.mDeltaThreshold) s.mTransforms r.mTransforms

/-- All that has changed by more than the threshold has been marked as sent. -/
def Settled (l : SubjectList α β) : Prop :=
  ∀ i j t, liveAt l.mItems i j = some t →
    t.translation.delta ≤ l.mDeltaThreshold ∧ t.rotation.delta ≤ l.mDeltaThreshold

theorem Synced.close {c : Channel α β} (h : Synced c) (hn : (c.sender.mItems.map (·.mUuid)).Nodup)
    (hsettled : Settled c.sender) : Close c := by
  intro i s hs he
  obtain ⟨k, hk⟩ := List.mem_iff_getElem?.mp (mem_broadcast.mpr ⟨List.mem_of_getElem? hs, he⟩)
  have hview : ((broadcast c.sender.mItems).map Subject.sentView)[k]? = some s.sentView := by
    rw [List.getElem?_map, hk]
    rfl
  obtain ⟨r, hr, hm⟩ := forall₂_getElem? h.mirrors hview
  have hnodup : (c.receiver.mItems.map (·.mUuid)).Nodup := by
    have hmatch := h.mirrors
    rw [List.forall₂_map_left_iff] at hmatch
    rw [matches_uuids (hmatch.imp fun _ _ hsr => ⟨hsr.uuid, hsr.kind⟩)]
    exact broadcast_nodup hn
  have hfind := find_of_nodup hnodup hr
  rw [hm.kind, hm.uuid] at hfind
  refine ⟨k, r, hfind, hr, ?_⟩
  have hsent := hm.transforms
  rw [Subject.sentView, List.forall₂_map_left_iff, List.forall₂_iff_get] at hsent
  obtain ⟨hlength, hreflects⟩ := hsent
  refine List.forall₂_iff_get.mpr ⟨hlength, ?_⟩
  intro j hj hj'
  have hlive : liveAt c.sender.mItems i j = some (s.mTransforms.get ⟨j, hj⟩) :=
    liveAt_eq_some_iff.mpr ⟨s, hs, he, List.getElem?_eq_getElem hj⟩
  obtain ⟨hd, hq⟩ := hsettled i j _ hlive
  have hcopy := hreflects j hj hj'
  exact ⟨⟨_, hcopy.translation, hd⟩, ⟨_, hcopy.rotation, hq⟩⟩

theorem settled_sentFull [ExactDistance α] {l : SubjectList α β} (hth : 0 ≤ l.mDeltaThreshold)
    (hf : ItemsFinite l.mItems) :
    Settled { l with mItems := l.mItems.map (Subject.sentFull l.mDeltaThreshold) } := by
  intro i j t' ht'
  rw [liveAt_sentFull, Option.map_eq_some_iff] at ht'
  obtain ⟨t, ht, rfl⟩ := ht'
  obtain ⟨s, hs, -, ht⟩ := liveAt_eq_some_iff.mp ht
  have hfinite : t.allFinite = true := hf s (List.mem_of_getElem? hs) t (List.mem_of_getElem? ht)
  exact Transform.markSent_delta hth hfinite

theorem settled_updated [ExactDistance α] {l : SubjectList α β} (hth : 0 ≤ l.mDeltaThreshold)
    (hf : ItemsFinite l.mItems) : Settled l.updated := by
  intro i j t' ht'
  change liveAt (l.mItems.map _) i j = some t' at ht'
  rw [liveAt_sentUpdate, Option.map_eq_some_iff] at ht'
  obtain ⟨t, ht, rfl⟩ := ht'
  obtain ⟨s, hs, -, ht⟩ := liveAt_eq_some_iff.mp ht
  exact Transform.markSent_delta hth (hf s (List.mem_of_getElem? hs) t (List.mem_of_getElem? ht))

section link

variable [Wire α β] [LawfulWire α β] [ExactDistance α] {l : SubjectList α β} {c : Channel α β}

/-- A packet that comes through, and leaves the two ends in step, leaves them close. -/
theorem Sound.send_close (h : Sound l c) (hn : (l.mItems.map (·.mUuid)).Nodup)
    (hs : Supplied l.mItems) (hth : 0 ≤ l.mDeltaThreshold) {a : Sending α} (he : c.Emits a)
    {c' : Channel α β} (hc' : c.send a = some c') (hsynced : Synced c') : Close c' := by
  have hf := he.finite
  rw [← h.outline.threshold] at hth
  cases a with
  | translate i j v => exact absurd he id
  | rotate i j q => exact absurd he id
  | keyframe timestamp timecode now copies =>
    obtain ⟨d, hd, hsound, -, hsender⟩ := h.keyframe hn hs hf timestamp timecode now copies
    rw [hc', Option.some.injEq] at hd
    subst hd
    apply hsynced.close (hsound.nodup hn)
    rw [hsender]
    exact settled_sentFull hth hf
  | update timestamp timecode now copies =>
    obtain ⟨d, hd, hsound, hsender⟩ := h.update hn hf timestamp timecode now copies
    rw [hc', Option.some.injEq] at hd
    subst hd
    apply hsynced.close (hsound.nodup hn)
    rw [hsender]
    exact settled_updated hth hf

end link

/-- The first keyframe and an update are lost, another update arrives twice. -/
def dropped : List (Sending Extended) :=
  [.keyframe 1 "01:00:00:00" 1 0, .translate 0 1 ⟨1, 0, 0⟩, .update 1 "01:00:00:01" 1 2,
    .translate 0 1 ⟨0, 1, 1⟩, .update 1 "01:00:00:02" 1 0]

end Channel

end Open3DStream
