import Open3DStream.Codec
import Open3DStream.Deliver
import Open3DStream.Receive

/-! Which full packets a default-constructed receiver accepts. -/

namespace Open3DStream

variable {α β : Type} [Numeric α β]

/-- The time a packet carries: zero stands for the current time. -/
def stamp (timestamp now : α) : α := if timestamp = 0 then now else timestamp

namespace SubjectList

/-- The root table that `serialize` writes. -/
def outgoing (l : SubjectList α β) (timestamp : α) (timecode : String) (now : α) :
    Data.SubjectList α β :=
  fullRoot l.mDeltaThreshold (stamp timestamp now) timecode l.mContext l.mTimeEnvelope l.mItems

/-- The root table that `serializeUpdate` writes. -/
def outgoingUpdate (l : SubjectList α β) (timestamp : α) (timecode : String) (now : α) :
    Data.SubjectList α β :=
  updateRoot l.mDeltaThreshold (stamp timestamp now) timecode l.mContext l.mTimeEnvelope l.mItems

theorem allFinite_of_finite {l : SubjectList α β} (h : ItemsFinite l.mItems) :
    l.allFinite = (true, l) := by
  rw [allFinite, allFiniteItems_of_finite h]

theorem allFinite_of_not {l : SubjectList α β} (h : ¬ItemsFinite l.mItems) :
    l.allFinite.1 = false := by
  obtain ⟨e, items, he⟩ := allFiniteItems_of_not h
  rw [allFinite, he]

theorem empty_not_rejected (threshold : α) (p : Data.SubjectList α β) :
    ¬ContextRejected (SubjectList.empty threshold) p := by
  rintro ⟨h, -⟩
  cases h

theorem empty_kept (threshold : α) (clearInactive : Bool) :
    (SubjectList.empty threshold : SubjectList α β).kept clearInactive = [] := by
  cases clearInactive <;> rfl

variable [Wire α β]

theorem serialize_of_finite {l : SubjectList α β} (h : ItemsFinite l.mItems) (timestamp : α)
    (timecode : String) (now : α) :
    l.serialize timestamp timecode now =
      (some (finalize (l.outgoing timestamp timecode now) 1),
        { l with mItems := l.mItems.map (Subject.sentFull l.mDeltaThreshold) }) := by
  rw [serialize, serializeRoot, allFinite_of_finite h]
  simp only [Bool.not_true, Bool.false_eq_true, if_false, serializeItems_eq]
  rfl

theorem serialize_of_not {l : SubjectList α β} (h : ¬ItemsFinite l.mItems) (timestamp : α)
    (timecode : String) (now : α) :
    l.serialize timestamp timecode now = (none, l.allFinite.2) := by
  have hf := allFinite_of_not h
  rw [serialize, serializeRoot]
  generalize l.allFinite = r at hf
  obtain ⟨ok, l'⟩ := r
  cases hf
  rfl

theorem serialize_some {l l' : SubjectList α β} {timestamp now : α} {timecode : String}
    {buf : List UInt8} (h : l.serialize timestamp timecode now = (some buf, l')) :
    ItemsFinite l.mItems ∧ buf = finalize (l.outgoing timestamp timecode now) 1 ∧
      l' = { l with mItems := l.mItems.map (Subject.sentFull l.mDeltaThreshold) } := by
  by_cases hf : ItemsFinite l.mItems
  · rw [serialize_of_finite hf] at h
    cases h
    exact ⟨hf, rfl, rfl⟩
  · have hn := serialize_of_not hf timestamp timecode now
    rw [h] at hn
    cases hn

theorem serializeUpdate_of_finite {l : SubjectList α β} (h : ItemsFinite l.mItems) (timestamp : α)
    (timecode : String) (now : α) :
    ∃ count, l.serializeUpdate timestamp timecode now =
      (some (finalize (l.outgoingUpdate timestamp timecode now) 2), count,
        { l with mItems := l.mItems.map (Subject.sentUpdate l.mDeltaThreshold) }) := by
  obtain ⟨hout, hitems⟩ := updateItems_eq l.mDeltaThreshold l.mItems
  refine ⟨(updateItems l.mDeltaThreshold l.mItems).2.1, ?_⟩
  rw [serializeUpdate, serializeUpdateRoot, allFinite_of_finite h]
  simp only [Bool.not_true, Bool.false_eq_true, if_false, hout, hitems]
  rfl

theorem serializeUpdate_of_not {l : SubjectList α β} (h : ¬ItemsFinite l.mItems) (timestamp : α)
    (timecode : String) (now : α) :
    l.serializeUpdate timestamp timecode now = (none, 0, l.allFinite.2) := by
  have hf := allFinite_of_not h
  rw [serializeUpdate, serializeUpdateRoot]
  generalize l.allFinite = r at hf
  obtain ⟨ok, l'⟩ := r
  cases hf
  rfl

variable [LawfulWire α β]

theorem parse_outgoing (l : SubjectList α β) (timestamp : α) (timecode : String)
    (now threshold : α) (clearInactive : Bool) :
    (SubjectList.empty threshold).parse (some (finalize (l.outgoing timestamp timecode now) 1))
        clearInactive =
      (SubjectList.empty threshold).parseRoot (l.outgoing timestamp timecode now) clearInactive :=
  parse_verified (SubjectList.empty threshold) (verified_finalize _ (.inl rfl)) clearInactive

theorem parse_outgoing_true_iff (l : SubjectList α β) (h : (l.mItems.map (·.mUuid)).Nodup)
    (timestamp : α) (timecode : String) (now threshold : α) (clearInactive : Bool) :
    (∃ r, (SubjectList.empty threshold).parse
        (some (finalize (l.outgoing timestamp timecode now) 1)) clearInactive = some (true, r)) ↔
      ∀ s ∈ l.mItems, s.mEnabled = true → Subject.Acceptable (s.mTransforms.map .narrowed) := by
  have happ : (l.outgoing timestamp timecode now).applied [] =
      (broadcast l.mItems).map Subject.received := applied_fullRoot _ _ _ _ _ h
  have hread : (l.outgoing timestamp timecode now).Readable ([] : List (Subject α β)) :=
    readable_fullRoot _ _ _ _ _ _ _
  rw [parse_outgoing, parseRoot_true_iff, empty_kept, happ]
  refine ⟨?_, ?_⟩
  · rintro ⟨-, -, ha⟩ s hs he
    exact ha s.received (List.mem_map_of_mem (mem_broadcast.mpr ⟨hs, he⟩))
  · intro ha
    refine ⟨empty_not_rejected threshold _, hread, ?_⟩
    intro r hr
    obtain ⟨s, hs, rfl⟩ := List.mem_map.mp hr
    obtain ⟨hs, he⟩ := mem_broadcast.mp hs
    exact ha s hs he

end SubjectList

/-- What `serialize` emits is accepted by a fresh receiver exactly when, after
narrowing, every enabled subject still passes the evaluation that `serialize` does not make. -/
theorem emitted_accepted_iff [Wire α β] [LawfulWire α β] (l : SubjectList α β)
    (h : (l.mItems.map (·.mUuid)).Nodup) (timestamp : α) (timecode : String) (now threshold : α)
    (clearInactive : Bool) :
    (∀ buf l', l.serialize timestamp timecode now = (some buf, l') →
        ∃ r, (SubjectList.empty threshold).parse (some buf) clearInactive = some (true, r)) ↔
      (ItemsFinite l.mItems →
        ∀ s ∈ l.mItems, s.mEnabled = true → Subject.Acceptable (s.mTransforms.map .narrowed)) := by
  have hiff := SubjectList.parse_outgoing_true_iff l h timestamp timecode now threshold clearInactive
  by_cases hf : ItemsFinite l.mItems
  · have hser := SubjectList.serialize_of_finite hf timestamp timecode now
    refine ⟨?_, ?_⟩
    · exact fun hall _ => hiff.mp (hall _ _ hser)
    · intro ha buf l' hs
      rw [hser] at hs
      cases hs
      exact hiff.mpr (ha hf)
  · have hser := SubjectList.serialize_of_not hf timestamp timecode now
    refine ⟨?_, ?_⟩
    · exact fun _ hf' => absurd hf' hf
    · intro _ buf l' hs
      rw [hs] at hser
      cases hser

/-- A sender with one performer that has no transforms. -/
def bareSender : SubjectList Extended Extended :=
  { freshList with mItems := [Subject.make .performer "uuid"] }

theorem emitted_accepted_iff_bareSender :
    (∀ buf l', bareSender.serialize 1 "" 1 = (some buf, l') →
        ∃ r, freshList.parse (some buf) false = some (true, r)) ↔
      (ItemsFinite bareSender.mItems → ∀ s ∈ bareSender.mItems, s.mEnabled = true →
        Subject.Acceptable (s.mTransforms.map .narrowed)) :=
  emitted_accepted_iff bareSender (by decide) 1 "" 1 _ false

theorem bareSender_refused :
    ¬∀ (l l' : SubjectList Extended Extended) (timestamp now : Extended) (timecode : String)
      (buf : List UInt8), (l.mItems.map (·.mUuid)).Nodup →
      l.serialize timestamp timecode now = (some buf, l') →
        ∃ r, freshList.parse (some buf) false = some (true, r) := by
  intro h
  have hf : ItemsFinite bareSender.mItems := by
    intro s hs t ht
    rw [List.mem_singleton.mp hs] at ht
    cases ht
  have hr := h bareSender _ 1 1 "" _ (by decide) (SubjectList.serialize_of_finite hf 1 "" 1)
  have ha := (SubjectList.parse_outgoing_true_iff bareSender (by decide) 1 "" 1 _ false).mp hr
  exact absurd (ha _ (List.mem_singleton.mpr rfl) rfl).oneRoot (by decide)

end Open3DStream
