import Mathlib.Data.Fintype.EquivFin
import Open3DStream.Codec
import Open3DStream.Lib.Lists
import Open3DStream.Receive

/-! What a rejected packet leaves behind. -/

namespace Open3DStream

open Lib

variable {α β : Type}

/-- The receiver is what it was, apart from the errors. -/
structure Unchanged (l l' : SubjectList α β) : Prop where
  items : l'.mItems.map (fun s => { s with mError := "" }) =
    l.mItems.map (fun s => { s with mError := "" })
  time : l'.mTime = l.mTime
  timecode : l'.mTimecode = l.mTimecode
  envelope : l'.mTimeEnvelope = l.mTimeEnvelope
  context : l'.mContext = l.mContext
  conversion : l'.conversion = l.conversion

/-! ### A subject the packet does not mention -/

theorem owner_cons_ne {uuid : String} {s : Subject α β} (h : s.mUuid ≠ uuid)
    (items : List (Subject α β)) : owner uuid (s :: items) = owner uuid items := by
  rw [owner_cons, if_neg h]

theorem edit_cons_ne {uuid : String} {s : Subject α β} (h : s.mUuid ≠ uuid) (T : SubjectKind)
    (f : Subject α β → Subject α β) (items : List (Subject α β)) :
    edit T uuid f (s :: items) = s :: edit T uuid f items := by
  rw [edit, if_neg h]

/-- The uuids of a vector of definitions or updates. -/
def uuidsOf {δ ε : Type} (body : δ → Option ε) (uuid : ε → Option String) (ds : List δ) :
    List String :=
  ds.filterMap fun d => (body d).map fun e => (uuid e).getD ""

theorem mem_uuidsOf {δ ε : Type} {body : δ → Option ε} {uuid : ε → Option String} {ds : List δ}
    {d : δ} {e : ε} (hd : d ∈ ds) (hb : body d = some e) :
    (uuid e).getD "" ∈ uuidsOf body uuid ds :=
  List.mem_filterMap.mpr ⟨d, hd, by rw [hb]; rfl⟩

theorem UpdatePresent.cons {δ : Type} {T : SubjectKind} {body : δ → Option (Data.SubjectUpdate β)}
    {us : List δ} {s : Subject α β} {declared : List (SubjectKind × String)}
    {items : List (Subject α β)} (h : s.mUuid ∉ uuidsOf body (·.uuid) us)
    (hp : ∀ u ∈ us, UpdatePresent T (ownerAfter declared items) (body u)) :
    ∀ u ∈ us, UpdatePresent T (ownerAfter declared (s :: items)) (body u) := by
  intro u hu
  obtain ⟨data, uuid, hb, huuid, hc⟩ := hp u hu
  refine ⟨data, uuid, hb, huuid, ?_⟩
  have hne : s.mUuid ≠ uuid := by
    intro he
    have hmem : data.uuid.getD "" ∈ uuidsOf body (·.uuid) us := mem_uuidsOf hu hb
    rw [huuid, Option.getD_some, ← he] at hmem
    exact h hmem
  rw [ownerAfter] at hc ⊢
  rw [owner_cons_ne hne]
  exact hc

def Data.SubjectList.mentioned (p : Data.SubjectList α β) : List String :=
  uuidsOf (·.data) (·.uuid) (p.performers.getD []) ++
    uuidsOf (·.data) (·.uuid) (p.performer_updates.getD []) ++
    uuidsOf (·.data) (·.uuid) (p.rigidbodies.getD []) ++
    uuidsOf (·.data) (·.uuid) (p.rigidbody_updates.getD []) ++
    uuidsOf (·.data) (·.uuid) (p.cameras.getD []) ++
    uuidsOf (·.data) (·.uuid) (p.camera_updates.getD [])

theorem Data.SubjectList.Readable.cons {p : Data.SubjectList α β} {s : Subject α β}
    (h : s.mUuid ∉ p.mentioned) {items : List (Subject α β)}
    (hp : p.Readable items) : p.Readable (s :: items) := by
  simp only [mentioned, List.mem_append, not_or] at h
  obtain ⟨⟨⟨⟨⟨-, hpu⟩, -⟩, hru⟩, -⟩, hcu⟩ := h
  exact ⟨hp.performers, UpdatePresent.cons hpu hp.performerUpdates, hp.rigidbodies,
    UpdatePresent.cons hru hp.rigidbodyUpdates, hp.cameras, UpdatePresent.cons hcu hp.cameraUpdates⟩

variable [Numeric α β]

theorem define_cons_ne {uuid : String} {s : Subject α β} (h : s.mUuid ≠ uuid) (T : SubjectKind)
    (f : Subject α β → Subject α β) (items : List (Subject α β)) :
    define T uuid f (s :: items) = s :: define T uuid f items := by
  simp only [define]
  rw [owner_cons_ne h, edit_cons_ne h]
  split <;> rfl

theorem definitions_cons {δ : Type} {T : SubjectKind} {body : δ → Option (Data.SubjectData β)}
    {finish : δ → Subject α β → Subject α β} {ds : List δ} {s : Subject α β}
    (h : s.mUuid ∉ uuidsOf body (·.uuid) ds) (items : List (Subject α β)) :
    ds.foldl (defining T body finish) (s :: items) =
      s :: ds.foldl (defining T body finish) items := by
  apply foldl_cons_fixed
  intro d hd items
  simp only [defining]
  cases hb : body d with
  | none => rfl
  | some data =>
    apply define_cons_ne
    intro he
    exact h (he ▸ mem_uuidsOf hd hb)

theorem updates_cons {δ : Type} {T : SubjectKind} {body : δ → Option (Data.SubjectUpdate β)}
    {finish : δ → Subject α β → Subject α β} {us : List δ} {s : Subject α β}
    (h : s.mUuid ∉ uuidsOf body (·.uuid) us) (items : List (Subject α β)) :
    us.foldl (updating T body finish) (s :: items) =
      s :: us.foldl (updating T body finish) items := by
  apply foldl_cons_fixed
  intro u hu items
  simp only [updating]
  cases hb : body u with
  | none => rfl
  | some data =>
    apply edit_cons_ne
    intro he
    exact h (he ▸ mem_uuidsOf hu hb)

namespace Data.SubjectList

variable {p : Data.SubjectList α β} {s : Subject α β}

theorem applied_cons (h : s.mUuid ∉ p.mentioned) (items : List (Subject α β)) :
    p.applied (s :: items) = s :: p.applied items := by
  simp only [mentioned, List.mem_append, not_or] at h
  obtain ⟨⟨⟨⟨⟨hp, hpu⟩, hr⟩, hru⟩, hc⟩, hcu⟩ := h
  simp only [applied, withPerformers, withRigidbodies, withCameras, definitions_cons hp,
    updates_cons hpu, definitions_cons hr, updates_cons hru, definitions_cons hc, updates_cons hcu]

end Data.SubjectList

/-! ### Receivers that reject a packet -/

theorem make_not_acceptable (T : SubjectKind) (uuid : String) :
    ¬Subject.Acceptable (Subject.make T uuid : Subject α β).mTransforms := by
  intro h
  cases h.oneRoot

theorem make_not_starved (T : SubjectKind) (uuid : String) (items : List (Subject α β)) :
    ¬Starved ((Subject.make T uuid : Subject α β) :: items) := by
  rw [starved_cons_of_not (make_not_acceptable T uuid)]
  rintro ⟨before, t, after, he, -⟩
  simp [Subject.make] at he

/-- The time is taken over whatever comes of the packet. -/
theorem parseRoot_mTimecode {l r : SubjectList α β} {p : Data.SubjectList α β}
    {clearInactive b : Bool} (h : l.parseRoot p clearInactive = some (b, r)) :
    r.mTimecode = p.timecode.getD "" := by
  by_cases hc : ContextRejected l p
  · rw [SubjectList.parseRoot_rejected hc] at h
    cases h
    exact SubjectList.adopted_mTimecode l p
  · rw [(SubjectList.parseRoot_frame hc h).2]
    exact SubjectList.adopted_mTimecode l p

/-- A subject without transforms in front makes `parse` reject any packet it can read. -/
theorem stuck_rejects {p : Data.SubjectList α β} {items : List (Subject α β)}
    (hp : p.Readable items) {l : SubjectList α β} {T : SubjectKind} {uuid : String}
    (huuid : uuid ∉ p.mentioned)
    (hitems : l.mItems = Subject.make T uuid :: items) :
    ∃ r, l.parseRoot p false = some (false, r) := by
  have hkept : l.kept false = Subject.make T uuid :: items := hitems
  have hread := hp.cons (s := Subject.make T uuid) huuid
  have happ := Data.SubjectList.applied_cons (s := Subject.make T uuid) huuid items
  have hnone : l.parseRoot p false ≠ none := by
    rw [ne_eq, SubjectList.parseRoot_eq_none_iff, hkept, happ]
    exact fun h => make_not_starved T uuid _ (h.2 hread).2
  have htrue : ¬∃ r, l.parseRoot p false = some (true, r) := by
    rw [SubjectList.parseRoot_true_iff, hkept, happ]
    exact fun h => make_not_acceptable T uuid (h.2.2 _ (by simp))
  obtain ⟨⟨b, r⟩, hr⟩ := Option.ne_none_iff_exists'.mp hnone
  cases b with
  | true => exact absurd ⟨r, hr⟩ htrue
  | false => exact ⟨r, hr⟩

/-- Some receiver with another timecode rejects the packet. -/
theorem exists_rejecting {p : Data.SubjectList α β}
    (h : (readContext p).valid = false ∨ ∃ items : List (Subject α β), p.Readable items) :
    ∃ l r : SubjectList α β, l.mError = "" ∧ l.mTimecode ≠ p.timecode.getD "" ∧
      l.parseRoot p false = some (false, r) := by
  obtain ⟨timecode, htime⟩ := exists_ne (p.timecode.getD "")
  cases h with
  | inl hbad =>
    let l : SubjectList α β := { SubjectList.empty 0 with
      mContext := ⟨.Right, .Up, .Forward, .Meter⟩, mTimecode := timecode }
    exact ⟨l, _, rfl, htime, SubjectList.parseRoot_rejected ⟨rfl, hbad⟩ false⟩
  | inr hread =>
    obtain ⟨items, hread⟩ := hread
    obtain ⟨uuid, huuid⟩ := Infinite.exists_notMem_finset p.mentioned.toFinset
    rw [List.mem_toFinset] at huuid
    let l : SubjectList α β := { SubjectList.empty 0 with
      mItems := Subject.make .performer uuid :: items, mTimecode := timecode }
    obtain ⟨r, hr⟩ := stuck_rejects (l := l) hread huuid rfl
    exact ⟨l, r, rfl, htime, hr⟩

/-- A full packet with one performer that has no transforms. -/
def rootless : Data.SubjectList Extended Extended :=
  { Data.SubjectList.blank with
    performers := some [⟨some ⟨some [], some "name", some "uuid"⟩⟩], timecode := some "01:00:00:00" }

end Open3DStream
