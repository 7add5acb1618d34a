import Open3DStream.Follow
import Open3DStream.Reread
import Open3DStream.WorldMatrix

/-! Update packets: what they name gets its last value, and nothing else changes. -/

namespace Open3DStream

open Lib

variable {α β : Type}

/-- The last value in a vector of an update that is for an index. -/
def Data.lastAt {γ : Type} (ds : List (Data.Indexed γ)) (k : Nat) : Option γ :=
  (ds.filter fun d => decide (d.i = (k : Int))).getLast?.map (·.value)

theorem lastAt_append {γ : Type} (ds es : List (Data.Indexed γ)) (k : Nat) :
    Data.lastAt (ds ++ es) k = (Data.lastAt es k).or (Data.lastAt ds k) := by
  rw [Data.lastAt, List.filter_append, List.getLast?_append, Data.lastAt, Data.lastAt]
  cases (es.filter fun d => decide (d.i = (k : Int))).getLast? <;> rfl

namespace Data.SubjectList

/-- The updates of a packet for the subjects of a type. -/
def updates (p : Data.SubjectList α β) : SubjectKind → List (Data.SubjectUpdate β)
  | .performer => (p.performer_updates.getD []).filterMap (·.data)
  | .rigidbody => (p.rigidbody_updates.getD []).filterMap (·.data)
  | .camera => (p.camera_updates.getD []).filterMap (·.data)

/-- The updates of a packet for a subject. -/
def updatesFor (p : Data.SubjectList α β) (s : Subject α β) : List (Data.SubjectUpdate β) :=
  (p.updates s.kind).filter fun u => decide (u.uuid = some s.mUuid)

/-- The translation that a packet gives the transform at an index. -/
def translationAt (p : Data.SubjectList α β) (s : Subject α β) (k : Nat) : Option (Vector3d β) :=
  Data.lastAt ((p.updatesFor s).flatMap (·.translation.getD [])) k

def rotationAt (p : Data.SubjectList α β) (s : Subject α β) (k : Nat) : Option (Quaterniond β) :=
  Data.lastAt ((p.updatesFor s).flatMap (·.rotation.getD [])) k

def scaleAt (p : Data.SubjectList α β) (s : Subject α β) (k : Nat) : Option (Vector3d β) :=
  Data.lastAt ((p.updatesFor s).flatMap (·.scale.getD [])) k

/-- A packet without definitions, whose updates have all their fields. -/
structure UpdateOnly (p : Data.SubjectList α β) : Prop where
  performers : p.performers.getD [] = []
  rigidbodies : p.rigidbodies.getD [] = []
  cameras : p.cameras.getD [] = []
  performerUpdates : ∀ u ∈ p.performer_updates.getD [], ∃ data, u.data = some data ∧ data.Complete
  rigidbodyUpdates : ∀ u ∈ p.rigidbody_updates.getD [], ∃ data, u.data = some data ∧ data.Complete
  cameraUpdates : ∀ u ∈ p.camera_updates.getD [], ∃ data, u.data = some data ∧ data.Complete

end Data.SubjectList

variable [Numeric α β]

/-- What is named gets its value, and everything else stays. -/
def Transform.named (translation : Option (Vector3d β)) (rotation : Option (Quaterniond β))
    (scale : Option (Vector3d β)) (t : Transform α) : Transform α :=
  { t with
    translation := translation.elim t.translation .read
    rotation := rotation.elim t.rotation .read
    scale := scale.elim t.scale .read }

theorem named_none (t : Transform α) : t.named (β := β) none none none = t := rfl

theorem named_named (a b c : Option (Vector3d β)) (r q : Option (Quaterniond β))
    (d : Option (Vector3d β)) (t : Transform α) :
    (t.named a r c).named b q d = t.named (b.or a) (q.or r) (d.or c) := by
  cases b <;> cases q <;> cases d <;> rfl

/-! ### The updates of a subject -/

/-- Of the values for one index the last one counts. -/
theorem applyUpdates_getElem? {γ : Type} {f : γ → Transform α → Transform α}
    {g : Option γ → Transform α → Transform α} (hnone : ∀ t, g none t = t)
    (hg : ∀ d e t, f d (g e t) = g (some d) t) (us : List (Data.Indexed γ))
    (ts : List (Transform α)) (k : Nat) :
    (Subject.applyUpdates f us ts)[k]? = (ts[k]?).map (g (Data.lastAt us k)) := by
  induction us using List.reverseRecOn with
  | nil =>
    have hid : g (Data.lastAt ([] : List (Data.Indexed γ)) k) = id := by
      funext t
      exact hnone t
    rw [hid, Option.map_id]
    rfl
  | append_singleton us u ih =>
    have hstep : Subject.applyUpdates f (us ++ [u]) ts =
        Subject.applyAt (Subject.applyUpdates f us ts) u.i (f u.value) := by
      rw [Subject.applyUpdates, List.foldl_append]
      rfl
    rw [hstep, Subject.applyAt_getElem?, ih, Option.map_map, lastAt_append]
    congr 1
    funext t
    by_cases hk : u.i = k <;> simp [Data.lastAt, hk, hg]

theorem applied_getElem? (u : Data.SubjectUpdate β) (s : Subject α β) (k : Nat) :
    (u.applied s).mTransforms[k]? = (s.mTransforms[k]?).map
      (Transform.named (Data.lastAt (u.translation.getD []) k) (Data.lastAt (u.rotation.getD []) k)
        (Data.lastAt (u.scale.getD []) k)) := by
  have hts : (u.applied s).mTransforms = Subject.applyUpdates Subject.readScale (u.scale.getD [])
      (Subject.applyUpdates Subject.readRotation (u.rotation.getD [])
        (Subject.applyUpdates Subject.readTranslation (u.translation.getD []) s.mTransforms)) := rfl
  rw [hts, applyUpdates_getElem? (g := fun d => Transform.named none none d) (fun _ => rfl)
      (fun _ _ _ => rfl),
    applyUpdates_getElem? (g := fun d => Transform.named none d none) (fun _ => rfl)
      (fun _ _ _ => rfl),
    applyUpdates_getElem? (g := fun d => Transform.named d none none) (fun _ => rfl)
      (fun _ _ _ => rfl), Option.map_map, Option.map_map]
  rfl

/-- An update loop seen from one subject: the updates for it, one after the other. -/
theorem updated_getElem? {δ : Type} {T : SubjectKind} {extra : δ → List (Edit β)}
    {finish : δ → Subject α β → Subject α β} (hf : Adds finish extra)
    (hts : ∀ d s, (finish d s).mTransforms = s.mTransforms)
    {body : δ → Option (Data.SubjectUpdate β)} {us : List δ}
    (h : ∀ u ∈ us, ∃ data, body u = some data ∧ data.Complete) (s : Subject α β) (hT : s.kind = T)
    (k : Nat) :
    let mine := (us.filterMap body).filter fun u => decide (u.uuid = some s.mUuid)
    ((us.flatMap (updateEntries T extra body)).foldl amend s).mTransforms[k]? =
      (s.mTransforms[k]?).map (Transform.named
        (Data.lastAt (mine.flatMap (·.translation.getD [])) k)
        (Data.lastAt (mine.flatMap (·.rotation.getD [])) k)
        (Data.lastAt (mine.flatMap (·.scale.getD [])) k)) := by
  induction us generalizing s with
  | nil =>
    have hid : Transform.named (α := α) (β := β) none none none = id := funext named_none
    change s.mTransforms[k]? = (s.mTransforms[k]?).map (Transform.named (β := β) none none none)
    rw [hid, Option.map_id]
    rfl
  | cons u us ih =>
    obtain ⟨⟨data, hb, hc⟩, hus⟩ := List.forall_mem_cons.mp h
    obtain ⟨uuid, huuid⟩ := Option.isSome_iff_exists.mp hc.uuid
    have hentries : updateEntries T extra body u =
        (data.edits ++ extra u).map fun e => ⟨T, uuid, e⟩ := by
      rw [updateEntries, hb]
      dsimp only
      rw [huuid, Option.getD_some]
    rw [List.flatMap_cons, List.foldl_append, hentries, amends_map]
    simp only [List.filterMap_cons, hb, List.filter_cons, huuid, Option.some.injEq,
      decide_eq_true_eq]
    by_cases hu : s.mUuid = uuid
    · have happ : (data.edits ++ extra u).foldl Edit.apply s = finish u (data.applied s) := by
        rw [List.foldl_append, ← applied_eq, hf]
      obtain ⟨hu', hk'⟩ := amends_identity s ((data.edits ++ extra u).map fun e => ⟨T, uuid, e⟩)
      rw [amends_map, if_pos ⟨hu, hT⟩, happ] at hu' hk'
      have hnext := ih hus (finish u (data.applied s)) (hk'.trans hT)
      rw [hu'] at hnext
      rw [if_pos ⟨hu, hT⟩, happ, if_pos hu.symm]
      simp only [List.flatMap_cons, lastAt_append]
      rw [hnext, hts, applied_getElem?, Option.map_map]
      congr 1
      funext t
      exact named_named _ _ _ _ _ _ t
    · rw [if_neg fun hm => hu hm.1, if_neg fun hm => hu hm.symm]
      exact ih hus s hT

theorem passed_over {δ : Type} {T : SubjectKind} {extra : δ → List (Edit β)}
    {body : δ → Option (Data.SubjectUpdate β)} (us : List δ) {s : Subject α β} (hT : s.kind ≠ T) :
    (us.flatMap (updateEntries T extra body)).foldl amend s = s := by
  apply amends_none
  intro e he hm
  obtain ⟨u, -, he⟩ := List.mem_flatMap.mp he
  rw [updateEntries] at he
  split at he
  · obtain ⟨edit, -, rfl⟩ := List.mem_map.mp he
    exact hT hm.2
  · cases he

namespace Data.SubjectList

variable {p : Data.SubjectList α β}

omit [Numeric α β] in
theorem UpdateOnly.entries (h : p.UpdateOnly) : p.entries =
    (p.performer_updates.getD []).flatMap (updateEntries .performer (fun _ => []) (·.data)) ++
      (p.rigidbody_updates.getD []).flatMap (updateEntries .rigidbody (fun _ => []) (·.data)) ++
      (p.camera_updates.getD []).flatMap (updateEntries .camera (fun c => [.lens c]) (·.data)) := by
  rw [Data.SubjectList.entries, h.performers, h.rigidbodies, h.cameras]
  simp

omit [Numeric α β] in
theorem UpdateOnly.identities (h : p.UpdateOnly) : p.identities = [] := by
  rw [Data.SubjectList.identities, h.performers, h.rigidbodies, h.cameras]
  rfl

theorem UpdateOnly.restate_getElem? (h : p.UpdateOnly) (s : Subject α β) (k : Nat) :
    (p.restate s).mTransforms[k]? = (s.mTransforms[k]?).map
      (Transform.named (p.translationAt s k) (p.rotationAt s k) (p.scaleAt s k)) := by
  have hkind (es : List (Entry β)) : (es.foldl amend s).kind = s.kind := (amends_identity s es).2
  rw [restate, h.entries, List.foldl_append, List.foldl_append, translationAt, rotationAt, scaleAt,
    updatesFor]
  cases hk : s.kind with
  | performer =>
    rw [passed_over _ (by rw [passed_over _ (by rw [hkind, hk]; decide), hkind, hk]; decide),
      passed_over _ (by rw [hkind, hk]; decide)]
    exact updated_getElem? adds_nothing (fun _ _ => rfl) h.performerUpdates s hk k
  | rigidbody =>
    rw [passed_over _ (by rw [hk]; decide : s.kind ≠ .performer),
      passed_over _ (by rw [hkind, hk]; decide)]
    exact updated_getElem? adds_nothing (fun _ _ => rfl) h.rigidbodyUpdates s hk k
  | camera =>
    rw [passed_over _ (by rw [hk]; decide : s.kind ≠ .performer),
      passed_over _ (by rw [hk]; decide : s.kind ≠ .rigidbody)]
    exact updated_getElem? adds_lens readLens_mTransforms h.cameraUpdates s hk k

theorem UpdateOnly.restate_mTransforms (h : p.UpdateOnly) (s : Subject α β) :
    (p.restate s).mTransforms = s.mTransforms.mapIdx fun k =>
      Transform.named (p.translationAt s k) (p.rotationAt s k) (p.scaleAt s k) := by
  apply List.ext_getElem?
  intro k
  rw [h.restate_getElem?, List.getElem?_mapIdx]

end Data.SubjectList

theorem amends_frame {es : List (Entry β)} (h : ∀ e ∈ es, ¬e.edit.Describes) (s : Subject α β) :
    (es.foldl amend s).mName = s.mName ∧ (es.foldl amend s).mEnabled = s.mEnabled := by
  induction es generalizing s with
  | nil => exact ⟨rfl, rfl⟩
  | cons e es ih =>
    obtain ⟨he, hes⟩ := List.forall_mem_cons.mp h
    obtain ⟨hname, henabled⟩ := ih hes (amend s e)
    have hone : (amend s e).mName = s.mName ∧ (amend s e).mEnabled = s.mEnabled := by
      rw [amend]
      split
      · cases hedit : e.edit with
        | describe name nodes =>
          rw [hedit] at he
          exact absurd trivial he
        | write i w => exact ⟨rfl, rfl⟩
        | filmBack c =>
          rw [Edit.apply, readFilmBack]
          split <;> exact ⟨rfl, rfl⟩
        | lens c =>
          rw [Edit.apply, readLens]
          split <;> exact ⟨rfl, rfl⟩
      · exact ⟨rfl, rfl⟩
    rw [List.foldl_cons, hname, henabled]
    exact hone

/-- What an update packet leaves of a subject: each component of a transform has the last value
that the packet names for it, or the value it had, and nothing else about the subject changes but
a camera's lens. -/
structure Data.SubjectList.Leaves (p : Data.SubjectList α β) (s s' : Subject α β) : Prop where
  kind : s'.kind = s.kind
  mUuid : s'.mUuid = s.mUuid
  mName : s'.mName = s.mName
  mEnabled : s'.mEnabled = s.mEnabled
  length : s'.mTransforms.length = s.mTransforms.length
  transforms : ∀ k t, s.mTransforms[k]? = some t → ∃ t', s'.mTransforms[k]? = some t' ∧
    t'.mName = t.mName ∧ t'.mParentId = t.mParentId ∧ t'.mTransformOrder = t.mTransformOrder ∧
    t'.mMatrices = t.mMatrices ∧
    t'.translation = (p.translationAt s k).elim t.translation .read ∧
    t'.rotation = (p.rotationAt s k).elim t.rotation .read ∧
    t'.scale = (p.scaleAt s k).elim t.scale .read

section packet

variable {p : Data.SubjectList α β}

open Data.SubjectList

theorem leaves_of_bare (h : p.UpdateOnly) {s s' : Subject α β}
    (hb : s'.bare = (p.restate s).bare) : p.Leaves s s' := by
  have hnone : ∀ e ∈ p.entries, ¬e.edit.Describes := by
    intro e he hd
    have hmem := uuid_of_describes he hd
    rw [h.identities] at hmem
    cases hmem
  obtain ⟨hname, henabled⟩ := amends_frame hnone s
  obtain ⟨huuid, hkind⟩ := amends_identity s p.entries
  have hts : s'.mTransforms.map Transform.bare = (s.mTransforms.mapIdx fun k => Transform.named
      (p.translationAt s k) (p.rotationAt s k) (p.scaleAt s k)).map Transform.bare :=
    (congrArg (fun u => u.mTransforms) hb).trans
      (congrArg (List.map Transform.bare) (h.restate_mTransforms s))
  refine ⟨?_, ?_, ?_, ?_, ?_, ?_⟩
  · exact (congrArg (fun u => u.derived.kind) hb).trans hkind
  · exact (congrArg (fun u => u.mUuid) hb).trans huuid
  · exact (congrArg (fun u => u.mName) hb).trans hname
  · exact (congrArg (fun u => u.mEnabled) hb).trans henabled
  · have hlength := congrArg List.length hts
    rwa [List.length_map, List.length_map, List.length_mapIdx] at hlength
  · intro k t ht
    have hk := congrArg (·[k]?) hts
    simp only [List.getElem?_map, List.getElem?_mapIdx, ht, Option.map_some,
      Option.map_eq_some_iff] at hk
    obtain ⟨t', ht', hbare⟩ := hk
    exact ⟨t', ht', congrArg (·.mName) hbare, congrArg (·.mParentId) hbare,
      congrArg (·.mTransformOrder) hbare, congrArg (·.mMatrices) hbare,
      congrArg (·.translation) hbare, congrArg (·.rotation) hbare, congrArg (·.scale) hbare⟩

omit [Numeric α β] in
theorem Data.SubjectList.UpdateOnly.readable (h : p.UpdateOnly) (items : List (Subject α β)) :
    p.Readable items := by
  have hpresent {δ : Type} {T : SubjectKind} {f : String → Option SubjectKind}
      {body : δ → Option (Data.SubjectUpdate β)} {us : List δ}
      (hus : ∀ u ∈ us, ∃ data, body u = some data ∧ data.Complete) :
      ∀ u ∈ us, UpdatePresent T f (body u) := by
    intro u hu
    obtain ⟨data, hb, hc⟩ := hus u hu
    exact hb ▸ updatePresent_some hc
  refine ⟨?_, hpresent h.performerUpdates, ?_, hpresent h.rigidbodyUpdates, ?_,
    hpresent h.cameraUpdates⟩
  · rw [h.performers]
    exact fun d hd => absurd hd List.not_mem_nil
  · rw [h.rigidbodies]
    exact fun d hd => absurd hd List.not_mem_nil
  · rw [h.cameras]
    exact fun d hd => absurd hd List.not_mem_nil

theorem Data.SubjectList.UpdateOnly.applied (h : p.UpdateOnly) {items : List (Subject α β)}
    (hn : (items.map (·.mUuid)).Nodup) : p.applied items = items.map p.restate := by
  apply applied_eq_map
  refine ⟨hn, ?_⟩
  rw [h.identities]
  exact fun i hi => absurd hi List.not_mem_nil

/-- The named transforms find their matrices where they did before. -/
theorem Data.SubjectList.UpdateOnly.enough (h : p.UpdateOnly) {items : List (Subject α β)}
    (henough : ∀ s ∈ items, ∀ t ∈ s.mTransforms, t.EnoughMatrices) :
    ∀ s ∈ items.map p.restate, ∀ t ∈ s.mTransforms, t.EnoughMatrices := by
  intro s' hs' t' ht'
  obtain ⟨s, hs, rfl⟩ := List.mem_map.mp hs'
  rw [h.restate_mTransforms, List.mem_mapIdx] at ht'
  obtain ⟨k, hk, rfl⟩ := ht'
  exact (henough s hs s.mTransforms[k] (List.getElem_mem hk) :)

variable [Wire α β]

/-- An update packet changes exactly what it names, whether it is accepted or not; it is read to
its end unless a transform had been short of matrices before. -/
theorem update_leaves {l : SubjectList α β} {data : Option (List UInt8)}
    (h : (l.mItems.map (·.mUuid)).Nodup) (hv : Verified α β data p) (hp : p.UpdateOnly)
    (hc : ¬ContextRejected l p) :
    ((∀ s ∈ l.mItems, ∀ t ∈ s.mTransforms, t.EnoughMatrices) → l.parse data false ≠ none) ∧
      ∀ ok r, l.parse data false = some (ok, r) → List.Forall₂ p.Leaves l.mItems r.mItems := by
  let l₀ : SubjectList α β := { l with mError := "" }
  have hc₀ : ¬ContextRejected l₀ p := hc
  have happ : p.applied (l₀.kept false) = l.mItems.map p.restate := hp.applied h
  rw [parse_verified l hv]
  refine ⟨?_, ?_⟩
  · intro henough
    rw [ne_eq, SubjectList.parseRoot_eq_none_iff, happ]
    rintro ⟨-, hs⟩
    exact not_starved (hp.enough henough) (hs (hp.readable _)).2
  · intro ok r hr
    obtain ⟨hitems, -⟩ := SubjectList.parseRoot_frame hc₀ hr
    rw [happ, List.map_map] at hitems
    exact (forall₂_of_map_eq hitems.symm).imp fun s s' hb => leaves_of_bare hp hb.symm

end packet

/-! ### An update with stray entries -/

/-- A translation for the first transform of `childFirst`, given twice, among some for indices
that it does not have. -/
def strayUpdate : Data.SubjectUpdate Extended where
  translation := some [⟨⟨(1 : ℚ), (0 : ℚ), (0 : ℚ)⟩, -1⟩, ⟨⟨(2 : ℚ), (0 : ℚ), (0 : ℚ)⟩, 0⟩,
    ⟨⟨(3 : ℚ), (0 : ℚ), (0 : ℚ)⟩, 0⟩, ⟨⟨(4 : ℚ), (0 : ℚ), (0 : ℚ)⟩, 2⟩]
  rotation := some []
  scale := some []
  uuid := some "uuid"

/-- The same update again for a rigid body that nobody knows. -/
def strayPacket : Data.SubjectList Extended Extended :=
  createRoot false { performerUpdates := [⟨some strayUpdate⟩], rigidbodyUpdates := [⟨some strayUpdate⟩] }
    (1 : ℚ) "" Context.unknown {}

example : strayPacket.translationAt childFirst 0 = some ⟨(3 : ℚ), (0 : ℚ), (0 : ℚ)⟩ := by decide

theorem updateOnly_strayPacket : strayPacket.UpdateOnly := by
  have hc : strayUpdate.Complete := ⟨rfl, rfl, rfl, rfl⟩
  refine ⟨rfl, rfl, rfl, ?_, ?_, fun u hu => absurd hu List.not_mem_nil⟩
  · intro u hu
    rw [List.mem_singleton.mp hu]
    exact ⟨strayUpdate, rfl, hc⟩
  · intro u hu
    rw [List.mem_singleton.mp hu]
    exact ⟨strayUpdate, rfl, hc⟩

theorem update_leaves_strayPacket :
    let l : SubjectList Extended Extended := { freshList with mItems := [childFirst] }
    ((∀ s ∈ l.mItems, ∀ t ∈ s.mTransforms, t.EnoughMatrices) →
        l.parse (some (finalize strayPacket 2)) false ≠ none) ∧
      ∀ ok r, l.parse (some (finalize strayPacket 2)) false = some (ok, r) →
        List.Forall₂ strayPacket.Leaves l.mItems r.mItems :=
  update_leaves (by decide) (verified_finalize strayPacket (.inr rfl)) updateOnly_strayPacket
    fun h => absurd h.1 (by decide)

end Open3DStream
