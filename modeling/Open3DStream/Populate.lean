import Open3DStream.Directory

/-! The six loops of `parse`: when they can read their packet, and what they leave. -/

namespace Open3DStream

variable {α β : Type}

def DefinitionPresent (data : Option (Data.SubjectData β)) : Prop := ∃ d, data = some d ∧ d.Complete

/-- An update needs its uuid, and its vectors when the uuid leads to a subject of the type. -/
def UpdatePresent (T : SubjectKind) (owner : String → Option SubjectKind)
    (data : Option (Data.SubjectUpdate β)) : Prop :=
  ∃ u uuid, data = some u ∧ u.uuid = some uuid ∧ (owner uuid = some T → u.Complete)

/-- The owner of a uuid once some definitions have been added to a list. -/
def ownerAfter (declared : List (SubjectKind × String)) (items : List (Subject α β))
    (uuid : String) : Option SubjectKind :=
  (owner uuid items).or ((declared.find? fun e => decide (e.2 = uuid)).map (·.1))

theorem ownerAfter_append (declared more : List (SubjectKind × String))
    (items : List (Subject α β)) (uuid : String) :
    ownerAfter (declared ++ more) items uuid =
      (ownerAfter declared items uuid).or ((more.find? fun e => decide (e.2 = uuid)).map (·.1)) := by
  simp only [ownerAfter]
  rw [List.find?_append, Option.or_assoc]
  cases declared.find? fun e => decide (e.2 = uuid) <;> rfl

section loops

variable [Numeric α β] {δ : Type} (T : SubjectKind)

/-- What one definition does to the list. -/
def defining (body : δ → Option (Data.SubjectData β)) (finish : δ → Subject α β → Subject α β)
    (items : List (Subject α β)) (d : δ) : List (Subject α β) :=
  match body d with
  | some data => define T (data.uuid.getD "") (fun s => finish d (data.described s)) items
  | none => items

/-- What one update does to the list. -/
def updating (body : δ → Option (Data.SubjectUpdate β)) (finish : δ → Subject α β → Subject α β)
    (items : List (Subject α β)) (d : δ) : List (Subject α β) :=
  match body d with
  | some data => edit T (data.uuid.getD "") (fun s => finish d (data.applied s)) items
  | none => items

def declarations (body : δ → Option (Data.SubjectData β)) (ds : List δ) :
    List (SubjectKind × String) :=
  ds.map fun d => (T, ((body d).bind (·.uuid)).getD "")

/-- The fields a class adds do not touch the uuid or the type. -/
def Finishes (finish : δ → Subject α β → Subject α β) : Prop :=
  ∀ d s, (finish d s).mUuid = s.mUuid ∧ (finish d s).kind = s.kind

variable {T} {finish : δ → Subject α β → Subject α β}

theorem keeps_described (hf : Finishes finish) (d : δ) (data : Data.SubjectData β) :
    Keeps (data.uuid.getD "") fun s => finish d (data.described s) :=
  fun s _ => hf d (data.described s)

theorem keeps_applied (hf : Finishes finish) (d : δ) (data : Data.SubjectUpdate β)
    (uuid : String) : Keeps uuid fun s => finish d (data.applied s) := by
  intro s hs
  obtain ⟨hu, hk⟩ := hf d (data.applied s)
  exact ⟨hu.trans hs, hk⟩

theorem parseDefinitions_eq_some_iff (body : δ → Option (Data.SubjectData β)) (ds : List δ)
    (items r : List (Subject α β)) :
    parseDefinitions T body finish ds items = some r ↔
      (∀ d ∈ ds, DefinitionPresent (body d)) ∧ r = ds.foldl (defining T body finish) items := by
  induction ds generalizing items with
  | nil => simp [parseDefinitions, eq_comm]
  | cons d ds ih =>
    rw [parseDefinitions, List.forall_mem_cons, List.foldl_cons, ← and_assoc.symm]
    cases hd : body d with
    | none => simp [DefinitionPresent]
    | some data =>
      have hstep (s s' : Subject α β) : (s.parse data).map (finish d) = some s' ↔
          data.Complete ∧ s' = finish d (data.described s) :=
        Lib.map_eq_some_iff (s.parse_eq_some_iff · data) (finish d) s'
      have hpresent : DefinitionPresent (some data) ↔ data.Complete := by
        simp [DefinitionPresent]
      rw [hpresent, Option.bind_eq_bind, Option.bind_some]
      cases hu : data.uuid with
      | none =>
        have hn : ¬data.Complete := fun hc => by simpa [hu] using hc.uuid
        simp [hn]
      | some uuid =>
        rw [Option.bind_eq_bind, Option.bind_some, Option.bind_eq_bind, Option.bind_eq_some_iff]
        have hdef : defining T body finish items d =
            define T uuid (fun s => finish d (data.described s)) items := by
          simp [defining, hd, hu]
        rw [hdef]
        refine ⟨?_, ?_⟩
        · rintro ⟨items', hi, hr⟩
          obtain ⟨hc, rfl⟩ := (modifyAt_findOrAdd hstep).mp hi
          exact ⟨hc, (ih _).mp hr⟩
        · rintro ⟨hc, hr⟩
          exact ⟨_, (modifyAt_findOrAdd hstep).mpr ⟨hc, rfl⟩, (ih _).mpr hr⟩

theorem owner_definitions (hf : Finishes finish) {body : δ → Option (Data.SubjectData β)}
    {ds : List δ} (hp : ∀ d ∈ ds, DefinitionPresent (body d)) (items : List (Subject α β))
    (uuid : String) : owner uuid (ds.foldl (defining T body finish) items) =
      ownerAfter (declarations T body ds) items uuid := by
  induction ds generalizing items with
  | nil => simp [ownerAfter, declarations]
  | cons d ds ih =>
    obtain ⟨hd, hds⟩ := List.forall_mem_cons.mp hp
    obtain ⟨data, hdata, hc⟩ := hd
    rw [List.foldl_cons, ih hds]
    have hdef : defining T body finish items d =
        define T (data.uuid.getD "") (fun s => finish d (data.described s)) items := by
      simp [defining, hdata]
    have hdecl : declarations T body (d :: ds) =
        [(T, data.uuid.getD "")] ++ declarations T body ds := by
      simp [declarations, hdata]
    rw [hdecl, ownerAfter_append, ownerAfter, hdef, owner_define (keeps_described hf d data)]
    congr 1
    rw [ownerAfter]
    congr 1
    by_cases hu : data.uuid.getD "" = uuid <;> simp [hu]

theorem owner_updates (hf : Finishes finish) {body : δ → Option (Data.SubjectUpdate β)}
    (us : List δ) (items : List (Subject α β)) (uuid : String) :
    owner uuid (us.foldl (updating T body finish) items) = owner uuid items := by
  induction us generalizing items with
  | nil => rfl
  | cons u us ih =>
    rw [List.foldl_cons, ih, updating]
    split
    · exact owner_edit (keeps_applied hf u _ _) uuid items
    · rfl

theorem parseUpdates_eq_some_iff (hf : Finishes finish) (body : δ → Option (Data.SubjectUpdate β))
    (us : List δ) (items r : List (Subject α β)) :
    parseUpdates T body finish us items = some r ↔
      (∀ u ∈ us, UpdatePresent T (fun uuid => owner uuid items) (body u)) ∧
        r = us.foldl (updating T body finish) items := by
  induction us generalizing items with
  | nil => simp [parseUpdates, eq_comm]
  | cons u us ih =>
    rw [parseUpdates, List.forall_mem_cons, List.foldl_cons, ← and_assoc.symm]
    cases hu : body u with
    | none => simp [UpdatePresent]
    | some data =>
      rw [Option.bind_eq_bind, Option.bind_some]
      cases huuid : data.uuid with
      | none => simp [UpdatePresent, huuid]
      | some uuid =>
        have hpresent : UpdatePresent T (fun uuid => owner uuid items) (some data) ↔
            (owner uuid items = some T → data.Complete) := by
          simp [UpdatePresent, huuid]
        have hupd : updating T body finish items u =
            edit T uuid (fun s => finish u (data.applied s)) items := by
          simp [updating, hu, huuid]
        rw [hpresent, hupd, Option.bind_eq_bind, Option.bind_some]
        cases hk : findSubjectByUuid T uuid items with
        | none =>
          have ho := (find_eq_none_iff T uuid items).mp hk
          rw [edit_of_owner_ne _ ho]
          dsimp only
          rw [ih]
          exact (and_iff_right fun h => absurd h ho).symm
        | some k =>
          have ho := owner_of_find hk
          have hstep (s s' : Subject α β) : (s.parseUpdate data).map (finish u) = some s' ↔
              data.Complete ∧ s' = finish u (data.applied s) :=
            Lib.map_eq_some_iff (s.parseUpdate_eq_some_iff · data) (finish u) s'
          dsimp only
          rw [Option.bind_eq_bind, Option.bind_eq_some_iff]
          have howner (v : String) :
              owner v (edit T uuid (fun s => finish u (data.applied s)) items) = owner v items :=
            owner_edit (keeps_applied hf u data uuid) v items
          refine ⟨?_, ?_⟩
          · rintro ⟨items', hi, hr⟩
            obtain ⟨hc, rfl⟩ := (modifyAt_find hstep hk).mp hi
            have := (ih _).mp hr
            simp only [howner] at this
            exact ⟨fun _ => hc, this⟩
          · rintro ⟨hc, hr⟩
            refine ⟨_, (modifyAt_find hstep hk).mpr ⟨hc ho, rfl⟩, (ih _).mpr ?_⟩
            simp only [howner]
            exact hr

/-- The two loops of one type. -/
theorem parseBoth_eq_some_iff {ε : Type} {finish' : ε → Subject α β → Subject α β}
    (hf : Finishes finish) (hf' : Finishes finish') (body : δ → Option (Data.SubjectData β))
    (body' : ε → Option (Data.SubjectUpdate β)) (ds : List δ) (us : List ε)
    (items r : List (Subject α β)) :
    (parseDefinitions T body finish ds items >>= parseUpdates T body' finish' us) = some r ↔
      (∀ d ∈ ds, DefinitionPresent (body d)) ∧
      (∀ u ∈ us, UpdatePresent T (ownerAfter (declarations T body ds) items) (body' u)) ∧
      r = us.foldl (updating T body' finish') (ds.foldl (defining T body finish) items) := by
  rw [Option.bind_eq_bind, Option.bind_eq_some_iff]
  refine ⟨?_, ?_⟩
  · rintro ⟨a, ha, hr⟩
    obtain ⟨hd, rfl⟩ := (parseDefinitions_eq_some_iff body ds items a).mp ha
    obtain ⟨hu, rfl⟩ := (parseUpdates_eq_some_iff hf' body' us _ r).mp hr
    simp only [owner_definitions hf hd] at hu
    exact ⟨hd, hu, rfl⟩
  · rintro ⟨hd, hu, rfl⟩
    refine ⟨_, (parseDefinitions_eq_some_iff body ds items _).mpr ⟨hd, rfl⟩,
      (parseUpdates_eq_some_iff hf' body' us _ _).mpr ⟨?_, rfl⟩⟩
    simp only [owner_definitions hf hd]
    exact hu

end loops

/-! ### The whole packet -/

theorem finishes_id {δ : Type} : Finishes (α := α) (β := β) fun (_ : δ) s => s :=
  fun _ _ => ⟨rfl, rfl⟩

theorem finishes_readFilmBack : Finishes (α := α) (β := β) readFilmBack := by
  intro d s
  simp only [readFilmBack, Subject.kind]
  cases h : s.derived <;> simp [h, Derived.kind]

theorem finishes_readLens : Finishes (α := α) (β := β) readLens := by
  intro d s
  simp only [readLens, Subject.kind]
  cases h : s.derived <;> simp [h, Derived.kind]

variable [Numeric α β]

namespace Data.SubjectList

def declaredPerformers (root : Data.SubjectList α β) : List (SubjectKind × String) :=
  declarations .performer (·.data) (root.performers.getD [])

def declaredRigidbodies (root : Data.SubjectList α β) : List (SubjectKind × String) :=
  declarations .rigidbody (·.data) (root.rigidbodies.getD [])

def declaredCameras (root : Data.SubjectList α β) : List (SubjectKind × String) :=
  declarations .camera (·.data) (root.cameras.getD [])

/-- Every field the loops read is present. -/
structure Readable (root : Data.SubjectList α β) (items : List (Subject α β)) : Prop where
  performers : ∀ d ∈ root.performers.getD [], DefinitionPresent d.data
  performerUpdates : ∀ u ∈ root.performer_updates.getD [],
    UpdatePresent .performer (ownerAfter root.declaredPerformers items) u.data
  rigidbodies : ∀ d ∈ root.rigidbodies.getD [], DefinitionPresent d.data
  rigidbodyUpdates : ∀ u ∈ root.rigidbody_updates.getD [], UpdatePresent .rigidbody
    (ownerAfter (root.declaredPerformers ++ root.declaredRigidbodies) items) u.data
  cameras : ∀ d ∈ root.cameras.getD [], DefinitionPresent d.data
  cameraUpdates : ∀ u ∈ root.camera_updates.getD [], UpdatePresent .camera
    (ownerAfter (root.declaredPerformers ++ root.declaredRigidbodies ++ root.declaredCameras)
      items) u.data

def withPerformers (root : Data.SubjectList α β) (items : List (Subject α β)) :
    List (Subject α β) :=
  let items := (root.performers.getD []).foldl (defining .performer (·.data) fun _ s => s) items
  (root.performer_updates.getD []).foldl (updating .performer (·.data) fun _ s => s) items

def withRigidbodies (root : Data.SubjectList α β) (items : List (Subject α β)) :
    List (Subject α β) :=
  let items := (root.rigidbodies.getD []).foldl (defining .rigidbody (·.data) fun _ s => s) items
  (root.rigidbody_updates.getD []).foldl (updating .rigidbody (·.data) fun _ s => s) items

def withCameras (root : Data.SubjectList α β) (items : List (Subject α β)) :
    List (Subject α β) :=
  let items := (root.cameras.getD []).foldl (defining .camera (·.data) readFilmBack) items
  (root.camera_updates.getD []).foldl (updating .camera (·.data) readLens) items

/-- The list with everything a packet says applied to it. -/
def applied (root : Data.SubjectList α β) (items : List (Subject α β)) : List (Subject α β) :=
  root.withCameras (root.withRigidbodies (root.withPerformers items))

variable {root : Data.SubjectList α β} {items : List (Subject α β)}

theorem owner_withPerformers (hp : ∀ d ∈ root.performers.getD [], DefinitionPresent d.data)
    (uuid : String) :
    owner uuid (root.withPerformers items) = ownerAfter root.declaredPerformers items uuid := by
  rw [withPerformers, owner_updates finishes_id, owner_definitions finishes_id hp]
  rfl

theorem ownerAfter_withPerformers (hp : ∀ d ∈ root.performers.getD [], DefinitionPresent d.data)
    (declared : List (SubjectKind × String)) :
    ownerAfter declared (root.withPerformers items) =
      ownerAfter (root.declaredPerformers ++ declared) items := by
  funext uuid
  rw [ownerAfter_append, ← owner_withPerformers hp]
  rfl

theorem ownerAfter_withRigidbodies (hp : ∀ d ∈ root.performers.getD [], DefinitionPresent d.data)
    (hr : ∀ d ∈ root.rigidbodies.getD [], DefinitionPresent d.data)
    (declared : List (SubjectKind × String)) :
    ownerAfter declared (root.withRigidbodies (root.withPerformers items)) =
      ownerAfter (root.declaredPerformers ++ root.declaredRigidbodies ++ declared) items := by
  funext uuid
  rw [ownerAfter_append, ← ownerAfter_withPerformers hp, ownerAfter, withRigidbodies]
  rw [owner_updates finishes_id, owner_definitions finishes_id hr]
  rfl

end Data.SubjectList

open Data.SubjectList

theorem populate_eq_some_iff (root : Data.SubjectList α β) (items r : List (Subject α β)) :
    populate root items = some r ↔ root.Readable items ∧ r = root.applied items := by
  have hsplit : populate root items =
      (((parsePerformers root.performers items >>= parsePerformerUpdates root.performer_updates) >>=
        fun a => parseRigidbodies root.rigidbodies a >>=
          parseRigidbodyUpdates root.rigidbody_updates) >>=
        fun b => parseCameras root.cameras b >>= parseCameraUpdates root.camera_updates) := by
    simp only [populate, Option.bind_eq_bind, Option.bind_assoc]
  have performers (i r : List (Subject α β)) := parseBoth_eq_some_iff (T := .performer) finishes_id
    finishes_id (·.data) (·.data) (root.performers.getD []) (root.performer_updates.getD []) i r
  have rigidbodies (i r : List (Subject α β)) := parseBoth_eq_some_iff (T := .rigidbody) finishes_id
    finishes_id (·.data) (·.data) (root.rigidbodies.getD []) (root.rigidbody_updates.getD []) i r
  have cameras (i r : List (Subject α β)) := parseBoth_eq_some_iff (T := .camera)
    finishes_readFilmBack finishes_readLens (·.data) (·.data) (root.cameras.getD [])
    (root.camera_updates.getD []) i r
  rw [hsplit, Option.bind_eq_bind, Option.bind_eq_some_iff]
  refine ⟨?_, ?_⟩
  · rintro ⟨b, hb, hr⟩
    obtain ⟨a, ha, hb⟩ := Option.bind_eq_some_iff.mp hb
    obtain ⟨hp, hpu, rfl⟩ := (performers items a).mp ha
    obtain ⟨hg, hgu, rfl⟩ := (rigidbodies _ b).mp hb
    obtain ⟨hc, hcu, rfl⟩ := (cameras _ r).mp hr
    refine ⟨⟨hp, hpu, hg, ?_, hc, ?_⟩, rfl⟩
    · rw [← ownerAfter_withPerformers hp]
      exact hgu
    · rw [← ownerAfter_withRigidbodies hp hg]
      exact hcu
  · rintro ⟨⟨hp, hpu, hg, hgu, hc, hcu⟩, rfl⟩
    rw [← ownerAfter_withPerformers hp] at hgu
    rw [← ownerAfter_withRigidbodies hp hg] at hcu
    have hfirst := (performers items _).mpr ⟨hp, hpu, rfl⟩
    have hsecond := (rigidbodies _ _).mpr ⟨hg, hgu, rfl⟩
    exact ⟨_, Option.bind_eq_some_iff.mpr ⟨_, hfirst, hsecond⟩, (cameras _ _).mpr ⟨hc, hcu, rfl⟩⟩

end Open3DStream
