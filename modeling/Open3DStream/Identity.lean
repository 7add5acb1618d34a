import Open3DStream.Codec
import Open3DStream.Lib.Machine
import Open3DStream.Lib.Tagged
import Open3DStream.Receive

/-! Which subjects the lookups of a list lead to. -/

namespace Open3DStream

open Lib

variable {α β : Type}

/-- The search stops at the first subject with the name, whatever its type. -/
def findSubjectByName (T : SubjectKind) (name : String) : List (Subject α β) → Option Nat
  | [] => none
  | s :: rest =>
    if s.mName = name then (if s.kind = T then some 0 else none)
    else (findSubjectByName T name rest).map (· + 1)

theorem findSubjectByName_eq (T : SubjectKind) (name : String) (items : List (Subject α β)) :
    findSubjectByName T name items = findTagged Subject.kind (·.mName) T name items := by
  induction items with
  | nil => rfl
  | cons s items ih => rw [findSubjectByName, findTagged, ih]

structure Identity where
  kind : SubjectKind
  uuid : String
  name : String
deriving DecidableEq

def Subject.identity (s : Subject α β) : Identity := ⟨s.kind, s.mUuid, s.mName⟩

/-- No uuid and no name belongs to subjects of two types. -/
def Distinct (ids : List Identity) : Prop :=
  Separated Identity.kind Identity.uuid ids ∧ Separated Identity.kind Identity.name ids

instance instDecidableDistinct (ids : List Identity) : Decidable (Distinct ids) :=
  inferInstanceAs (Decidable (_ ∧ _))

/-- A subject of one type and uuid counts with the last name it has been given. -/
abbrev lastNamed : List Identity → List Identity := latest Identity.kind Identity.uuid

section lookups

variable [Numeric α β]

/-- The lookups lead to every subject of the list, and no subject is there twice. -/
structure Identified (items : List (Subject α β)) : Prop where
  byUuid : ∀ T uuid, (∃ s ∈ items, s.kind = T ∧ s.mUuid = uuid) →
    (findSubjectByUuid T uuid items).isSome
  byName : ∀ T name, (∃ s ∈ items, s.kind = T ∧ s.mName = name) →
    (findSubjectByName T name items).isSome
  again : ∀ k s, items[k]? = some s → findOrAddSubject s.kind s.mUuid items = (items, k)
  once : (items.map fun s => (s.kind, s.mUuid)).Nodup

theorem identified_iff (items : List (Subject α β)) : Identified items ↔
    Distinct (items.map Subject.identity) ∧
      ((items.map Subject.identity).map (ident Identity.kind Identity.uuid)).Nodup := by
  have hsep {κ : Type} (key : Identity → κ) :
      Separated Identity.kind key (items.map Subject.identity) ↔
        Separated Subject.kind (fun s => key s.identity) items := by
    simp only [Separated, List.forall_mem_map]
    exact Iff.rfl
  have hident : (items.map Subject.identity).map (ident Identity.kind Identity.uuid) =
      items.map (ident Subject.kind (·.mUuid)) := by
    rw [List.map_map]
    rfl
  rw [Distinct, hsep, hsep, hident]
  refine ⟨?_, ?_⟩
  · intro h
    refine ⟨⟨(separated_iff items).mpr ?_, (separated_iff items).mpr ?_⟩, h.once⟩
    · intro T uuid hs
      exact findSubjectByUuid_eq T uuid items ▸ h.byUuid T uuid hs
    · intro T name hs
      exact findSubjectByName_eq T name items ▸ h.byName T name hs
  · rintro ⟨⟨huuid, hname⟩, hn⟩
    refine ⟨?_, ?_, ?_, hn⟩
    · intro T uuid hs
      rw [findSubjectByUuid_eq]
      exact (separated_iff items).mp huuid T uuid hs
    · intro T name hs
      rw [findSubjectByName_eq]
      exact (separated_iff items).mp hname T name hs
    · intro k s hk
      have hfind : findSubjectByUuid s.kind s.mUuid items = some k := by
        rw [findSubjectByUuid_eq]
        exact findTagged_self huuid hn hk
      rw [findOrAddSubject, hfind]

end lookups

/-! ### What a packet does to the identities -/

theorem owner_identity (uuid : String) (items : List (Subject α β)) :
    ((items.map Subject.identity).find? fun i => decide (i.uuid = uuid)).map Identity.kind =
      owner uuid items := by
  rw [List.find?_map, Option.map_map]
  rfl

theorem identity_edit_eq {T : SubjectKind} {uuid : String} {f : Subject α β → Subject α β}
    (hf : ∀ s, (f s).identity = s.identity) (items : List (Subject α β)) :
    (edit T uuid f items).map Subject.identity = items.map Subject.identity := by
  induction items with
  | nil => rfl
  | cons s items ih =>
    rw [edit]
    split
    · split
      · rw [List.map_cons, List.map_cons, hf]
      · rfl
    · rw [List.map_cons, List.map_cons, ih]

theorem identity_edit {T : SubjectKind} {uuid name : String} {f : Subject α β → Subject α β}
    (hf : ∀ s, (f s).identity = ⟨s.kind, uuid, name⟩) (items : List (Subject α β)) :
    (edit T uuid f items).map Subject.identity =
      replaceTagged Identity.kind Identity.uuid ⟨T, uuid, name⟩ (items.map Subject.identity) := by
  induction items with
  | nil => rfl
  | cons s items ih =>
    rw [edit, List.map_cons, replaceTagged]
    by_cases hu : s.mUuid = uuid
    · by_cases hT : s.kind = T
      · have hs : (f s).identity = ⟨T, uuid, name⟩ := hT ▸ hf s
        rw [if_pos hu, if_pos hT, if_pos (show s.identity.uuid = uuid from hu),
          if_pos (show s.identity.kind = T from hT), List.map_cons, hs]
      · simp [Subject.identity, hu, hT]
    · simp [Subject.identity, hu, ih]

theorem identity_readFilmBack (d : Data.Camera β) (s : Subject α β) :
    (readFilmBack d s).identity = s.identity := by
  simp only [readFilmBack, Subject.identity, Subject.kind]
  cases h : s.derived <;> simp [h, Derived.kind]

theorem identity_readLens (d : Data.CameraUpdate β) (s : Subject α β) :
    (readLens d s).identity = s.identity := by
  simp only [readLens, Subject.identity, Subject.kind]
  cases h : s.derived <;> simp [h, Derived.kind]

variable [Numeric α β]

/-- A subject that is not found is added as a definition without a name adds one. -/
theorem identity_added {T : SubjectKind} {uuid : String} {items : List (Subject α β)}
    (h : findSubjectByUuid T uuid items = none) :
    (items ++ [Subject.make T uuid]).map Subject.identity =
      [⟨T, uuid, ""⟩].foldl (register Identity.kind Identity.uuid)
        (items.map Subject.identity) := by
  have hsearch : ¬(findTagged Identity.kind Identity.uuid T uuid
      (items.map Subject.identity)).isSome := by
    rw [findTagged_isSome_iff, owner_identity]
    exact (find_eq_none_iff T uuid items).mp h
  rw [List.foldl_cons, List.foldl_nil, register, if_neg hsearch, List.map_append,
    List.map_singleton, Subject.identity, make_kind]
  rfl

theorem identity_define {T : SubjectKind} {uuid name : String} {f : Subject α β → Subject α β}
    (hf : ∀ s, (f s).identity = ⟨s.kind, uuid, name⟩) (items : List (Subject α β)) :
    (define T uuid f items).map Subject.identity =
      register Identity.kind Identity.uuid (items.map Subject.identity) ⟨T, uuid, name⟩ := by
  rw [define, register]
  simp only [findTagged_isSome_iff, owner_identity]
  split
  · exact identity_edit hf items
  · rw [List.map_append, List.map_singleton, hf, make_kind]

section loops

variable {δ : Type} {T : SubjectKind} {finish : δ → Subject α β → Subject α β}

/-- The identities a vector of definitions declares. -/
def identitiesOf (T : SubjectKind) (body : δ → Option (Data.SubjectData β)) (ds : List δ) :
    List Identity :=
  ds.filterMap fun d => (body d).map fun data => ⟨T, data.uuid.getD "", data.name.getD ""⟩

theorem mem_identitiesOf {T : SubjectKind} {body : δ → Option (Data.SubjectData β)} {ds : List δ}
    {d : δ} {data : Data.SubjectData β} (hd : d ∈ ds) (hb : body d = some data) :
    ⟨T, data.uuid.getD "", data.name.getD ""⟩ ∈ identitiesOf T body ds :=
  List.mem_filterMap.mpr ⟨d, hd, by rw [hb]; rfl⟩

theorem identity_definitions (hf : ∀ d (s : Subject α β), (finish d s).identity = s.identity)
    (body : δ → Option (Data.SubjectData β)) (ds : List δ) (items : List (Subject α β)) :
    (ds.foldl (defining T body finish) items).map Subject.identity =
      (identitiesOf T body ds).foldl (register Identity.kind Identity.uuid)
        (items.map Subject.identity) := by
  induction ds generalizing items with
  | nil => rfl
  | cons d ds ih =>
    rw [List.foldl_cons, ih, identitiesOf, identitiesOf, defining]
    cases hb : body d with
    | none => simp [hb]
    | some data =>
      have hd (s : Subject α β) : (finish d (data.described s)).identity =
          ⟨s.kind, data.uuid.getD "", data.name.getD ""⟩ := hf d (data.described s)
      simp only [List.filterMap_cons, hb, Option.map_some, List.foldl_cons, identity_define hd]

theorem identity_updates (hf : ∀ d (s : Subject α β), (finish d s).identity = s.identity)
    (body : δ → Option (Data.SubjectUpdate β)) (us : List δ) (items : List (Subject α β)) :
    (us.foldl (updating T body finish) items).map Subject.identity =
      items.map Subject.identity := by
  induction us generalizing items with
  | nil => rfl
  | cons u us ih =>
    rw [List.foldl_cons, ih, updating]
    split
    · rename_i data _
      have hu (s : Subject α β) : (finish u (data.applied s)).identity = s.identity := hf u _
      exact identity_edit_eq hu items
    · rfl

end loops

/-- The identities a packet declares, in the order of the loops. -/
def Data.SubjectList.identities (p : Data.SubjectList α β) : List Identity :=
  identitiesOf .performer (·.data) (p.performers.getD []) ++
    identitiesOf .rigidbody (·.data) (p.rigidbodies.getD []) ++
    identitiesOf .camera (·.data) (p.cameras.getD [])

theorem identity_applied (p : Data.SubjectList α β) (items : List (Subject α β)) :
    (p.applied items).map Subject.identity =
      p.identities.foldl (register Identity.kind Identity.uuid) (items.map Subject.identity) := by
  rw [Data.SubjectList.applied, Data.SubjectList.withCameras, identity_updates identity_readLens,
    identity_definitions identity_readFilmBack, Data.SubjectList.withRigidbodies,
    identity_updates fun _ _ => rfl, identity_definitions fun _ _ => rfl,
    Data.SubjectList.withPerformers, identity_updates fun _ _ => rfl,
    identity_definitions fun _ _ => rfl, Data.SubjectList.identities, List.foldl_append,
    List.foldl_append]

/-- Registering declarations leaves a list identified exactly when the identities, old and
new, are distinct. -/
theorem registered_identified_iff {items items' : List (Subject α β)} {ids : List Identity}
    (hn : ((items.map Subject.identity).map (ident Identity.kind Identity.uuid)).Nodup)
    (h : items'.map Subject.identity =
      ids.foldl (register Identity.kind Identity.uuid) (items.map Subject.identity)) :
    Identified items' ↔ Distinct (lastNamed (items.map Subject.identity ++ ids)) := by
  rw [identified_iff, h, Distinct, Distinct, separated_registered_iff]
  have hsep : Separated Identity.kind Identity.uuid (lastNamed (items.map Subject.identity ++ ids)) ↔
      Separated Identity.kind Identity.uuid (items.map Subject.identity ++ ids) :=
    separated_congr (mem_latest_ident _)
  refine ⟨?_, ?_⟩
  · rintro ⟨⟨huuid, hname⟩, -⟩
    obtain ⟨-, hmem⟩ := registered_spec (hsep.mp huuid) hn
    exact ⟨huuid, separated_of_subset (fun x hx => (hmem x).mpr hx) hname⟩
  · rintro ⟨huuid, hname⟩
    obtain ⟨hnodup, hmem⟩ := registered_spec (hsep.mp huuid) hn
    exact ⟨⟨huuid, separated_of_subset (fun x hx => (hmem x).mp hx) hname⟩, hnodup⟩

/-! ### Runs -/

inductive Call where
  | findOrAddSubject (T : SubjectKind) (uuid : String)
  | parse (data : Option (List UInt8)) (clearInactive : Bool)

/-- The index of the subject that is returned, or what `parse` returns. -/
inductive Reply where
  | subject (k : Nat)
  | parsed (ok : Bool)
deriving DecidableEq

namespace SubjectList

variable [Wire α β]

def call (l : SubjectList α β) : Call → Option (Reply × SubjectList α β)
  | .findOrAddSubject T uuid =>
    let (items, k) := Open3DStream.findOrAddSubject T uuid l.mItems
    some (.subject k, { l with mItems := items })
  | .parse data clearInactive => do
    let (ok, l) ← l.parse data clearInactive
    some (.parsed ok, l)

/-- The identities that a call leaves, the known and the new, are distinct. A subject that
is only found, and a packet that is turned away before its loops, bring nothing new. -/
def Apart (l : SubjectList α β) : Call → Prop
  | .findOrAddSubject T uuid =>
    (∃ s ∈ l.mItems, s.kind = T ∧ s.mUuid = uuid) ∨
      Distinct (l.mItems.map Subject.identity ++ [⟨T, uuid, ""⟩])
  | .parse data clearInactive => ∀ p, Verified α β data p → ¬ContextRejected l p →
      Distinct (lastNamed ((l.kept clearInactive).map Subject.identity ++ p.identities))

/-- What `parse` does to the items: nothing, or what the loops do. -/
theorem parse_items {l r : SubjectList α β} {data : Option (List UInt8)} {clearInactive b : Bool}
    (h : l.parse data clearInactive = some (b, r)) :
    ((∀ p, Verified α β data p → ContextRejected l p) ∧ r.mItems = l.mItems) ∨
      ∃ p, Verified α β data p ∧ ¬ContextRejected l p ∧
        r.mItems.map Subject.bare = (p.applied (l.kept clearInactive)).map Subject.bare := by
  by_cases hv : ∃ p, Verified α β data p
  · obtain ⟨p, hp⟩ := hv
    rw [parse_verified l hp] at h
    by_cases hc : ContextRejected l p
    · left
      have hc' : ContextRejected { l with mError := "" } p := hc
      rw [parseRoot_rejected hc'] at h
      cases h
      refine ⟨?_, adopted_mItems _ p⟩
      intro p' hp'
      exact hp.unique hp' ▸ hc
    · exact .inr ⟨p, hp, hc, (parseRoot_frame (l := { l with mError := "" }) hc h).1⟩
  · left
    have hnone (p : Data.SubjectList α β) : ¬Verified α β data p := fun hp => hv ⟨p, hp⟩
    obtain ⟨e, he⟩ := parse_unverified l hnone clearInactive
    rw [he] at h
    cases h
    exact ⟨fun p hp => absurd hp (hnone p), rfl⟩

theorem findOrAdd_identified_iff {l : SubjectList α β} {T : SubjectKind} {uuid : String}
    {r : Reply × SubjectList α β} (hl : Identified l.mItems)
    (h : l.call (.findOrAddSubject T uuid) = some r) :
    Identified r.2.mItems ↔ l.Apart (.findOrAddSubject T uuid) := by
  obtain ⟨-, hn⟩ := (identified_iff l.mItems).mp hl
  rw [call, findOrAddSubject] at h
  cases hf : findSubjectByUuid T uuid l.mItems with
  | some k =>
    rw [hf] at h
    cases h
    rw [findSubjectByUuid_eq] at hf
    obtain ⟨s, hs, hT, hu⟩ := findTagged_get hf
    have hfound : ∃ s ∈ l.mItems, s.kind = T ∧ s.mUuid = uuid :=
      ⟨s, List.mem_of_getElem? hs, hT, hu⟩
    exact iff_of_true hl (.inl hfound)
  | none =>
    rw [hf] at h
    cases h
    have hnew : ¬∃ s ∈ l.mItems, s.kind = T ∧ s.mUuid = uuid := by
      intro hs
      have := hl.byUuid T uuid hs
      rw [hf] at this
      cases this
    have hlast : ((l.mItems.map Subject.identity ++ [(⟨T, uuid, ""⟩ : Identity)]).map
        (ident Identity.kind Identity.uuid)).Nodup := by
      rw [List.map_append, List.map_singleton, List.nodup_append]
      refine ⟨hn, List.nodup_singleton _, ?_⟩
      intro a ha b hb hab
      obtain ⟨i, hi, rfl⟩ := List.mem_map.mp ha
      obtain ⟨s, hs, rfl⟩ := List.mem_map.mp hi
      obtain ⟨hT, hu⟩ := Prod.ext_iff.mp (hab.trans (List.mem_singleton.mp hb))
      exact hnew ⟨s, hs, hT, hu⟩
    dsimp only
    rw [registered_identified_iff hn (identity_added hf), lastNamed, latest_of_nodup hlast, Apart,
      or_iff_right hnew]

theorem parse_identified_iff {l : SubjectList α β} {data : Option (List UInt8)}
    {clearInactive : Bool} {r : Reply × SubjectList α β} (hl : Identified l.mItems)
    (h : l.call (.parse data clearInactive) = some r) :
    Identified r.2.mItems ↔ l.Apart (.parse data clearInactive) := by
  obtain ⟨-, hn⟩ := (identified_iff l.mItems).mp hl
  rw [call, Option.bind_eq_bind, Option.bind_eq_some_iff] at h
  obtain ⟨⟨b, l'⟩, hp, h⟩ := h
  cases h
  obtain ⟨hnone, hitems⟩ | ⟨p, hv, hc, hbare⟩ := parse_items hp
  · dsimp only
    rw [hitems]
    exact iff_of_true hl fun p hv hc => absurd (hnone p hv) hc
  · have hkept : (((l.kept clearInactive).map Subject.identity).map
        (ident Identity.kind Identity.uuid)).Nodup := by
      cases clearInactive with
      | true => exact List.nodup_nil
      | false => exact hn
    have hids : l'.mItems.map Subject.identity =
        p.identities.foldl (register Identity.kind Identity.uuid)
          ((l.kept clearInactive).map Subject.identity) := by
      rw [map_of_bare (g := Subject.identity) (fun _ => rfl) hbare, identity_applied]
    dsimp only
    rw [registered_identified_iff hkept hids]
    refine ⟨?_, fun ha => ha p hv hc⟩
    intro hd p' hv' hc'
    exact hv.unique hv' ▸ hd

theorem call_identified_iff {l : SubjectList α β} {c : Call} {r : Reply × SubjectList α β}
    (hl : Identified l.mItems) (h : l.call c = some r) :
    Identified r.2.mItems ↔ l.Apart c := by
  cases c with
  | findOrAddSubject T uuid => exact findOrAdd_identified_iff hl h
  | parse data clearInactive => exact parse_identified_iff hl h

/-- In every run from an empty list, the lookups are complete in all lists that are reached
exactly when every call leaves the identities apart. -/
theorem lookups_complete_iff {l r : SubjectList α β} (hl : l.mItems = []) {cs : List Call}
    {os : List Reply} (h : Lib.run call l cs = some (os, r)) :
    (∀ cs' os' r', cs' <+: cs → Lib.run call l cs' = some (os', r') → Identified r'.mItems) ↔
      Each call Apart l cs := by
  have hempty : Identified l.mItems := by
    rw [hl, identified_iff]
    exact ⟨⟨fun a ha => absurd ha List.not_mem_nil, fun a ha => absurd ha List.not_mem_nil⟩,
      List.nodup_nil⟩
  exact (each_iff_invariant (P := fun l => Identified l.mItems)
    (fun l c r hl h => call_identified_iff hl h) hempty h).symm

/-- Two cameras, the first of them looked up again. -/
def cameraCalls : List Call :=
  [.findOrAddSubject .camera "a", .findOrAddSubject .camera "b", .findOrAddSubject .camera "a"]

theorem lookups_complete_iff_cameras :
    ∃ r, Lib.run call freshList cameraCalls = some ([.subject 0, .subject 1, .subject 0], r) ∧
      ((∀ cs' os' r', cs' <+: cameraCalls → Lib.run call freshList cs' = some (os', r') →
          Identified r'.mItems) ↔ Each call Apart freshList cameraCalls) :=
  ⟨_, rfl, lookups_complete_iff (α := Extended) (β := Extended) rfl (r := _) rfl⟩

/-- A rigidbody under the uuid of a performer is never found, and is added at every call. -/
theorem shared_uuid_duplicated :
    ∃ r, Lib.run call freshList [.findOrAddSubject .performer "a", .findOrAddSubject .rigidbody "a",
        .findOrAddSubject .rigidbody "a"] = some ([.subject 0, .subject 1, .subject 2], r) ∧
      findSubjectByUuid .rigidbody "a" r.mItems = none ∧
      r.mItems.map (fun s => (s.kind, s.mUuid)) =
        [(.performer, "a"), (.rigidbody, "a"), (.rigidbody, "a")] ∧
      ¬Identified r.mItems := by
  refine ⟨_, rfl, by decide, by decide, ?_⟩
  intro h
  exact absurd h.once (by decide)

end SubjectList

end Open3DStream
