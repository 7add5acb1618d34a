import Open3DStream.Edits
import Open3DStream.Identity

/-! What a packet does to subjects that are there already. -/

namespace Open3DStream

open Lib

variable {α β : Type}

/-! ### The subject under a uuid -/

/-- Where subjects with a uuid are of one type, the uuid leads to that type. -/
theorem owner_of_kind {uuid : String} {T : SubjectKind} {items : List (Subject α β)}
    (h : ∀ s ∈ items, s.mUuid = uuid → s.kind = T) (hm : uuid ∈ items.map (·.mUuid)) :
    owner uuid items = some T := by
  cases ho : owner uuid items with
  | none => exact absurd hm ((owner_eq_none_iff uuid items).mp ho)
  | some K =>
    obtain ⟨s, hs, rfl⟩ := Option.map_eq_some_iff.mp ho
    have hu : s.mUuid = uuid := by simpa using List.find?_some hs
    rw [h s (List.mem_of_find?_eq_some hs) hu]

theorem edit_eq_map {T : SubjectKind} {uuid : String} (f : Subject α β → Subject α β)
    {items : List (Subject α β)} (h : (items.map (·.mUuid)).Nodup) : edit T uuid f items =
      items.map fun s => if s.mUuid = uuid ∧ s.kind = T then f s else s := by
  induction items with
  | nil => rfl
  | cons s items ih =>
    rw [List.map_cons, List.nodup_cons] at h
    rw [edit, List.map_cons]
    by_cases hu : s.mUuid = uuid
    · have hrest : items.map (fun s => if s.mUuid = uuid ∧ s.kind = T then f s else s) = items := by
        refine (List.map_congr_left fun t ht => ?_).trans (List.map_id items)
        have hne : t.mUuid ≠ uuid := fun he => h.1 (List.mem_map.mpr ⟨t, ht, he.trans hu.symm⟩)
        exact if_neg fun hm => hne hm.1
      rw [if_pos hu, hrest]
      simp only [hu, true_and]
    · rw [if_neg hu, ih h.2, if_neg fun hm => hu hm.1]

namespace Data.SubjectList

variable {p : Data.SubjectList α β}

theorem performers_identities : ∀ i ∈ identitiesOf .performer (·.data) (p.performers.getD []),
    i ∈ p.identities :=
  fun _ hi => List.mem_append_left _ (List.mem_append_left _ hi)

theorem rigidbodies_identities : ∀ i ∈ identitiesOf .rigidbody (·.data) (p.rigidbodies.getD []),
    i ∈ p.identities :=
  fun _ hi => List.mem_append_left _ (List.mem_append_right _ hi)

theorem cameras_identities : ∀ i ∈ identitiesOf .camera (·.data) (p.cameras.getD []),
    i ∈ p.identities :=
  fun _ hi => List.mem_append_right _ hi

end Data.SubjectList

variable [Numeric α β]

/-! ### The loops as maps -/

section loops

variable {δ : Type} {T : SubjectKind} {extra : δ → List (Edit β)}
  {finish : δ → Subject α β → Subject α β}
  (hf : Adds finish extra)
include hf

/-- For a subject that is described under its own uuid. -/
theorem describe_eq (d : δ) (data : Data.SubjectData β) {s : Subject α β}
    (hs : s.mUuid = data.uuid.getD "") : finish d (data.described s) =
      (.describe (data.name.getD "") (data.nodes.getD []) :: extra d).foldl Edit.apply s := by
  rw [List.foldl_cons, hf, Edit.apply, Data.SubjectData.described, ← hs]

theorem updating_eq_map (body : δ → Option (Data.SubjectUpdate β)) {items : List (Subject α β)}
    (h : (items.map (·.mUuid)).Nodup) (u : δ) : updating T body finish items u =
      items.map fun s => (updateEntries T extra body u).foldl amend s := by
  rw [updating]
  cases hb : body u with
  | none =>
    simp only [updateEntries, hb, List.foldl_nil, List.map_id']
  | some data =>
    dsimp only
    rw [edit_eq_map _ h]
    apply List.map_congr_left
    intro s _
    simp only [updateEntries, hb]
    rw [amends_map, hf, applied_eq, List.foldl_append]

theorem defining_eq_map (body : δ → Option (Data.SubjectData β)) {items : List (Subject α β)}
    (h : (items.map (·.mUuid)).Nodup) {d : δ}
    (ho : ∀ data, body d = some data → owner (data.uuid.getD "") items = some T) :
    defining T body finish items d =
      items.map fun s => (definitionEntries T extra body d).foldl amend s := by
  rw [defining]
  cases hb : body d with
  | none =>
    simp only [definitionEntries, hb, List.foldl_nil, List.map_id']
  | some data =>
    dsimp only
    rw [define, if_pos (ho data hb), edit_eq_map _ h]
    apply List.map_congr_left
    intro s _
    simp only [definitionEntries, hb]
    rw [amends_map]
    split
    · rename_i hm
      exact describe_eq hf d data hm.1
    · rfl

end loops

namespace Data.SubjectList

/-- No uuid is repeated in a list, and it has every subject that a packet defines. -/
structure Lists (p : Data.SubjectList α β) (items : List (Subject α β)) : Prop where
  nodup : (items.map (·.mUuid)).Nodup
  owned : ∀ i ∈ p.identities, owner i.uuid items = some i.kind

theorem Lists.amended {p : Data.SubjectList α β} {items : List (Subject α β)} (h : p.Lists items)
    (es : List (Entry β)) : p.Lists (items.map fun s => es.foldl amend s) := by
  have hu (s : Subject α β) : (es.foldl amend s).mUuid = s.mUuid := (amends_identity s es).1
  have hk (s : Subject α β) : (es.foldl amend s).kind = s.kind := (amends_identity s es).2
  refine ⟨?_, ?_⟩
  · rw [List.map_map]
    simpa only [Function.comp_def, hu] using h.nodup
  · intro i hi
    rw [← h.owned i hi, owner, owner, List.find?_map, Option.map_map]
    simp only [Function.comp_def, hu, hk]

end Data.SubjectList

theorem loop_eq_map {δ : Type} {p : Data.SubjectList α β}
    {step : List (Subject α β) → δ → List (Subject α β)} {g : δ → List (Entry β)} {ds : List δ}
    (hstep : ∀ d ∈ ds, ∀ items, p.Lists items →
      step items d = items.map fun s => (g d).foldl amend s)
    {items : List (Subject α β)} (h : p.Lists items) :
    ds.foldl step items = items.map fun s => (ds.flatMap g).foldl amend s := by
  induction ds generalizing items with
  | nil => simp
  | cons d ds ih =>
    obtain ⟨hd, hds⟩ := List.forall_mem_cons.mp hstep
    rw [List.foldl_cons, hd items h, ih hds (h.amended (g d)), List.map_map]
    simp only [List.flatMap_cons, List.foldl_append, Function.comp_def]

theorem definitions_eq_map {δ : Type} {T : SubjectKind} {extra : δ → List (Edit β)}
    {finish : δ → Subject α β → Subject α β} (hf : Adds finish extra)
    {body : δ → Option (Data.SubjectData β)} {ds : List δ} {p : Data.SubjectList α β}
    (hp : ∀ i ∈ identitiesOf T body ds, i ∈ p.identities) {items : List (Subject α β)}
    (h : p.Lists items) : ds.foldl (defining T body finish) items =
      items.map fun s => (ds.flatMap (definitionEntries T extra body)).foldl amend s := by
  have hstep : ∀ d ∈ ds, ∀ items, p.Lists items → defining T body finish items d =
      items.map fun s => (definitionEntries T extra body d).foldl amend s := by
    intro d hd items hi
    apply defining_eq_map hf body hi.nodup
    intro data hb
    exact hi.owned ⟨T, data.uuid.getD "", data.name.getD ""⟩ (hp _ (mem_identitiesOf hd hb))
  exact loop_eq_map hstep h

theorem updates_eq_map {δ : Type} {T : SubjectKind} {extra : δ → List (Edit β)}
    {finish : δ → Subject α β → Subject α β} (hf : Adds finish extra)
    (body : δ → Option (Data.SubjectUpdate β)) (us : List δ) {p : Data.SubjectList α β}
    {items : List (Subject α β)} (h : p.Lists items) : us.foldl (updating T body finish) items =
      items.map fun s => (us.flatMap (updateEntries T extra body)).foldl amend s := by
  have hstep : ∀ u ∈ us, ∀ items, p.Lists items → updating T body finish items u =
      items.map fun s => (updateEntries T extra body u).foldl amend s :=
    fun u _ items hi => updating_eq_map hf body hi.nodup u
  exact loop_eq_map hstep h

namespace Data.SubjectList

/-- On a list that has all its subjects a packet changes each subject by itself. -/
theorem applied_eq_map {p : Data.SubjectList α β} {items : List (Subject α β)}
    (h : p.Lists items) : p.applied items = items.map p.restate := by
  have h₁ := h.amended ((p.performers.getD []).flatMap
    (definitionEntries .performer (fun _ => []) (·.data)))
  have h₂ := h₁.amended ((p.performer_updates.getD []).flatMap
    (updateEntries .performer (fun _ => []) (·.data)))
  have h₃ := h₂.amended ((p.rigidbodies.getD []).flatMap
    (definitionEntries .rigidbody (fun _ => []) (·.data)))
  have h₄ := h₃.amended ((p.rigidbody_updates.getD []).flatMap
    (updateEntries .rigidbody (fun _ => []) (·.data)))
  have h₅ := h₄.amended ((p.cameras.getD []).flatMap
    (definitionEntries .camera (fun c => [.filmBack c]) (·.data)))
  rw [applied, withCameras, withRigidbodies, withPerformers]
  rw [definitions_eq_map adds_nothing performers_identities h, updates_eq_map adds_nothing _ _ h₁,
    definitions_eq_map adds_nothing rigidbodies_identities h₂, updates_eq_map adds_nothing _ _ h₃,
    definitions_eq_map adds_filmBack cameras_identities h₄, updates_eq_map adds_lens _ _ h₅]
  simp only [List.map_map]
  apply List.map_congr_left
  intro s _
  simp only [restate, entries, List.foldl_append, Function.comp_apply]

end Data.SubjectList

/-! ### What a packet leaves is what it states -/

theorem amends_none {es : List (Entry β)} {s : Subject α β} (h : ∀ e ∈ es, ¬e.Matches s) :
    es.foldl amend s = s := by
  induction es with
  | nil => rfl
  | cons e es ih =>
    obtain ⟨he, hes⟩ := List.forall_mem_cons.mp h
    rw [List.foldl_cons, amend, if_neg he, ih hes]

/-- A list on the way through the loops of `parse`, and the entries taken so far. -/
structure Stated (p : Data.SubjectList α β) (es : List (Entry β)) (items : List (Subject α β)) :
    Prop where
  nodup : (items.map (·.mUuid)).Nodup
  apart : ∀ s ∈ items, ∀ i ∈ p.identities, s.mUuid = i.uuid → s.kind = i.kind
  result : ∀ s ∈ items, ∃ s₀, s = es.foldl amend s₀

namespace Stated

variable {p : Data.SubjectList α β} {es : List (Entry β)} {items : List (Subject α β)}

theorem amended (h : Stated p es items) (more : List (Entry β)) :
    Stated p (es ++ more) (items.map fun s => more.foldl amend s) := by
  have hu (s : Subject α β) : (more.foldl amend s).mUuid = s.mUuid := (amends_identity s more).1
  refine ⟨?_, ?_, ?_⟩
  · rw [List.map_map]
    simpa only [Function.comp_def, hu] using h.nodup
  · intro s hs i hi he
    obtain ⟨t, ht, rfl⟩ := List.mem_map.mp hs
    rw [hu] at he
    rw [(amends_identity t more).2, h.apart t ht i hi he]
  · intro s hs
    obtain ⟨t, ht, rfl⟩ := List.mem_map.mp hs
    obtain ⟨s₀, rfl⟩ := h.result t ht
    exact ⟨s₀, (List.foldl_append ..).symm⟩

theorem updates {δ : Type} {T : SubjectKind} {extra : δ → List (Edit β)}
    {finish : δ → Subject α β → Subject α β} (hf : Adds finish extra)
    (body : δ → Option (Data.SubjectUpdate β)) (us : List δ) (h : Stated p es items) :
    Stated p (es ++ us.flatMap (updateEntries T extra body))
      (us.foldl (updating T body finish) items) := by
  induction us generalizing es items with
  | nil => simpa using h
  | cons u us ih =>
    rw [List.foldl_cons, updating_eq_map hf body h.nodup, List.flatMap_cons, ← List.append_assoc]
    exact ih (h.amended (updateEntries T extra body u))

/-- A subject that is added, with entries of its own, none of those so far being for it. -/
theorem appended (h : Stated p es items) {s : Subject α β} {more : List (Entry β)}
    (hm : s.mUuid ∉ items.map (·.mUuid)) (hs : ∀ i ∈ p.identities, s.mUuid = i.uuid → s.kind = i.kind)
    (hes : ∀ e ∈ es, ¬e.Matches s) (hmore : ∀ e ∈ more, e.uuid = s.mUuid) :
    Stated p (es ++ more) (items ++ [more.foldl amend s]) := by
  obtain ⟨hu, hk⟩ := amends_identity s more
  refine ⟨?_, ?_, ?_⟩
  · rw [List.map_append, List.map_singleton, hu]
    refine List.nodup_append.mpr ⟨h.nodup, List.nodup_singleton _, ?_⟩
    intro a ha b hb hab
    have he : a = s.mUuid := hab.trans (List.mem_singleton.mp hb)
    exact hm (he ▸ ha)
  · intro t ht i hi he
    obtain ht | ht := List.mem_append.mp ht
    · exact h.apart t ht i hi he
    · rw [List.mem_singleton.mp ht] at he ⊢
      rw [hk]
      exact hs i hi (hu.symm.trans he)
  · intro t ht
    obtain ht | ht := List.mem_append.mp ht
    · obtain ⟨s₀, hs₀⟩ := h.result t ht
      refine ⟨s₀, ?_⟩
      rw [List.foldl_append, ← hs₀, amends_none]
      intro e he hme
      exact hm (List.mem_map.mpr ⟨t, ht, hme.1.trans (hmore e he)⟩)
    · refine ⟨s, ?_⟩
      rw [List.mem_singleton.mp ht, List.foldl_append, amends_none hes]

section definitions

variable {δ : Type} {T : SubjectKind} {extra : δ → List (Edit β)}
  {finish : δ → Subject α β → Subject α β} (hf : Adds finish extra)
include hf

theorem defining_new {body : δ → Option (Data.SubjectData β)} {d : δ} {data : Data.SubjectData β}
    (hb : body d = some data) (hm : data.uuid.getD "" ∉ items.map (·.mUuid)) :
    defining T body finish items d = items ++
      [(definitionEntries T extra body d).foldl amend (Subject.make T (data.uuid.getD ""))] := by
  have hno : owner (data.uuid.getD "") items ≠ some T := by
    rw [(owner_eq_none_iff _ items).mpr hm]
    exact (Option.some_ne_none T).symm
  simp only [defining, definitionEntries, hb]
  rw [define, if_neg hno, amends_map, if_pos ⟨rfl, make_kind _ _⟩]
  congr 2
  exact describe_eq hf d data rfl

variable (hp : Separated Identity.kind Identity.uuid p.identities)
include hp

/-- One definition; entries for its type have only been taken for subjects of the list. -/
theorem definition {body : δ → Option (Data.SubjectData β)} {d : δ}
    (hd : ∀ data, body d = some data → ⟨T, data.uuid.getD "", data.name.getD ""⟩ ∈ p.identities)
    (hes : ∀ e ∈ es, e.kind = T → e.uuid ∈ items.map (·.mUuid)) (h : Stated p es items) :
    Stated p (es ++ definitionEntries T extra body d) (defining T body finish items d) ∧
      ∀ e ∈ es ++ definitionEntries T extra body d, e.kind = T →
        e.uuid ∈ (defining T body finish items d).map (·.mUuid) := by
  cases hb : body d with
  | none =>
    simp only [definitionEntries, defining, hb, List.append_nil]
    exact ⟨h, hes⟩
  | some data =>
    have hi := hd data hb
    have hentries : ∀ e ∈ definitionEntries T extra body d, e.uuid = data.uuid.getD "" := by
      intro e he
      simp only [definitionEntries, hb] at he
      obtain ⟨e', -, rfl⟩ := List.mem_map.mp he
      rfl
    by_cases hm : data.uuid.getD "" ∈ items.map (·.mUuid)
    · have howner : ∀ data', body d = some data' → owner (data'.uuid.getD "") items = some T := by
        intro data' hb'
        rw [hb] at hb'
        cases hb'
        exact owner_of_kind (fun s hs he => h.apart s hs _ hi he) hm
      rw [defining_eq_map hf body h.nodup howner]
      refine ⟨h.amended _, ?_⟩
      intro e he hT
      have hu (s : Subject α β) : ((definitionEntries T extra body d).foldl amend s).mUuid =
          s.mUuid := (amends_identity s _).1
      rw [List.map_map]
      simp only [Function.comp_def, hu]
      obtain he | he := List.mem_append.mp he
      · exact hes e he hT
      · rw [hentries e he]
        exact hm
    · have hu := (amends_identity (Subject.make T (data.uuid.getD "") : Subject α β)
        (definitionEntries T extra body d)).1
      rw [defining_new hf hb hm]
      refine ⟨h.appended hm ?_ ?_ hentries, ?_⟩
      · intro i hi' he
        rw [make_kind]
        exact hp _ hi i hi' he
      · -- no entry so far was for a subject that is not in the list
        intro e he hme
        have hT : e.kind = T := hme.2.symm.trans (make_kind T _)
        have hue : data.uuid.getD "" = e.uuid := hme.1
        exact hm (hue ▸ hes e he hT)
      · intro e he hT
        rw [List.map_append, List.map_singleton, List.mem_append, List.mem_singleton, hu]
        obtain he | he := List.mem_append.mp he
        · exact .inl (hes e he hT)
        · exact .inr (hentries e he)

theorem definitions {body : δ → Option (Data.SubjectData β)} {ds : List δ}
    (hd : ∀ i ∈ identitiesOf T body ds, i ∈ p.identities)
    (hes : ∀ e ∈ es, e.kind = T → e.uuid ∈ items.map (·.mUuid)) (h : Stated p es items) :
    Stated p (es ++ ds.flatMap (definitionEntries T extra body))
      (ds.foldl (defining T body finish) items) := by
  induction ds generalizing es items with
  | nil => simpa using h
  | cons d ds ih =>
    have hfirst : ∀ data, body d = some data →
        ⟨T, data.uuid.getD "", data.name.getD ""⟩ ∈ p.identities := fun data hb =>
      hd _ (mem_identitiesOf List.mem_cons_self hb)
    have hrest : ∀ i ∈ identitiesOf T body ds, i ∈ p.identities := by
      intro i hi
      obtain ⟨d', hd', he⟩ := List.mem_filterMap.mp hi
      exact hd i (List.mem_filterMap.mpr ⟨d', List.mem_cons_of_mem d hd', he⟩)
    obtain ⟨hstep, hes'⟩ := h.definition hf hp hfirst hes
    rw [List.foldl_cons, List.flatMap_cons, ← List.append_assoc]
    exact ih hrest hes' hstep

end definitions

end Stated

theorem kind_of_definitionEntries {δ : Type} {T : SubjectKind} {extra : δ → List (Edit β)}
    {body : δ → Option (Data.SubjectData β)} {ds : List δ} {e : Entry β}
    (h : e ∈ ds.flatMap (definitionEntries T extra body)) : e.kind = T := by
  obtain ⟨d, -, he⟩ := List.mem_flatMap.mp h
  rw [definitionEntries] at he
  split at he
  · obtain ⟨e', -, rfl⟩ := List.mem_map.mp he
    rfl
  · cases he

theorem kind_of_updateEntries {δ : Type} {T : SubjectKind} {extra : δ → List (Edit β)}
    {body : δ → Option (Data.SubjectUpdate β)} {us : List δ} {e : Entry β}
    (h : e ∈ us.flatMap (updateEntries T extra body)) : e.kind = T := by
  obtain ⟨u, -, he⟩ := List.mem_flatMap.mp h
  rw [updateEntries] at he
  split at he
  · obtain ⟨e', -, rfl⟩ := List.mem_map.mp he
    rfl
  · cases he

namespace Data.SubjectList

variable {p : Data.SubjectList α β} {items : List (Subject α β)}

theorem applied_stated (hn : (items.map (·.mUuid)).Nodup)
    (hs : Separated Identity.kind Identity.uuid (items.map Subject.identity ++ p.identities)) :
    Stated p p.entries (p.applied items) := by
  have hp : Separated Identity.kind Identity.uuid p.identities :=
    separated_of_subset (fun i hi => List.mem_append_right _ hi) hs
  have h₀ : Stated p [] items := by
    refine ⟨hn, ?_, fun s _ => ⟨s, rfl⟩⟩
    intro s hs' i hi he
    exact hs s.identity (List.mem_append_left _ (List.mem_map_of_mem hs')) i
      (List.mem_append_right _ hi) he
  have h₁ := h₀.definitions adds_nothing hp performers_identities
    fun e he => absurd he List.not_mem_nil
  have h₂ := h₁.updates adds_nothing (T := .performer) (·.data) (p.performer_updates.getD [])
  have h₃ := h₂.definitions adds_nothing hp rigidbodies_identities (by
    intro e he hT
    rw [List.nil_append, List.mem_append] at he
    obtain he | he := he
    · cases (kind_of_definitionEntries he).symm.trans hT
    · cases (kind_of_updateEntries he).symm.trans hT)
  have h₄ := h₃.updates adds_nothing (T := .rigidbody) (·.data) (p.rigidbody_updates.getD [])
  have h₅ := h₄.definitions adds_filmBack hp cameras_identities (by
    intro e he hT
    rw [List.nil_append, List.mem_append, List.mem_append, List.mem_append] at he
    obtain ((he | he) | he) | he := he
    · cases (kind_of_definitionEntries he).symm.trans hT
    · cases (kind_of_updateEntries he).symm.trans hT
    · cases (kind_of_definitionEntries he).symm.trans hT
    · cases (kind_of_updateEntries he).symm.trans hT)
  exact h₅.updates adds_lens (T := .camera) (·.data) (p.camera_updates.getD [])

theorem restate_of_mem (hn : (items.map (·.mUuid)).Nodup)
    (hs : Separated Identity.kind Identity.uuid (items.map Subject.identity ++ p.identities))
    {s : Subject α β} (h : s ∈ p.applied items) : p.restate s = s := by
  obtain ⟨s₀, hs₀⟩ := (applied_stated hn hs).result s h
  have hs₀' : s = p.restate s₀ := hs₀
  rw [hs₀', restate_restate]

theorem lists_applied (hn : (items.map (·.mUuid)).Nodup)
    (hs : Separated Identity.kind Identity.uuid (items.map Subject.identity ++ p.identities)) :
    p.Lists (p.applied items) := by
  have h := applied_stated hn hs
  refine ⟨h.nodup, ?_⟩
  intro i hi
  have hmem : ident Identity.kind Identity.uuid i ∈
      ((p.applied items).map Subject.identity).map (ident Identity.kind Identity.uuid) := by
    rw [identity_applied, mem_registered_ident]
    exact List.mem_map_of_mem (List.mem_append_right _ hi)
  obtain ⟨j, hj, he⟩ := List.mem_map.mp hmem
  obtain ⟨s, hs', rfl⟩ := List.mem_map.mp hj
  have hu : s.mUuid = i.uuid := congrArg Prod.snd he
  exact owner_of_kind (fun t ht => h.apart t ht i hi) (List.mem_map.mpr ⟨s, hs', hu⟩)

end Data.SubjectList

end Open3DStream
