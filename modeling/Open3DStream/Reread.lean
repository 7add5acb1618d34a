import Open3DStream.Items
import Open3DStream.Restate

/-! What a packet does to subjects that have been evaluated since it was read. -/

namespace Open3DStream

open Lib

variable {α β : Type} [Numeric α β]

/-! ### Definitions among the entries -/

/-- The edit replaces all transforms. -/
def Edit.Describes : Edit β → Prop
  | .describe _ _ => True
  | _ => False

section loops

variable {δ : Type} {T : SubjectKind} {extra : δ → List (Edit β)}

theorem identity_of_definitionEntries {body : δ → Option (Data.SubjectData β)} {ds : List δ}
    {e : Entry β} (h : e ∈ ds.flatMap (definitionEntries T extra body)) :
    e.uuid ∈ (identitiesOf T body ds).map (·.uuid) := by
  obtain ⟨d, hd, he⟩ := List.mem_flatMap.mp h
  rw [definitionEntries] at he
  split at he
  · rename_i data hb
    obtain ⟨e', -, rfl⟩ := List.mem_map.mp he
    exact List.mem_map.mpr ⟨_, mem_identitiesOf hd hb, rfl⟩
  · cases he

theorem describing_entry (extra : δ → List (Edit β)) {body : δ → Option (Data.SubjectData β)}
    {ds : List δ} {i : Identity} (h : i ∈ identitiesOf T body ds) :
    ∃ e ∈ ds.flatMap (definitionEntries T extra body),
      e.kind = i.kind ∧ e.uuid = i.uuid ∧ e.edit.Describes := by
  obtain ⟨d, hd, hi⟩ := List.mem_filterMap.mp h
  obtain ⟨data, hb, rfl⟩ := Option.map_eq_some_iff.mp hi
  let e : Edit β := .describe (data.name.getD "") (data.nodes.getD [])
  refine ⟨⟨T, data.uuid.getD "", e⟩, List.mem_flatMap.mpr ⟨d, hd, ?_⟩, rfl, rfl, trivial⟩
  simp only [definitionEntries, hb]
  exact List.mem_map.mpr ⟨e, List.mem_cons_self, rfl⟩

theorem edits_not_describes (u : Data.SubjectUpdate β) : ∀ e ∈ u.edits, ¬e.Describes := by
  intro e he
  simp only [Data.SubjectUpdate.edits, List.mem_append, List.mem_map] at he
  obtain (⟨d, -, rfl⟩ | ⟨d, -, rfl⟩) | ⟨d, -, rfl⟩ := he <;> exact id

theorem not_describes_of_updateEntries {body : δ → Option (Data.SubjectUpdate β)} {us : List δ}
    {e : Entry β} (hx : ∀ u, ∀ x ∈ extra u, ¬Edit.Describes x)
    (h : e ∈ us.flatMap (updateEntries T extra body)) : ¬e.edit.Describes := by
  obtain ⟨u, -, he⟩ := List.mem_flatMap.mp h
  rw [updateEntries] at he
  split at he
  · obtain ⟨x, hmem, rfl⟩ := List.mem_map.mp he
    obtain hmem | hmem := List.mem_append.mp hmem
    · exact edits_not_describes _ x hmem
    · exact hx u x hmem
  · cases he

end loops

namespace Data.SubjectList

/-- The packet defines the subject. -/
def Defines (p : Data.SubjectList α β) (s : Subject α β) : Prop :=
  s.mUuid ∈ p.identities.map (·.uuid)

variable {p : Data.SubjectList α β}

omit [Numeric α β] in
theorem uuid_of_describes {e : Entry β} (h : e ∈ p.entries) (hd : e.edit.Describes) :
    e.uuid ∈ p.identities.map (·.uuid) := by
  have hnone {δ : Type} : ∀ u : δ, ∀ x ∈ ([] : List (Edit β)), ¬x.Describes := fun _ _ hx =>
    absurd hx List.not_mem_nil
  simp only [entries, List.mem_append] at h
  rw [identities, List.map_append, List.map_append, List.mem_append, List.mem_append]
  obtain ((((h | h) | h) | h) | h) | h := h
  · exact .inl (.inl (identity_of_definitionEntries h))
  · exact absurd hd (not_describes_of_updateEntries hnone h)
  · exact .inl (.inr (identity_of_definitionEntries h))
  · exact absurd hd (not_describes_of_updateEntries hnone h)
  · exact .inr (identity_of_definitionEntries h)
  · refine absurd hd (not_describes_of_updateEntries ?_ h)
    intro c x hx
    rw [List.mem_singleton.mp hx]
    exact id

omit [Numeric α β] in
theorem entry_of_identity {i : Identity} (h : i ∈ p.identities) :
    ∃ e ∈ p.entries, e.kind = i.kind ∧ e.uuid = i.uuid ∧ e.edit.Describes := by
  have hmem {es : List (Entry β)} (hes : ∀ e ∈ es, e ∈ p.entries)
      (he : ∃ e ∈ es, e.kind = i.kind ∧ e.uuid = i.uuid ∧ e.edit.Describes) :
      ∃ e ∈ p.entries, e.kind = i.kind ∧ e.uuid = i.uuid ∧ e.edit.Describes := by
    obtain ⟨e, he, hrest⟩ := he
    exact ⟨e, hes e he, hrest⟩
  rw [identities, List.mem_append, List.mem_append] at h
  obtain (h | h) | h := h
  · refine hmem (fun e he => ?_) (describing_entry (fun _ => []) h)
    simp only [entries, List.mem_append, he, true_or]
  · refine hmem (fun e he => ?_) (describing_entry (fun _ => []) h)
    simp only [entries, List.mem_append, he, true_or, or_true]
  · refine hmem (fun e he => ?_) (describing_entry (fun c => [.filmBack c]) h)
    simp only [entries, List.mem_append, he, true_or, or_true]

end Data.SubjectList

/-! ### Subjects that have been evaluated -/

/-- What `bare` leaves out. -/
def Subject.cached (s : Subject α β) : List (Matrix α × Matrix α × Bool) × String :=
  (s.mTransforms.map fun t => (t.mMatrix, t.mWorldMatrix, t.bWorldMatrix), s.mError)

theorem Subject.eq_of_bare {s t : Subject α β} (hb : s.bare = t.bare) (hc : s.cached = t.cached) :
    s = t := by
  obtain ⟨derived, name, uuid, ts, error, enabled⟩ := s
  obtain ⟨derived', name', uuid', us, error', enabled'⟩ := t
  simp only [Subject.bare, Subject.mk.injEq, true_and] at hb
  simp only [Subject.cached, Prod.mk.injEq] at hc
  obtain ⟨rfl, rfl, rfl, hbare, rfl⟩ := hb
  obtain ⟨hcached, rfl⟩ := hc
  have hts : ts = us := by
    apply List.ext_getElem?
    intro k
    have hbk := congrArg (·[k]?) hbare
    have hck := congrArg (·[k]?) hcached
    simp only [List.getElem?_map] at hbk hck
    cases ht : ts[k]? <;> cases hu : us[k]? <;> simp_all [Transform.bare, Transform.ext_iff]
  rw [hts]

theorem amends_commute {g : Subject α β → Subject α β}
    (hm : ∀ s (e : Entry β), e.Matches (g s) ↔ e.Matches s)
    (hg : ∀ s (e : Edit β), g (Edit.apply s e) = Edit.apply (g s) e) (es : List (Entry β))
    (s : Subject α β) : g (es.foldl amend s) = es.foldl amend (g s) := by
  induction es generalizing s with
  | nil => rfl
  | cons e es ih =>
    rw [List.foldl_cons, List.foldl_cons, ih, amend, amend]
    by_cases he : e.Matches s
    · rw [if_pos he, if_pos ((hm s e).mpr he), hg]
    · rw [if_neg he, if_neg (mt (hm s e).mp he)]

theorem bare_put (w : Write β) (t : Transform α) : (w.put t).bare = w.put t.bare := by
  cases w <;> rfl

theorem bare_amends (es : List (Entry β)) (s : Subject α β) :
    (es.foldl amend s).bare = es.foldl amend s.bare := by
  apply amends_commute (g := Subject.bare) (fun _ _ => Iff.rfl)
  rintro ⟨derived, name, uuid, ts, error, enabled⟩ e
  cases e with
  | describe name nodes =>
    simp only [Subject.bare, Edit.apply, List.map_map]
    rfl
  | write i w =>
    have hts : (Subject.applyAt ts i w.put).map Transform.bare =
        Subject.applyAt (ts.map Transform.bare) i w.put := by
      apply List.ext_getElem?
      intro k
      simp only [List.getElem?_map, Subject.applyAt_getElem?, Option.map_map]
      congr 1
      funext t
      by_cases hk : i = k <;> simp [hk, bare_put]
    simp only [Subject.bare, Edit.apply, hts]
  | filmBack c | lens c => cases derived <;> rfl

theorem silent_amends (es : List (Entry β)) (s : Subject α β) :
    (es.foldl amend s).silent = es.foldl amend s.silent := by
  apply amends_commute (g := Subject.silent) (fun _ _ => Iff.rfl)
  rintro ⟨derived, name, uuid, ts, error, enabled⟩ e
  cases e with
  | describe name nodes | write i w => rfl
  | filmBack c | lens c => cases derived <;> rfl

theorem cached_apply {s : Subject α β} {e : Edit β} (h : ¬e.Describes) :
    (Edit.apply s e).cached = s.cached := by
  obtain ⟨derived, name, uuid, ts, error, enabled⟩ := s
  cases e with
  | describe name nodes => exact absurd trivial h
  | write i w =>
    have hput (t : Transform α) : ((w.put t).mMatrix, (w.put t).mWorldMatrix,
        (w.put t).bWorldMatrix) = (t.mMatrix, t.mWorldMatrix, t.bWorldMatrix) := by
      cases w <;> rfl
    simp only [Subject.cached, Edit.apply, Subject.applyAt]
    split
    · rw [map_modify_eq hput]
    · rfl
  | filmBack c | lens c => cases derived <;> rfl

theorem cached_amends {es : List (Entry β)} {s : Subject α β}
    (h : ∀ e ∈ es, e.Matches s → ¬e.edit.Describes) : (es.foldl amend s).cached = s.cached := by
  induction es generalizing s with
  | nil => rfl
  | cons e es ih =>
    obtain ⟨he, hes⟩ := List.forall_mem_cons.mp h
    have hm : ∀ e' ∈ es, e'.Matches (amend s e) → ¬e'.edit.Describes := by
      intro e' he' hm
      rw [Entry.Matches, (amend_identity s e).1, (amend_identity s e).2] at hm
      exact hes e' he' hm
    rw [List.foldl_cons, ih hm, amend]
    split
    · exact cached_apply (he ‹_›)
    · rfl

theorem silent_amends_of_describes {es : List (Entry β)} {s t : Subject α β} (hb : t.bare = s.bare)
    (h : ∃ e ∈ es, e.Matches s ∧ e.edit.Describes) :
    (es.foldl amend t).silent = (es.foldl amend s).silent := by
  induction es generalizing s t with
  | nil =>
    obtain ⟨e, he, -⟩ := h
    cases he
  | cons e es ih =>
    rw [List.foldl_cons, List.foldl_cons]
    by_cases he : e.Matches s ∧ e.edit.Describes
    · -- both are described alike, whatever their transforms were
      have hsilent : (amend t e).silent = (amend s e).silent := by
        obtain ⟨hm, hdesc⟩ := he
        have hmt : e.Matches t := by
          have hm' : e.Matches t.bare := by
            rw [hb]
            exact hm
          exact hm'
        obtain ⟨T, uuid, edit⟩ := e
        cases edit with
        | describe name nodes =>
          rw [amend, amend, if_pos hm, if_pos hmt]
          have hd := congrArg (fun u : Subject α β => (u.derived, u.mUuid, u.mEnabled)) hb
          simp only [Subject.bare, Prod.mk.injEq] at hd
          simp only [Edit.apply, Subject.silent, hd]
        | write i w | filmBack c | lens c => exact absurd hdesc id
      rw [silent_amends, hsilent, ← silent_amends]
    · have hbare : (amend t e).bare = (amend s e).bare := by
        have ht := bare_amends [e] t
        have hs := bare_amends [e] s
        rw [hb] at ht
        exact ht.trans hs.symm
      obtain ⟨e', he', hm', hdesc'⟩ := h
      obtain rfl | he' := List.mem_cons.mp he'
      · exact absurd ⟨hm', hdesc'⟩ he
      · refine ih hbare ⟨e', he', ?_, hdesc'⟩
        rw [Entry.Matches, (amend_identity s e).1, (amend_identity s e).2]
        exact hm'

namespace Data.SubjectList

variable {p : Data.SubjectList α β}

/-- A packet finds the subjects that it does not define as it left them, evaluated or not. -/
theorem restate_kept {s t : Subject α β} (hd : ¬p.Defines s) (hs : p.restate s = s)
    (hb : t.bare = s.bare) : p.restate t = t := by
  apply Subject.eq_of_bare
  · rw [restate, bare_amends, hb, ← bare_amends]
    exact congrArg Subject.bare hs
  · apply cached_amends
    intro e he hm hdesc
    have hu : t.bare.mUuid = s.bare.mUuid := congrArg (fun u => u.mUuid) hb
    have hmem := uuid_of_describes he hdesc
    rw [← hm.1, show t.mUuid = s.mUuid from hu] at hmem
    exact hd hmem

/-- The subjects that it defines it sets back to what it says of them. -/
theorem restate_defined {s t : Subject α β} (hd : p.Defines s)
    (ha : ∀ i ∈ p.identities, s.mUuid = i.uuid → s.kind = i.kind) (hs : p.restate s = s)
    (hb : t.bare = s.bare) : (p.restate t).silent = s.silent := by
  obtain ⟨i, hi, hu⟩ := List.mem_map.mp hd
  obtain ⟨e, he, hk, hu', hdesc⟩ := entry_of_identity hi
  have hm : e.Matches s := ⟨hu.symm.trans hu'.symm, (ha i hi hu.symm).trans hk.symm⟩
  rw [restate, silent_amends_of_describes hb ⟨e, he, hm, hdesc⟩]
  exact congrArg Subject.silent hs

end Data.SubjectList

end Open3DStream
