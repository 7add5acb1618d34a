import Open3DStream.Channel
import Open3DStream.Reread

/-! A full packet for a receiver that has the subjects already. -/

namespace Open3DStream

open Lib Numeric

variable {α β : Type} [Numeric α β]

theorem apply_mTransforms {r r' : Subject α β} {e : Edit β}
    (h : r'.mTransforms = r.mTransforms ∨ e.Describes) :
    (Edit.apply r' e).mTransforms = (Edit.apply r e).mTransforms := by
  have hfilm (c : Data.Camera β) (s : Subject α β) :
      (readFilmBack c s).mTransforms = s.mTransforms := by
    rw [readFilmBack]
    split <;> rfl
  cases e with
  | describe name nodes => rfl
  | write i w =>
    have heq := h.resolve_right id
    simp only [Edit.apply, heq]
  | filmBack c =>
    have heq := h.resolve_right id
    simp only [Edit.apply, hfilm, heq]
  | lens c =>
    have heq := h.resolve_right id
    simp only [Edit.apply, readLens_mTransforms, heq]

/-- A description decides the transforms of a subject, whatever they were. -/
theorem amends_mTransforms {es : List (Entry β)} {r r' : Subject α β} (hu : r'.mUuid = r.mUuid)
    (hk : r'.kind = r.kind)
    (h : r'.mTransforms = r.mTransforms ∨ ∃ e ∈ es, e.Matches r ∧ e.edit.Describes) :
    (es.foldl amend r').mTransforms = (es.foldl amend r).mTransforms := by
  induction es generalizing r r' with
  | nil =>
    refine h.resolve_right ?_
    rintro ⟨e, he, -⟩
    cases he
  | cons e es ih =>
    obtain ⟨hu₁, hk₁⟩ := amend_identity r e
    obtain ⟨hu₂, hk₂⟩ := amend_identity r' e
    have hmatches (e : Entry β) : e.Matches r' ↔ e.Matches r := by
      rw [Entry.Matches, Entry.Matches, hu, hk]
    rw [List.foldl_cons, List.foldl_cons]
    apply ih (hu₂.trans (hu.trans hu₁.symm)) (hk₂.trans (hk.trans hk₁.symm))
    by_cases hd : r'.mTransforms = r.mTransforms ∨ e.Matches r ∧ e.edit.Describes
    · left
      rw [amend, amend]
      by_cases hm : e.Matches r
      · rw [if_pos hm, if_pos ((hmatches e).mpr hm)]
        exact apply_mTransforms (hd.imp_right And.right)
      · rw [if_neg hm, if_neg (mt (hmatches e).mp hm)]
        exact hd.resolve_right fun hm' => hm hm'.1
    · obtain ⟨e', he', hm', hd'⟩ := h.resolve_left fun heq => hd (.inl heq)
      right
      obtain rfl | he' := List.mem_cons.mp he'
      · exact absurd (.inr ⟨hm', hd'⟩) hd
      · refine ⟨e', he', ?_, hd'⟩
        rw [Entry.Matches, hu₁, hk₁]
        exact hm'

section full

variable (threshold timestamp : α) (timecode : String) (context : Context) (env : TimeEnvelope)
variable {items rs : List (Subject α β)}

theorem identities_fullRoot : (fullRoot threshold timestamp timecode context env items).identities =
    (broadcast items).map Subject.identity := by
  have hof {δ : Type} (T : SubjectKind) (body : δ → Option (Data.SubjectData β))
      (mk : Subject α β → δ) (hbody : ∀ s, body (mk s) = some s.serialize.1) :
      identitiesOf T body ((onAir T items).map mk) = (onAir T items).map Subject.identity := by
    rw [identitiesOf, List.filterMap_map, ← List.filterMap_eq_map]
    apply List.filterMap_congr
    intro s hs
    rw [Function.comp_apply, hbody, Option.map_some, ← (mem_onAir.mp hs).2.2]
    rfl
  rw [broadcast, List.map_append, List.map_append,
    ← hof .performer Data.Performer.data (fun s => ⟨some s.serialize.1⟩) fun _ => rfl,
    ← hof .rigidbody Data.Rigidbody.data (fun s => ⟨some s.serialize.1⟩) fun _ => rfl,
    ← hof .camera Data.Camera.data (fun s => cameraData (α := α) s.lens s.serialize.1) fun _ => rfl]
  rfl

theorem separated_of_nodup {is : List Identity} (h : (is.map (·.uuid)).Nodup) :
    Separated Identity.kind Identity.uuid is :=
  fun _ hi _ hj he => congrArg Identity.kind (List.inj_on_of_nodup_map h hi hj he)

theorem nodup_identities_fullRoot (h : (items.map (·.mUuid)).Nodup) :
    ((fullRoot threshold timestamp timecode context env items).identities.map (·.uuid)).Nodup := by
  rw [identities_fullRoot, List.map_map]
  exact broadcast_nodup h

/-- A receiver that has the sender's subjects has every subject of its packets. -/
theorem lists_fullRoot (h : (items.map (·.mUuid)).Nodup)
    (hm : List.Forall₂ Matches (broadcast items) rs) :
    (fullRoot threshold timestamp timecode context env items).Lists rs := by
  have hn : (rs.map (·.mUuid)).Nodup := by
    rw [matches_uuids hm]
    exact broadcast_nodup h
  refine ⟨hn, ?_⟩
  intro i hi
  rw [identities_fullRoot] at hi
  obtain ⟨s, hs, rfl⟩ := List.mem_map.mp hi
  obtain ⟨k, hk⟩ := List.mem_iff_getElem?.mp hs
  obtain ⟨r, hr, hu, hT⟩ := forall₂_getElem? hm hk
  have hmem := List.mem_of_getElem? hr
  refine owner_of_kind ?_ (List.mem_map.mpr ⟨r, hmem, hu⟩)
  intro r' hr' hu'
  rw [List.inj_on_of_nodup_map hn hr' hmem (hu'.trans hu.symm)]
  exact hT

/-- The transforms that a full packet leaves. -/
theorem restate_fullRoot (h : (items.map (·.mUuid)).Nodup) {s r : Subject α β}
    (hs : s ∈ broadcast items) (hm : Matches s r) :
    ((fullRoot threshold timestamp timecode context env items).restate r).mTransforms =
      s.mTransforms.map Transform.narrowed := by
  let p := fullRoot threshold timestamp timecode context env items
  have happ : p.applied [] = (broadcast items).map Subject.received :=
    applied_fullRoot _ _ _ _ _ h
  have hsep : Separated Identity.kind Identity.uuid (([] : List (Subject α β)).map Subject.identity ++
      p.identities) := separated_of_nodup (nodup_identities_fullRoot _ _ _ _ _ h)
  have hnil : (([] : List (Subject α β)).map (·.mUuid)).Nodup := List.nodup_nil
  have hfix : p.restate s.received = s.received :=
    Data.SubjectList.restate_of_mem hnil hsep (happ ▸ List.mem_map_of_mem hs)
  have hi : s.identity ∈ p.identities := by
    rw [identities_fullRoot]
    exact List.mem_map_of_mem hs
  obtain ⟨e, he, hk, hu, hd⟩ := Data.SubjectList.entry_of_identity hi
  have hsame : (p.restate r).mTransforms = (p.restate s.received).mTransforms := by
    have hkind : r.kind = s.received.kind := hm.2.trans s.received_kind.symm
    apply amends_mTransforms (r := s.received) hm.1 hkind
    exact .inr ⟨e, he, ⟨hu.symm, s.received_kind.trans hk.symm⟩, hd⟩
  rw [hsame, hfix]
  rfl

end full

variable [Wire α β] [LawfulWire α β]

/-- A full packet reaches every copy the receiver holds, whether it is accepted or not. -/
theorem mirrors_refreshed {l r : SubjectList α β} (h : (l.mItems.map (·.mUuid)).Nodup)
    (hm : List.Forall₂ Matches (broadcast l.mItems) r.mItems)
    (hc : r.mContext = l.mContext.carried)
    (henough : ∀ s ∈ l.mItems, s.mEnabled = true → ∀ t ∈ s.mTransforms, t.narrowed.EnoughMatrices)
    (timestamp : α) (timecode : String) (now : α) :
    ∃ b r', r.parse (some (finalize (l.outgoing timestamp timecode now) 1)) false = some (b, r') ∧
      List.Forall₂ Mirrors ((broadcast l.mItems).map Subject.toldView) r'.mItems ∧
      r'.mContext = l.mContext.carried := by
  let p := l.outgoing timestamp timecode now
  let r₀ : SubjectList α β := { r with mError := "" }
  obtain ⟨hok, hctx⟩ := adopted_mContext (r := r₀) (p := p) (.inr hc)
  have happ : p.applied r.mItems = r.mItems.map p.restate :=
    Data.SubjectList.applied_eq_map (lists_fullRoot _ _ _ _ _ h hm)
  have hnext : List.Forall₂ Mirrors ((broadcast l.mItems).map Subject.toldView)
      (p.applied r.mItems) := by
    rw [happ, List.forall₂_map_left_iff, List.forall₂_map_right_iff]
    have hall := (List.forall₂_and_left (p := fun s => s ∈ broadcast l.mItems) _ _).mpr
      ⟨fun _ hs => hs, hm⟩
    refine hall.imp ?_
    rintro s u ⟨hs, hu⟩
    obtain ⟨hmem, he⟩ := mem_broadcast.mp hs
    obtain ⟨huuid, hkind⟩ := amends_identity u p.entries
    refine ⟨hkind.trans hu.2, huuid.trans hu.1, ?_⟩
    have hts : (p.restate u).mTransforms = s.mTransforms.map Transform.narrowed :=
      restate_fullRoot _ _ _ _ _ h hs hu
    rw [hts, Subject.toldView, List.forall₂_map_left_iff, List.forall₂_map_right_iff,
      List.forall₂_same]
    intro t ht
    exact ⟨rfl, rfl, henough s hmem he t ht⟩
  have hsome : r₀.parseRoot p false ≠ none := by
    rw [ne_eq, SubjectList.parseRoot_eq_none_iff]
    rintro ⟨-, hs⟩
    exact Mirrors.not_starved hnext (hs (readable_fullRoot _ _ _ _ _ _ _)).2
  obtain ⟨⟨b, r'⟩, hr'⟩ := Option.ne_none_iff_exists'.mp hsome
  obtain ⟨hitems, hframe⟩ := SubjectList.parseRoot_frame hok hr'
  refine ⟨b, r', ?_, mirrors_of_bare hitems hnext, ?_⟩
  · rw [parse_verified r (verified_finalize p (.inl rfl))]
    exact hr'
  · rw [hframe]
    exact hctx

end Open3DStream
