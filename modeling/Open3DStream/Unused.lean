import Open3DStream.Named

/-! What is left of a receiver's subjects when a packet removes the unused ones. -/

namespace Open3DStream

open Lib

variable {α β : Type}

namespace Data.SubjectList

/-- The packet defines a subject of a type with a uuid. -/
def DefinesAs (p : Data.SubjectList α β) (T : SubjectKind) (uuid : String) : Prop :=
  (T, uuid) ∈ p.identities.map (ident Identity.kind Identity.uuid)

/-- The packet has an update for a subject of a type with a uuid. -/
def UpdatesAs (p : Data.SubjectList α β) (T : SubjectKind) (uuid : String) : Prop :=
  ∃ u ∈ p.updates T, u.uuid = some uuid

end Data.SubjectList

/-- A list has a subject of a type with a uuid. -/
def Has (items : List (Subject α β)) (T : SubjectKind) (uuid : String) : Prop :=
  ∃ s ∈ items, s.kind = T ∧ s.mUuid = uuid

/-- The subjects that are left are those that the packet uses: it defines them, or they were known
and it updates them. -/
structure KeepsUsed [Numeric α β] (p : Data.SubjectList α β) (before after : List (Subject α β)) :
    Prop where
  exactly : ∀ T uuid, Has after T uuid ↔
    p.DefinesAs T uuid ∨ Has before T uuid ∧ p.UpdatesAs T uuid
  leaves : ∀ s ∈ before, p.UpdatesAs s.kind s.mUuid → ¬p.DefinesAs s.kind s.mUuid →
    ∃ s' ∈ after, p.Leaves s s'

variable [Numeric α β]

omit [Numeric α β] in
theorem has_identity (items : List (Subject α β)) (T : SubjectKind) (uuid : String) :
    Has items T uuid ↔
      (T, uuid) ∈ (items.map Subject.identity).map (ident Identity.kind Identity.uuid) := by
  rw [List.map_map, List.mem_map]
  apply exists_congr
  intro s
  refine and_congr_right fun _ => ?_
  exact Prod.mk_inj.symm

/-- A packet for an empty list leaves what it defines. -/
theorem has_applied_nil (p : Data.SubjectList α β) (T : SubjectKind) (uuid : String) :
    Has (p.applied []) T uuid ↔ p.DefinesAs T uuid := by
  rw [has_identity, identity_applied, mem_registered_ident]
  exact Iff.rfl

theorem has_of_bare {items items' : List (Subject α β)}
    (h : items'.map Subject.bare = items.map Subject.bare) (T : SubjectKind) (uuid : String) :
    Has items' T uuid ↔ Has items T uuid := by
  rw [has_identity, has_identity, map_of_bare (fun _ => rfl) h]

/-- What is known is not kept for being updated. -/
theorem keepsUsed_iff {p : Data.SubjectList α β} {before after : List (Subject α β)}
    (h : ∀ T uuid, Has after T uuid ↔ p.DefinesAs T uuid) : KeepsUsed p before after ↔
      ∀ s ∈ before, p.UpdatesAs s.kind s.mUuid → p.DefinesAs s.kind s.mUuid := by
  refine ⟨?_, ?_⟩
  · intro hk s hs hu
    apply (h _ _).mp
    exact (hk.exactly _ _).mpr (.inr ⟨⟨s, hs, rfl, rfl⟩, hu⟩)
  · intro hall
    refine ⟨?_, ?_⟩
    · intro T uuid
      rw [h]
      refine ⟨.inl, ?_⟩
      rintro (hd | ⟨⟨s, hs, rfl, rfl⟩, hu⟩)
      · exact hd
      · exact hall s hs hu
    · exact fun s hs hu hd => absurd (hall s hs hu) hd

variable [Wire α β]

/-- What is left when a packet that removes the unused subjects is accepted. -/
theorem has_accepted {l r : SubjectList α β} {data : Option (List UInt8)}
    {p : Data.SubjectList α β} (hv : Verified α β data p) (h : l.parse data true = some (true, r))
    (T : SubjectKind) (uuid : String) : Has r.mItems T uuid ↔ p.DefinesAs T uuid := by
  rw [parse_verified l hv] at h
  have haccepted := (SubjectList.parseRoot_true_iff _ p true).mp ⟨r, h⟩
  obtain ⟨hitems, -⟩ := SubjectList.parseRoot_frame haccepted.1 h
  rw [has_of_bare hitems]
  exact has_applied_nil p T uuid

/-- An accepted packet that removes what is unused keeps what it uses exactly if it defines every
known subject that it updates. -/
theorem used_kept_iff {l r : SubjectList α β} {data : Option (List UInt8)}
    {p : Data.SubjectList α β} (hv : Verified α β data p) (h : l.parse data true = some (true, r)) :
    KeepsUsed p l.mItems r.mItems ↔
      ∀ s ∈ l.mItems, p.UpdatesAs s.kind s.mUuid → p.DefinesAs s.kind s.mUuid :=
  keepsUsed_iff (has_accepted hv h)

/-! ### An update for a known subject -/

/-- A receiver of one performer. -/
def knowing : SubjectList Extended Extended := { freshList with mItems := [childFirst] }

/-- It reads an update for the performer, and has no subject left. -/
theorem parse_strayPacket :
    ∃ r, knowing.parse (some (finalize strayPacket 2)) true = some (true, r) := by
  rw [parse_verified _ (verified_finalize strayPacket (.inr rfl)), SubjectList.parseRoot_true_iff]
  refine ⟨fun h => absurd h.1 (by decide), updateOnly_strayPacket.readable _, ?_⟩
  have happlied : strayPacket.applied ([] : List (Subject Extended Extended)) = [] :=
    updateOnly_strayPacket.applied List.nodup_nil
  change ItemsAcceptable (strayPacket.applied [])
  rw [happlied]
  exact fun s hs => absurd hs List.not_mem_nil

theorem used_kept_iff_strayPacket :
    ∃ r, knowing.parse (some (finalize strayPacket 2)) true = some (true, r) ∧
      (KeepsUsed strayPacket knowing.mItems r.mItems ↔ ∀ s ∈ knowing.mItems,
        strayPacket.UpdatesAs s.kind s.mUuid → strayPacket.DefinesAs s.kind s.mUuid) := by
  obtain ⟨r, hr⟩ := parse_strayPacket
  exact ⟨r, hr, used_kept_iff (verified_finalize strayPacket (.inr rfl)) hr⟩

/-- The performer is gone. -/
theorem updated_removed :
    ∃ r, knowing.parse (some (finalize strayPacket 2)) true = some (true, r) ∧
      ¬KeepsUsed strayPacket knowing.mItems r.mItems := by
  obtain ⟨r, hr⟩ := parse_strayPacket
  refine ⟨r, hr, ?_⟩
  rw [keepsUsed_iff (has_accepted (verified_finalize strayPacket (.inr rfl)) hr)]
  intro hall
  have hupdates : strayPacket.UpdatesAs childFirst.kind childFirst.mUuid :=
    ⟨strayUpdate, List.mem_singleton.mpr rfl, rfl⟩
  exact absurd (hall childFirst (List.mem_singleton.mpr rfl) hupdates) List.not_mem_nil

end Open3DStream
