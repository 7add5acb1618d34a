import Open3DStream.Lib.Lists
import Open3DStream.Populate

/-! A packet as a list of edits, each for one subject, of which the last one counts. -/

namespace Open3DStream

open Lib

variable {α β : Type}

/-- A value that an update writes into a transform. -/
inductive Write (β : Type) where
  | translation (d : Vector3d β)
  | rotation (d : Quaterniond β)
  | scale (d : Vector3d β)

/-- What a packet says of one subject. -/
inductive Edit (β : Type) where
  | describe (name : String) (nodes : List (Data.Transform β))
  | write (i : Int) (w : Write β)
  | filmBack (c : Data.Camera β)
  | lens (c : Data.CameraUpdate β)

/-- An edit with the type and the uuid of the subject it is for. -/
structure Entry (β : Type) where
  kind : SubjectKind
  uuid : String
  edit : Edit β

namespace Subject

theorem applyAt_getElem? (ts : List (Transform α)) (i : Int) (f : Transform α → Transform α)
    (k : Nat) : (applyAt ts i f)[k]? = (ts[k]?).map fun t => if i = k then f t else t := by
  rw [applyAt]
  by_cases hi : 0 ≤ i ∧ i < ts.length
  · rw [if_pos hi, List.getElem?_modify]
    have hk : i.toNat = k ↔ i = k := by omega
    simp only [hk]
    split <;> simp
  · rw [if_neg hi]
    cases ht : ts[k]? with
    | none => rfl
    | some t =>
      have hlt := (List.getElem?_eq_some_iff.mp ht).1
      have hne : i ≠ k := by omega
      simp [hne]

end Subject

variable [Numeric α β]

def Write.put : Write β → Transform α → Transform α
  | .translation d => Subject.readTranslation d
  | .rotation d => Subject.readRotation d
  | .scale d => Subject.readScale d

def Edit.apply (s : Subject α β) : Edit β → Subject α β
  | .describe name nodes =>
    { s with mName := name, mTransforms := nodes.map Data.Transform.described }
  | .write i w => { s with mTransforms := Subject.applyAt s.mTransforms i w.put }
  | .filmBack c => readFilmBack c s
  | .lens c => readLens c s

def Entry.Matches (e : Entry β) (s : Subject α β) : Prop := s.mUuid = e.uuid ∧ s.kind = e.kind

instance (e : Entry β) (s : Subject α β) : Decidable (e.Matches s) :=
  inferInstanceAs (Decidable (_ ∧ _))

def amend (s : Subject α β) (e : Entry β) : Subject α β :=
  if e.Matches s then Edit.apply s e.edit else s

/-! ### The last edit counts -/

theorem put_put (w : Write β) (t : Transform α) : w.put (w.put t) = w.put t := by
  cases w <;> rfl

theorem put_put_put (v w : Write β) (t : Transform α) :
    w.put (v.put (w.put t)) = w.put (v.put t) := by
  cases w <;> cases v <;> rfl

theorem applyAt_put (i : Int) (w : Write β) (ts : List (Transform α)) :
    Subject.applyAt (Subject.applyAt ts i w.put) i w.put = Subject.applyAt ts i w.put := by
  apply List.ext_getElem?
  intro k
  simp only [Subject.applyAt_getElem?, Option.map_map]
  congr 1
  funext t
  by_cases hi : i = k <;> simp [hi, put_put]

theorem applyAt_put_put (i j : Int) (v w : Write β) (ts : List (Transform α)) :
    Subject.applyAt (Subject.applyAt (Subject.applyAt ts i w.put) j v.put) i w.put =
      Subject.applyAt (Subject.applyAt ts j v.put) i w.put := by
  apply List.ext_getElem?
  intro k
  simp only [Subject.applyAt_getElem?, Option.map_map]
  congr 1
  funext t
  by_cases hi : i = k <;> by_cases hj : j = k <;> simp [hi, hj, put_put, put_put_put]

theorem apply_kind (s : Subject α β) (e : Edit β) : (Edit.apply s e).kind = s.kind := by
  cases e with
  | describe name nodes | write i w => rfl
  | filmBack c => exact (finishes_readFilmBack c s).2
  | lens c => exact (finishes_readLens c s).2

theorem apply_mUuid (s : Subject α β) (e : Edit β) : (Edit.apply s e).mUuid = s.mUuid := by
  cases e with
  | describe name nodes | write i w => rfl
  | filmBack c => exact (finishes_readFilmBack c s).1
  | lens c => exact (finishes_readLens c s).1

theorem apply_overwriting : Overwriting (Edit.apply (α := α) (β := β)) := by
  refine ⟨?_, ?_⟩
  · rintro ⟨derived, name, uuid, ts, error, enabled⟩ e
    cases e with
    | describe name nodes => rfl
    | write i w => simp only [Edit.apply, applyAt_put]
    | filmBack c | lens c => cases derived <;> rfl
  · rintro ⟨derived, name, uuid, ts, error, enabled⟩ e e'
    cases e with
    | describe name nodes | filmBack c | lens c => cases e' <;> cases derived <;> rfl
    | write i w =>
      cases e' with
      | describe name nodes => rfl
      | write j v => simp only [Edit.apply, applyAt_put_put]
      | filmBack c => cases derived <;> simp only [Edit.apply, readFilmBack, applyAt_put]
      | lens c => cases derived <;> simp only [Edit.apply, readLens, applyAt_put]

theorem apply_matches (s : Subject α β) (e : Edit β) (e' : Entry β) :
    e'.Matches (Edit.apply s e) ↔ e'.Matches s := by
  rw [Entry.Matches, Entry.Matches, apply_mUuid, apply_kind]

theorem amend_overwriting : Overwriting (amend (α := α) (β := β)) :=
  apply_overwriting.guarded (P := Entry.Matches) Entry.edit apply_matches

theorem amend_identity (s : Subject α β) (e : Entry β) :
    (amend s e).mUuid = s.mUuid ∧ (amend s e).kind = s.kind := by
  rw [amend]
  split
  · exact ⟨apply_mUuid s e.edit, apply_kind s e.edit⟩
  · exact ⟨rfl, rfl⟩

theorem amends_identity (s : Subject α β) (es : List (Entry β)) :
    (es.foldl amend s).mUuid = s.mUuid ∧ (es.foldl amend s).kind = s.kind := by
  induction es generalizing s with
  | nil => exact ⟨rfl, rfl⟩
  | cons e es ih =>
    obtain ⟨hu, hk⟩ := amend_identity s e
    rw [List.foldl_cons, (ih _).1, (ih _).2, hu, hk]
    exact ⟨rfl, rfl⟩

/-- Entries for one subject are all taken or all passed over. -/
theorem amends_map (T : SubjectKind) (uuid : String) (es : List (Edit β)) (s : Subject α β) :
    (es.map fun e => ⟨T, uuid, e⟩).foldl amend s =
      if s.mUuid = uuid ∧ s.kind = T then es.foldl Edit.apply s else s := by
  induction es generalizing s with
  | nil => simp
  | cons e es ih =>
    rw [List.map_cons, List.foldl_cons, ih, (amend_identity s _).1, (amend_identity s _).2]
    by_cases hs : s.mUuid = uuid ∧ s.kind = T
    · rw [if_pos hs, if_pos hs, List.foldl_cons, amend, if_pos (by exact hs)]
    · rw [if_neg hs, if_neg hs, amend, if_neg (by exact hs)]

/-! ### The entries of a packet -/

/-- The writes of an update, in the order in which they are read. -/
def Data.SubjectUpdate.edits (u : Data.SubjectUpdate β) : List (Edit β) :=
  (u.translation.getD []).map (fun d => .write d.i (.translation d.value)) ++
    (u.rotation.getD []).map (fun d => .write d.i (.rotation d.value)) ++
    (u.scale.getD []).map (fun d => .write d.i (.scale d.value))

theorem writes_eq {γ : Type} (w : γ → Write β) (us : List (Data.Indexed γ)) (s : Subject α β) :
    (us.map fun d => Edit.write d.i (w d.value)).foldl Edit.apply s =
      { s with mTransforms := Subject.applyUpdates (fun d => (w d).put) us s.mTransforms } := by
  induction us generalizing s with
  | nil => rfl
  | cons u us ih =>
    rw [List.map_cons, List.foldl_cons, ih]
    rfl

theorem applied_eq (u : Data.SubjectUpdate β) (s : Subject α β) :
    u.applied s = u.edits.foldl Edit.apply s := by
  rw [Data.SubjectUpdate.edits, List.foldl_append, List.foldl_append, writes_eq, writes_eq,
    writes_eq]
  rfl

section loops

variable {δ : Type} (T : SubjectKind) (extra : δ → List (Edit β))

/-- The edits that a class adds to those of every subject. -/
def Adds (finish : δ → Subject α β → Subject α β) (extra : δ → List (Edit β)) : Prop :=
  ∀ d s, finish d s = (extra d).foldl Edit.apply s

theorem adds_nothing : Adds (fun (_ : δ) (s : Subject α β) => s) fun _ => [] := fun _ _ => rfl

theorem adds_filmBack : Adds (readFilmBack (α := α) (β := β)) fun c => [.filmBack c] :=
  fun _ _ => rfl

theorem adds_lens : Adds (readLens (α := α) (β := β)) fun c => [.lens c] := fun _ _ => rfl

/-- The entries of one definition. -/
def definitionEntries (body : δ → Option (Data.SubjectData β)) (d : δ) : List (Entry β) :=
  match body d with
  | some data => (.describe (data.name.getD "") (data.nodes.getD []) :: extra d).map fun e =>
      ⟨T, data.uuid.getD "", e⟩
  | none => []

def updateEntries (body : δ → Option (Data.SubjectUpdate β)) (u : δ) : List (Entry β) :=
  match body u with
  | some data => (data.edits ++ extra u).map fun e => ⟨T, data.uuid.getD "", e⟩
  | none => []

end loops

namespace Data.SubjectList

/-- Everything a packet says, in the order of the loops. -/
def entries (p : Data.SubjectList α β) : List (Entry β) :=
  (p.performers.getD []).flatMap (definitionEntries .performer (fun _ => []) (·.data)) ++
    (p.performer_updates.getD []).flatMap (updateEntries .performer (fun _ => []) (·.data)) ++
    (p.rigidbodies.getD []).flatMap (definitionEntries .rigidbody (fun _ => []) (·.data)) ++
    (p.rigidbody_updates.getD []).flatMap (updateEntries .rigidbody (fun _ => []) (·.data)) ++
    (p.cameras.getD []).flatMap (definitionEntries .camera (fun c => [.filmBack c]) (·.data)) ++
    (p.camera_updates.getD []).flatMap (updateEntries .camera (fun c => [.lens c]) (·.data))

/-- What a packet does to a subject of a list that has every subject it defines. -/
def restate (p : Data.SubjectList α β) (s : Subject α β) : Subject α β := p.entries.foldl amend s

theorem restate_restate (p : Data.SubjectList α β) (s : Subject α β) :
    p.restate (p.restate s) = p.restate s :=
  amend_overwriting.foldl_foldl (fun _ he => he) s

end Data.SubjectList

end Open3DStream
