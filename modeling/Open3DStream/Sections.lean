import Open3DStream.Narrowed

/-! What a sender puts on the wire: one entry for each enabled subject, by type. -/

namespace Open3DStream

variable {α β : Type}

/-- The enabled subjects of a type, in list order. -/
def onAir (T : SubjectKind) (items : List (Subject α β)) : List (Subject α β) :=
  items.filter fun s => s.mEnabled && decide (s.kind = T)

theorem onAir_cons (T : SubjectKind) (s : Subject α β) (items : List (Subject α β)) :
    onAir T (s :: items) =
      if s.mEnabled = true ∧ s.kind = T then s :: onAir T items else onAir T items := by
  simp [onAir, List.filter_cons]

variable [Numeric α β]

namespace Subject

/-- The subject once a full packet has been written. -/
def sentFull (threshold : α) (s : Subject α β) : Subject α β :=
  if s.mEnabled then (s.serialize.2.serializeUpdate threshold).2.2 else s

/-- The subject once an update has been written. -/
def sentUpdate (threshold : α) (s : Subject α β) : Subject α β :=
  if s.mEnabled then (s.serializeUpdate threshold).2.2 else s

/-- The update table in a full packet. -/
def fullUpdate (threshold : α) (s : Subject α β) : Data.SubjectUpdate β :=
  (s.serialize.2.serializeUpdate threshold).1

end Subject

def fullSections (threshold : α) (items : List (Subject α β)) : Sections β where
  performers := (onAir .performer items).map fun s => ⟨some s.serialize.1⟩
  performerUpdates := (onAir .performer items).map fun s => ⟨some (s.fullUpdate threshold)⟩
  rigidbodies := (onAir .rigidbody items).map fun s => ⟨some s.serialize.1⟩
  rigidbodyUpdates := (onAir .rigidbody items).map fun s => ⟨some (s.fullUpdate threshold)⟩
  cameras := (onAir .camera items).map fun s => cameraData (α := α) s.lens s.serialize.1
  cameraUpdates := (onAir .camera items).map fun s => cameraUpdateData s.lens (s.fullUpdate threshold)

def updateSections (threshold : α) (items : List (Subject α β)) : Sections β where
  performerUpdates := (onAir .performer items).map fun s => ⟨some (s.serializeUpdate threshold).1⟩
  rigidbodyUpdates := (onAir .rigidbody items).map fun s => ⟨some (s.serializeUpdate threshold).1⟩
  cameraUpdates := (onAir .camera items).map fun s =>
    cameraUpdateData s.lens (s.serializeUpdate threshold).1

theorem serializeItems_eq (threshold : α) (items : List (Subject α β)) :
    serializeItems threshold items =
      (fullSections threshold items, items.map (Subject.sentFull threshold)) := by
  induction items with
  | nil => rfl
  | cons s items ih =>
    rw [serializeItems, ih]
    cases he : s.mEnabled with
    | false => simp [fullSections, onAir_cons, he, Subject.sentFull]
    | true =>
      cases hd : s.derived with
      | performer =>
        have hk : s.kind = .performer := congrArg Derived.kind hd
        simp [fullSections, onAir_cons, he, hk, Subject.sentFull, Subject.fullUpdate]
      | rigidbody =>
        have hk : s.kind = .rigidbody := congrArg Derived.kind hd
        simp [fullSections, onAir_cons, he, hk, Subject.sentFull, Subject.fullUpdate]
      | camera lens =>
        have hk : s.kind = .camera := congrArg Derived.kind hd
        have hl : s.lens = lens := by simp [Subject.lens, hd]
        simp [fullSections, onAir_cons, he, hk, hl, Subject.sentFull, Subject.fullUpdate]

theorem updateItems_eq (threshold : α) (items : List (Subject α β)) :
    (updateItems threshold items).1 = updateSections threshold items ∧
      (updateItems threshold items).2.2 = items.map (Subject.sentUpdate threshold) := by
  induction items with
  | nil => exact ⟨rfl, rfl⟩
  | cons s items ih =>
    obtain ⟨ih₁, ih₂⟩ := ih
    rw [updateItems]
    cases he : s.mEnabled with
    | false => simp [updateSections, onAir_cons, he, Subject.sentUpdate, ih₁, ih₂]
    | true =>
      cases hd : s.derived with
      | performer =>
        have hk : s.kind = .performer := congrArg Derived.kind hd
        simp [updateSections, onAir_cons, he, hk, Subject.sentUpdate, ih₁, ih₂]
      | rigidbody =>
        have hk : s.kind = .rigidbody := congrArg Derived.kind hd
        simp [updateSections, onAir_cons, he, hk, Subject.sentUpdate, ih₁, ih₂]
      | camera lens =>
        have hk : s.kind = .camera := congrArg Derived.kind hd
        have hl : s.lens = lens := by simp [Subject.lens, hd]
        simp [updateSections, onAir_cons, he, hk, hl, Subject.sentUpdate, ih₁, ih₂]

end Open3DStream
