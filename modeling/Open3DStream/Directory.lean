import Open3DStream.Described
import Open3DStream.Lib.Tagged

/-! Subjects under their uuids. -/

namespace Open3DStream

variable {α β : Type}

/-- The type of the first subject with a uuid. -/
def owner (uuid : String) (items : List (Subject α β)) : Option SubjectKind :=
  (items.find? fun s => decide (s.mUuid = uuid)).map Subject.kind

/-- Change the first subject with a uuid if it is of a type. -/
def edit (T : SubjectKind) (uuid : String) (f : Subject α β → Subject α β) :
    List (Subject α β) → List (Subject α β)
  | [] => []
  | s :: rest =>
    if s.mUuid = uuid then (if s.kind = T then f s else s) :: rest else s :: edit T uuid f rest

theorem owner_cons (uuid : String) (s : Subject α β) (items : List (Subject α β)) :
    owner uuid (s :: items) = if s.mUuid = uuid then some s.kind else owner uuid items := by
  by_cases h : s.mUuid = uuid <;> simp [owner, h]

theorem owner_append (uuid : String) (items more : List (Subject α β)) :
    owner uuid (items ++ more) = (owner uuid items).or (owner uuid more) := by
  induction items with
  | nil => rfl
  | cons s items ih =>
    rw [List.cons_append, owner_cons, owner_cons, ih]
    split <;> rfl

theorem owner_eq_none_iff (uuid : String) (items : List (Subject α β)) :
    owner uuid items = none ↔ uuid ∉ items.map (·.mUuid) := by
  simp [owner]

theorem findSubjectByUuid_eq (T : SubjectKind) (uuid : String) (items : List (Subject α β)) :
    findSubjectByUuid T uuid items = Lib.findTagged Subject.kind (·.mUuid) T uuid items := by
  induction items with
  | nil => rfl
  | cons s items ih => rw [findSubjectByUuid, Lib.findTagged, ih]

theorem find_eq_none_iff (T : SubjectKind) (uuid : String) (items : List (Subject α β)) :
    findSubjectByUuid T uuid items = none ↔ owner uuid items ≠ some T := by
  rw [findSubjectByUuid_eq, ← Option.not_isSome_iff_eq_none, Lib.findTagged_isSome_iff]
  exact Iff.rfl

theorem owner_of_find {T : SubjectKind} {uuid : String} {items : List (Subject α β)} {k : Nat}
    (h : findSubjectByUuid T uuid items = some k) : owner uuid items = some T := by
  by_contra ho
  rw [(find_eq_none_iff T uuid items).mpr ho] at h
  cases h

/-- A step on the subject that is found is a step on the directory. -/
theorem modifyAt_find {T : SubjectKind} {uuid : String} {items r : List (Subject α β)} {k : Nat}
    {f : Subject α β → Option (Subject α β)} {P : Prop} {g : Subject α β → Subject α β}
    (h : ∀ s s', f s = some s' ↔ P ∧ s' = g s) (hk : findSubjectByUuid T uuid items = some k) :
    modifyAt items k f = some r ↔ P ∧ r = edit T uuid g items := by
  induction items generalizing k r with
  | nil => cases hk
  | cons s items ih =>
    rw [findSubjectByUuid] at hk
    by_cases hu : s.mUuid = uuid
    · by_cases hT : s.kind = T
      · simp only [if_pos hu, if_pos hT, Option.some.injEq] at hk
        subst hk
        have hhead : modifyAt (s :: items) 0 f = (f s).map (· :: items) := by
          rw [modifyAt, List.getElem?_cons_zero, Option.bind_eq_bind, Option.bind_some]
          cases f s <;> rfl
        rw [hhead, edit, if_pos hu, if_pos hT]
        exact Lib.map_eq_some_iff (h s) (· :: items) r
      · simp [hu, hT] at hk
    · rw [if_neg hu, Option.map_eq_some_iff] at hk
      obtain ⟨j, hj, rfl⟩ := hk
      have hcons : modifyAt (s :: items) (j + 1) f = (modifyAt items j f).map (s :: ·) := by
        simp only [modifyAt]
        rw [List.getElem?_cons_succ]
        cases items[j]? with
        | none => rfl
        | some t => cases hf : f t <;> simp [hf]
      rw [hcons, edit, if_neg hu]
      exact Lib.map_eq_some_iff (fun _ => ih hj) (s :: ·) r

theorem modifyAt_end (items : List (Subject α β)) (s : Subject α β)
    (f : Subject α β → Option (Subject α β)) :
    modifyAt (items ++ [s]) items.length f = (f s).map fun s' => items ++ [s'] := by
  rw [modifyAt, List.getElem?_concat_length]
  cases hf : f s <;> simp [hf]

theorem edit_of_owner_ne {T : SubjectKind} {uuid : String} {items : List (Subject α β)}
    (f : Subject α β → Subject α β) (h : owner uuid items ≠ some T) : edit T uuid f items = items := by
  induction items with
  | nil => rfl
  | cons s items ih =>
    rw [owner_cons] at h
    rw [edit]
    by_cases hu : s.mUuid = uuid
    · rw [if_pos hu] at h ⊢
      rw [if_neg (fun hT => h (congrArg some hT))]
    · rw [if_neg hu] at h ⊢
      rw [ih h]

theorem edit_append {T : SubjectKind} {uuid : String} {items : List (Subject α β)}
    (f : Subject α β → Subject α β) (h : uuid ∉ items.map (·.mUuid)) (more : List (Subject α β)) :
    edit T uuid f (items ++ more) = items ++ edit T uuid f more := by
  induction items with
  | nil => rfl
  | cons s items ih =>
    have hu : s.mUuid ≠ uuid := by
      intro hu
      apply h
      simp [hu]
    have hrest : uuid ∉ items.map (·.mUuid) := fun hm => h (by simp [hm])
    rw [List.cons_append, edit, if_neg hu, ih hrest, List.cons_append]

/-- A change that keeps uuid and type keeps the directory. -/
def Keeps (uuid : String) (f : Subject α β → Subject α β) : Prop :=
  ∀ s, s.mUuid = uuid → (f s).mUuid = uuid ∧ (f s).kind = s.kind

theorem owner_edit {T : SubjectKind} {uuid : String} {f : Subject α β → Subject α β}
    (hf : Keeps uuid f) (u : String) (items : List (Subject α β)) :
    owner u (edit T uuid f items) = owner u items := by
  induction items with
  | nil => rfl
  | cons s items ih =>
    rw [edit]
    by_cases hu : s.mUuid = uuid
    · rw [if_pos hu, owner_cons, owner_cons]
      split
      · rename_i hT
        rw [(hf s hu).1, (hf s hu).2, hu]
      · rfl
    · rw [if_neg hu, owner_cons, owner_cons, ih]

variable [Numeric α β]

/-- Change the subject of a type and uuid, or add it. -/
def define (T : SubjectKind) (uuid : String) (f : Subject α β → Subject α β)
    (items : List (Subject α β)) : List (Subject α β) :=
  if owner uuid items = some T then edit T uuid f items else items ++ [f (Subject.make T uuid)]

@[simp] theorem make_kind (T : SubjectKind) (uuid : String) :
    (Subject.make T uuid : Subject α β).kind = T := by
  cases T <;> rfl

theorem modifyAt_findOrAdd {T : SubjectKind} {uuid : String} {items r : List (Subject α β)}
    {f : Subject α β → Option (Subject α β)} {P : Prop} {g : Subject α β → Subject α β}
    (h : ∀ s s', f s = some s' ↔ P ∧ s' = g s) :
    modifyAt (findOrAddSubject T uuid items).1 (findOrAddSubject T uuid items).2 f = some r ↔
      P ∧ r = define T uuid g items := by
  rw [findOrAddSubject, define]
  cases hk : findSubjectByUuid T uuid items with
  | some k =>
    rw [if_pos (owner_of_find hk)]
    exact modifyAt_find h hk
  | none =>
    rw [if_neg ((find_eq_none_iff T uuid items).mp hk), modifyAt_end]
    exact Lib.map_eq_some_iff (h _) (fun s' => items ++ [s']) r

theorem owner_define {T : SubjectKind} {uuid : String} {f : Subject α β → Subject α β}
    (hf : Keeps uuid f) (u : String) (items : List (Subject α β)) :
    owner u (define T uuid f items) =
      (owner u items).or (if uuid = u then some T else none) := by
  rw [define]
  split
  · rename_i ho
    rw [owner_edit hf]
    by_cases hu : uuid = u
    · rw [← hu, ho]
      rfl
    · rw [if_neg hu, Option.or_none]
  · obtain ⟨hu, hk⟩ := hf (Subject.make T uuid) rfl
    rw [owner_append, owner_cons, hu, hk, make_kind]
    rfl

end Open3DStream
