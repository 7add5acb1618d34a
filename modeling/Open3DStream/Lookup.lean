import Open3DStream.Populate

/-! What the loops of `parse` do to the subject under one uuid. -/

namespace Open3DStream

variable {α β : Type}

/-- The first subject with a uuid. -/
def subjectOf (uuid : String) (items : List (Subject α β)) : Option (Subject α β) :=
  items.find? fun s => decide (s.mUuid = uuid)

theorem owner_eq_map (uuid : String) (items : List (Subject α β)) :
    owner uuid items = (subjectOf uuid items).map Subject.kind := rfl

theorem subjectOf_cons (uuid : String) (s : Subject α β) (items : List (Subject α β)) :
    subjectOf uuid (s :: items) = if s.mUuid = uuid then some s else subjectOf uuid items := by
  by_cases h : s.mUuid = uuid <;> simp [subjectOf, h]

theorem subjectOf_append (uuid : String) (items more : List (Subject α β)) :
    subjectOf uuid (items ++ more) = (subjectOf uuid items).or (subjectOf uuid more) :=
  List.find?_append

theorem mUuid_of_subjectOf {uuid : String} {items : List (Subject α β)} {s : Subject α β}
    (h : subjectOf uuid items = some s) : s.mUuid = uuid := by
  simpa using List.find?_some h

theorem mem_of_subjectOf {uuid : String} {items : List (Subject α β)} {s : Subject α β}
    (h : subjectOf uuid items = some s) : s ∈ items := List.mem_of_find?_eq_some h

/-- The search by type and uuid finds it, if it is of the type. -/
theorem getElem?_find (T : SubjectKind) (uuid : String) (items : List (Subject α β)) :
    (findSubjectByUuid T uuid items).bind (items[·]?) =
      (subjectOf uuid items).filter fun s => decide (s.kind = T) := by
  induction items with
  | nil => rfl
  | cons s items ih =>
    rw [findSubjectByUuid, subjectOf_cons]
    by_cases hu : s.mUuid = uuid
    · by_cases hT : s.kind = T <;> simp [hu, hT, Option.filter]
    · simpa [hu, Option.bind_map, Function.comp_def] using ih

/-- The subject under another uuid is not the one that is changed. -/
theorem map_changed_ne {T : SubjectKind} {uuid u : String} (hne : uuid ≠ u)
    (f : Subject α β → Subject α β) (items : List (Subject α β)) :
    ((subjectOf u items).map fun s => if s.mUuid = uuid ∧ s.kind = T then f s else s) =
      subjectOf u items := by
  cases hs : subjectOf u items with
  | none => rfl
  | some s =>
    have hs' : s.mUuid ≠ uuid := fun he => hne (he.symm.trans (mUuid_of_subjectOf hs))
    simp [hs']

theorem subjectOf_edit (T : SubjectKind) {uuid : String} {f : Subject α β → Subject α β}
    (hf : Keeps uuid f) (u : String) (items : List (Subject α β)) :
    subjectOf u (edit T uuid f items) =
      (subjectOf u items).map fun s => if s.mUuid = uuid ∧ s.kind = T then f s else s := by
  induction items with
  | nil => rfl
  | cons s items ih =>
    rw [edit]
    by_cases hu : s.mUuid = uuid
    · rw [if_pos hu, subjectOf_cons, subjectOf_cons]
      have huuid : (if s.kind = T then f s else s).mUuid = s.mUuid := by
        split
        · rw [(hf s hu).1, hu]
        · rfl
      rw [huuid]
      by_cases hs : s.mUuid = u
      · simp [← hs, hu]
      · rw [if_neg hs, if_neg hs, map_changed_ne fun he => hs (hu.trans he)]
    · rw [if_neg hu, subjectOf_cons, subjectOf_cons, ih]
      by_cases hs : s.mUuid = u <;> simp [hs]
      intro he
      exact absurd (hs.trans he) hu

variable [Numeric α β]

theorem subjectOf_define (T : SubjectKind) {uuid : String} {f : Subject α β → Subject α β}
    (hf : Keeps uuid f) (u : String) (items : List (Subject α β)) :
    subjectOf u (define T uuid f items) =
      ((subjectOf u items).or (if uuid = u then some (Subject.make T uuid) else none)).map
        fun s => if s.mUuid = uuid ∧ s.kind = T then f s else s := by
  rw [define]
  split
  · rename_i ho
    rw [subjectOf_edit T hf]
    by_cases hu : uuid = u
    · subst hu
      obtain ⟨s, hs, -⟩ := Option.map_eq_some_iff.mp ho
      have hs' : subjectOf uuid items = some s := hs
      rw [hs']
      rfl
    · rw [if_neg hu, Option.or_none]
  · rename_i ho
    obtain ⟨huuid, hkind⟩ := hf (Subject.make T uuid) rfl
    rw [subjectOf_append, subjectOf_cons, huuid]
    cases hs : subjectOf u items with
    | none =>
      have hmake (v : String) : (Subject.make T v : Subject α β).mUuid = v := rfl
      by_cases hu : uuid = u <;> simp [hu, subjectOf, hmake]
    | some s =>
      have hne : ¬(s.mUuid = uuid ∧ s.kind = T) := by
        rintro ⟨hu, hT⟩
        apply ho
        rw [owner_eq_map, ← hu, mUuid_of_subjectOf hs, hs, Option.map_some, hT]
      simp [hne]

/-! ### The fields of a class -/

/-- The class of the first subject with a uuid, and its fields. -/
def derivedOf (uuid : String) (items : List (Subject α β)) : Option (Derived β) :=
  (subjectOf uuid items).map (·.derived)

section loops

variable {δ : Type} {T : SubjectKind} {finish : δ → Subject α β → Subject α β}
  {g : δ → Derived β → Derived β}

/-- What a class adds is a change of its own fields. -/
def Refines (finish : δ → Subject α β → Subject α β) (g : δ → Derived β → Derived β) : Prop :=
  ∀ d s, (finish d s).derived = g d s.derived

theorem derivedOf_updating_ne (hf : Finishes finish) {body : δ → Option (Data.SubjectUpdate β)}
    {d : δ} {u : String} (h : ∀ data, body d = some data → data.uuid.getD "" ≠ u)
    (items : List (Subject α β)) :
    derivedOf u (updating T body finish items d) = derivedOf u items := by
  rw [derivedOf, derivedOf, updating]
  cases hb : body d with
  | none => rfl
  | some data =>
    dsimp only
    rw [subjectOf_edit T (keeps_applied hf d data _), map_changed_ne (h data hb)]

theorem derivedOf_updating_eq (hf : Finishes finish) (hg : Refines finish g)
    {body : δ → Option (Data.SubjectUpdate β)} {d : δ} {data : Data.SubjectUpdate β}
    (hb : body d = some data) (items : List (Subject α β)) :
    derivedOf (data.uuid.getD "") (updating T body finish items d) =
      (derivedOf (data.uuid.getD "") items).map fun x => if x.kind = T then g d x else x := by
  rw [derivedOf, derivedOf, updating, hb]
  dsimp only
  rw [subjectOf_edit T (keeps_applied hf d data _), Option.map_map, Option.map_map]
  cases hs : subjectOf (data.uuid.getD "") items with
  | none => rfl
  | some s =>
    have hd : (finish d (data.applied s)).derived = g d s.derived := hg d (data.applied s)
    by_cases hT : s.kind = T
    · have hT' : s.derived.kind = T := hT
      simp [mUuid_of_subjectOf hs, hT, hT', hd]
    · have hT' : ¬s.derived.kind = T := hT
      simp [hT, hT']

theorem derivedOf_defining_ne (hf : Finishes finish) {body : δ → Option (Data.SubjectData β)}
    {d : δ} {u : String} (h : ∀ data, body d = some data → data.uuid.getD "" ≠ u)
    (items : List (Subject α β)) :
    derivedOf u (defining T body finish items d) = derivedOf u items := by
  rw [derivedOf, derivedOf, defining]
  cases hb : body d with
  | none => rfl
  | some data =>
    dsimp only
    rw [subjectOf_define T (keeps_described hf d data), if_neg (h data hb), Option.or_none,
      map_changed_ne (h data hb)]

theorem derivedOf_defining_eq (hf : Finishes finish) (hg : Refines finish g)
    {body : δ → Option (Data.SubjectData β)} {d : δ} {data : Data.SubjectData β}
    (hb : body d = some data) (items : List (Subject α β)) :
    derivedOf (data.uuid.getD "") (defining T body finish items d) =
      ((derivedOf (data.uuid.getD "") items).or
        (some (Subject.make T (data.uuid.getD "") : Subject α β).derived)).map
          fun x => if x.kind = T then g d x else x := by
  rw [derivedOf, derivedOf, defining, hb]
  dsimp only
  rw [subjectOf_define T (keeps_described hf d data), if_pos rfl, Option.map_map]
  have hd (s : Subject α β) : (finish d (data.described s)).derived = g d s.derived :=
    hg d (data.described s)
  cases hs : subjectOf (data.uuid.getD "") items with
  | none =>
    have hmake : (Subject.make T (data.uuid.getD "") : Subject α β).derived.kind = T :=
      make_kind T _
    have huuid : (Subject.make T (data.uuid.getD "") : Subject α β).mUuid = data.uuid.getD "" := rfl
    simp [hmake, huuid, hd]
  | some s =>
    by_cases hT : s.kind = T
    · have hT' : s.derived.kind = T := hT
      simp [mUuid_of_subjectOf hs, hT, hT', hd]
    · have hT' : ¬s.derived.kind = T := hT
      simp [hT, hT']

end loops

end Open3DStream
