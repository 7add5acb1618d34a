import Open3DStream.Evaluate

namespace Open3DStream

variable {α β : Type} [Numeric α β]

namespace Transform

/-- The matrices that `update` multiplies, where each `TMatrix` takes the next of
the given matrices. -/
def factors (t : Transform α) : List ComponentType → List (TransformMatrix α) → List (Matrix α)
  | [], _ => []
  | .TTranslation :: ops, ms => translate t.translation.value :: factors t ops ms
  | .TRotation :: ops, ms => fromQuaternion t.rotation.value :: factors t ops ms
  | .TScale :: ops, ms => Open3DStream.scale t.scale.value :: factors t ops ms
  | .TMatrix :: ops, ms => (ms.head?.map (·.value)).toList ++ factors t ops ms.tail
  | .TOrientation :: ops, ms => factors t ops ms

/-- The ordered product of the components. -/
def localMatrix (t : Transform α) : Matrix α :=
  (t.factors t.mTransformOrder t.mMatrices).foldl (· * ·) Matrix.identity

def EnoughMatrices (t : Transform α) : Prop :=
  t.mTransformOrder.count .TMatrix ≤ t.mMatrices.length

instance (t : Transform α) : Decidable t.EnoughMatrices :=
  inferInstanceAs (Decidable (_ ≤ _))

theorem foldlM_updateStep (t : Transform α) (ops : List ComponentType) (m : Matrix α) (k : Nat) :
    ops.foldlM (updateStep t) (m, k) =
      if ops.count .TMatrix + k ≤ t.mMatrices.length ∨ ops.count .TMatrix = 0 then
        some ((t.factors ops (t.mMatrices.drop k)).foldl (· * ·) m, k + ops.count .TMatrix)
      else none := by
  induction ops generalizing m k with
  | nil => simp [factors]
  | cons op ops ih =>
    cases op with
    | TTranslation | TRotation | TScale | TOrientation =>
      simp [List.foldlM_cons, updateStep, ih, factors]
    | TMatrix =>
      simp only [List.foldlM_cons, updateStep, List.count_cons_self, factors]
      cases hm : t.mMatrices[k]? with
      | none =>
        have hk : t.mMatrices.length ≤ k := List.getElem?_eq_none_iff.mp hm
        rw [if_neg (by omega)]
        rfl
      | some a =>
        have hk : k < t.mMatrices.length := (List.getElem?_eq_some_iff.mp hm).1
        have hd : t.mMatrices.drop k = a :: t.mMatrices.drop (k + 1) := by
          rw [List.drop_eq_getElem_cons hk, (List.getElem?_eq_some_iff.mp hm).2]
        simp only [Option.bind_eq_bind, Option.bind_some, ih, hd, List.head?_cons, Option.map_some,
          Option.toList_some, List.tail_cons, List.singleton_append, List.foldl_cons]
        have hc : (ops.count ComponentType.TMatrix + (k + 1) ≤ t.mMatrices.length ∨
            ops.count ComponentType.TMatrix = 0) ↔
            (ops.count ComponentType.TMatrix + 1 + k ≤ t.mMatrices.length ∨
              ops.count ComponentType.TMatrix + 1 = 0) := by omega
        simp only [hc]
        split
        · rw [Nat.add_assoc, Nat.add_comm 1]
        · rfl

theorem update_eq {t : Transform α} (h : t.EnoughMatrices) :
    t.update = some { t with bWorldMatrix := false, mMatrix := t.localMatrix } := by
  have hc : t.mTransformOrder.count .TMatrix + 0 ≤ t.mMatrices.length := h
  rw [update, foldlM_updateStep, if_pos (.inl hc)]
  rfl

theorem update_eq_none {t : Transform α} (h : ¬t.EnoughMatrices) : t.update = none := by
  have hc : ¬(t.mTransformOrder.count .TMatrix + 0 ≤ t.mMatrices.length ∨
      t.mTransformOrder.count .TMatrix = 0) := by
    intro hc
    apply h
    rw [EnoughMatrices]
    omega
  rw [update, foldlM_updateStep, if_neg hc]
  rfl

/-- The transform that `update` leaves. -/
def updated (t : Transform α) : Transform α :=
  { t with bWorldMatrix := false, mMatrix := t.localMatrix }

@[simp] theorem updated_mParentId (t : Transform α) : t.updated.mParentId = t.mParentId := rfl

@[simp] theorem updated_mMatrix (t : Transform α) : t.updated.mMatrix = t.localMatrix := rfl

theorem allFinite_iff (t : Transform α) : t.allFinite = true ↔
    t.mMatrix.allFinite = true ∧ t.mWorldMatrix.allFinite = true ∧ t.valuesFinite = true := by
  simp [allFinite, and_assoc]

theorem valuesFinite_iff (t : Transform α) : t.valuesFinite = true ↔
    t.translation.value.allFinite = true ∧ t.scale.value.allFinite = true ∧
      t.rotation.value.allFinite = true ∧ ∀ m ∈ t.mMatrices, m.value.allFinite = true := by
  simp [valuesFinite, and_assoc]

theorem factors_allFinite [ExactArith α] {t : Transform α} (h : t.valuesFinite = true)
    (ops : List ComponentType) {ms : List (TransformMatrix α)}
    (hms : ∀ a ∈ ms, a.value.allFinite = true) : ∀ m ∈ t.factors ops ms, m.allFinite = true := by
  obtain ⟨ht, hs, hr, -⟩ := t.valuesFinite_iff.mp h
  induction ops generalizing ms with
  | nil => exact fun m hm => absurd hm List.not_mem_nil
  | cons op ops ih =>
    cases op with
    | TTranslation => exact List.forall_mem_cons.mpr ⟨allFinite_translate ht, ih hms⟩
    | TRotation => exact List.forall_mem_cons.mpr ⟨allFinite_fromQuaternion hr, ih hms⟩
    | TScale => exact List.forall_mem_cons.mpr ⟨allFinite_scale hs, ih hms⟩
    | TOrientation => exact ih hms
    | TMatrix =>
      cases ms with
      | nil => exact ih hms
      | cons a ms =>
        obtain ⟨ha, hms⟩ := List.forall_mem_cons.mp hms
        exact List.forall_mem_cons.mpr ⟨ha, ih hms⟩

/-- Over exact arithmetic finite values have a finite product. -/
theorem localMatrix_allFinite [ExactArith α] {t : Transform α} (h : t.valuesFinite = true) :
    t.localMatrix.allFinite = true := by
  obtain ⟨-, -, -, hm⟩ := t.valuesFinite_iff.mp h
  exact Matrix.allFinite_foldl (factors_allFinite h _ hm) Matrix.allFinite_identity

end Transform

namespace Evaluate

/-- What the first loop asks of a transform. -/
def Evaluable (t : Transform α) : Prop :=
  t.allFinite = true ∧ t.EnoughMatrices ∧ t.localMatrix.allFinite = true

theorem updated_allFinite {t : Transform α} (h : t.allFinite = true) :
    t.updated.allFinite = t.localMatrix.allFinite := by
  rw [Transform.allFinite_iff] at h
  have hw : t.updated.mWorldMatrix.allFinite = true := h.2.1
  have hv : t.updated.valuesFinite = true := h.2.2
  simp [Transform.allFinite, hw, hv]

theorem locals_cons {t : Transform α} (ts : List (Transform α)) (h : Evaluable t) :
    locals (t :: ts) = (locals ts).map fun r => (r.1, t.updated :: r.2) := by
  obtain ⟨hf, he, hl⟩ := h
  have hu := updated_allFinite hf
  rw [hl] at hu
  have hup : t.update = some t.updated := Transform.update_eq he
  rw [locals, hf, hup, Option.bind_eq_bind, Option.bind_some, hu]
  cases locals ts <;> rfl

/-- The loop stops at a transform that it does not accept: it reads past the end of
`mMatrices` where the transform is short of matrices, and fails else. -/
theorem locals_stop {t : Transform α} (ts : List (Transform α)) (h : ¬Evaluable t) :
    (t.allFinite = true ∧ ¬t.EnoughMatrices ∧ locals (t :: ts) = none) ∨
      (¬(t.allFinite = true ∧ ¬t.EnoughMatrices) ∧ ∃ e us, locals (t :: ts) = some (some e, us)) := by
  rw [locals]
  by_cases hf : t.allFinite = true
  · by_cases he : t.EnoughMatrices
    · have hl : t.localMatrix.allFinite = false := by
        rw [← Bool.not_eq_true]
        exact fun hl => h ⟨hf, he, hl⟩
      have hu := updated_allFinite hf
      have hup : t.update = some t.updated := Transform.update_eq he
      rw [hl] at hu
      exact .inr ⟨fun hn => hn.2 he, "Bad calc for: " ++ t.updated.mName, t.updated :: ts,
        by simp [hf, hup, hu]⟩
    · exact .inl ⟨hf, he, by simp [hf, Transform.update_eq_none he]⟩
  · exact .inr ⟨fun hn => hf hn.1, "Invalid xform: " ++ t.mName, t :: ts, by simp [hf]⟩

/-- The first loop reads past the end of `mMatrices` at the first transform that is
short of matrices, if it gets that far. -/
theorem locals_eq_none_iff (ts : List (Transform α)) :
    locals ts = none ↔ ∃ before t after, ts = before ++ t :: after ∧
      (∀ u ∈ before, Evaluable u) ∧ t.allFinite = true ∧ ¬t.EnoughMatrices := by
  induction ts with
  | nil => simp [locals]
  | cons t ts ih =>
    by_cases h : Evaluable t
    · rw [locals_cons ts h, Option.map_eq_none_iff, ih]
      refine ⟨?_, ?_⟩
      · rintro ⟨before, u, after, rfl, hb, hu⟩
        exact ⟨t :: before, u, after, rfl, List.forall_mem_cons.mpr ⟨h, hb⟩, hu⟩
      · rintro ⟨before, u, after, he, hb, hf, hn⟩
        cases before with
        | nil =>
          cases he
          exact absurd h.2.1 hn
        | cons b before =>
          cases he
          exact ⟨before, u, after, rfl, (List.forall_mem_cons.mp hb).2, hf, hn⟩
    · obtain ⟨hf, hn, hs⟩ | ⟨hn, e, us, hs⟩ := locals_stop ts h
      · exact iff_of_true hs ⟨[], t, ts, rfl, fun u hu => absurd hu List.not_mem_nil, hf, hn⟩
      · refine iff_of_false (by rw [hs]; exact Option.some_ne_none _) ?_
        rintro ⟨before, u, after, he, hb, hu⟩
        cases before with
        | nil =>
          cases he
          exact hn hu
        | cons b before =>
          cases he
          exact h (hb t List.mem_cons_self)

/-- The first loop succeeds exactly when every transform is finite before and after
its update, which needs a matrix for each `TMatrix`. -/
theorem locals_none_iff (ts us : List (Transform α)) :
    locals ts = some (none, us) ↔
      (∀ t ∈ ts, Evaluable t) ∧ us = ts.map Transform.updated := by
  induction ts generalizing us with
  | nil =>
    change some (none, []) = some (none, us) ↔ _
    simp [eq_comm]
  | cons t ts ih =>
    by_cases h : Evaluable t
    · rw [locals_cons ts h, Option.map_eq_some_iff]
      refine ⟨?_, ?_⟩
      · rintro ⟨⟨e, vs⟩, hr, he⟩
        cases he
        obtain ⟨hall, rfl⟩ := (ih vs).mp hr
        exact ⟨List.forall_mem_cons.mpr ⟨h, hall⟩, rfl⟩
      · rintro ⟨hall, rfl⟩
        exact ⟨_, (ih _).mpr ⟨(List.forall_mem_cons.mp hall).2, rfl⟩, rfl⟩
    · refine iff_of_false ?_ fun hs => h (hs.1 t List.mem_cons_self)
      obtain ⟨-, -, hs⟩ | ⟨-, e, vs, hs⟩ := locals_stop ts h
      · rw [hs]
        exact (Option.some_ne_none _).symm
      · rw [hs]
        exact nofun

end Evaluate

end Open3DStream
