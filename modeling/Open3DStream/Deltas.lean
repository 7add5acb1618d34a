import Open3DStream.Described
import Open3DStream.Lib.Lists

/-! One subject: what an update emits and what it does to a copy of the subject. -/

namespace Open3DStream

open Lib Numeric

variable {α β : Type} [Numeric α β]

namespace Transform

theorem markSent_translation (threshold : α) (t : Transform α) :
    (t.markSent threshold).translation =
      if t.allFinite = true ∧ threshold < t.translation.delta then t.translation.sent
      else t.translation := by
  rw [markSent]
  by_cases hf : t.allFinite = true
  · simp [hf]
  · simp [hf]

theorem markSent_rotation (threshold : α) (t : Transform α) :
    (t.markSent threshold).rotation =
      if t.allFinite = true ∧ threshold < t.rotation.delta then t.rotation.sent else t.rotation := by
  rw [markSent]
  by_cases hf : t.allFinite = true
  · simp [hf]
  · simp [hf]

end Transform

theorem applyAt_length (pre : List (Transform α)) (t : Transform α) (post : List (Transform α))
    (f : Transform α → Transform α) :
    Subject.applyAt (pre ++ t :: post) pre.length f = pre ++ f t :: post := by
  have hin : (0 : Int) ≤ pre.length ∧ (pre.length : Int) < (pre ++ t :: post).length := by simp
  rw [Subject.applyAt, if_pos hin, Int.toNat_natCast, modify_length]

theorem applyUpdates_cons {γ : Type} (f : γ → Transform α → Transform α) (u : Data.Indexed γ)
    (us : List (Data.Indexed γ)) (ts : List (Transform α)) :
    Subject.applyUpdates f (u :: us) ts =
      Subject.applyUpdates f us (Subject.applyAt ts u.i (f u.value)) := rfl

/-- Entries emitted index by index change the transforms index by index. -/
theorem applyUpdates_emitted {γ : Type} (f : γ → Transform α → Transform α)
    (emit : Transform α → Option γ) {ss ts : List (Transform α)} (h : ss.length = ts.length) :
    Subject.applyUpdates f
        (ss.zipIdx.filterMap fun p => (emit p.1).map fun v => ⟨v, (p.2 : Int)⟩) ts =
      List.zipWith (fun s t => (emit s).elim t fun v => f v t) ss ts := by
  -- the transforms before the current index are already done
  have main : ∀ (ss ts pre : List (Transform α)), ss.length = ts.length →
      Subject.applyUpdates f
          ((ss.zipIdx pre.length).filterMap fun p => (emit p.1).map fun v => ⟨v, (p.2 : Int)⟩)
          (pre ++ ts) =
        pre ++ List.zipWith (fun s t => (emit s).elim t fun v => f v t) ss ts := by
    intro ss
    induction ss with
    | nil =>
      intro ts pre hlen
      rw [List.length_eq_zero_iff.mp hlen.symm]
      rfl
    | cons s ss ih =>
      intro ts pre hlen
      cases ts with
      | nil => cases hlen
      | cons t ts =>
        have hlen' : ss.length = ts.length := by simpa using hlen
        have hmove (t' : Transform α) : pre ++ t' :: ts = (pre ++ [t']) ++ ts := by simp
        have hnext (t' : Transform α) := ih ts (pre ++ [t']) hlen'
        simp only [List.length_append, List.length_singleton] at hnext
        rw [List.zipIdx_cons, List.zipWith_cons_cons]
        cases he : emit s with
        | none =>
          rw [List.filterMap_cons_none (by simp [he]), hmove, hnext]
          simp
        | some v =>
          rw [List.filterMap_cons_some (by simp only [he, Option.map_some]; rfl),
            applyUpdates_cons, applyAt_length, hmove, hnext]
          simp
  exact main ss ts [] h

namespace Transform

/-- The value an update emits for a transform. -/
def emitTranslation (threshold : α) (t : Transform α) : Option (Vector3d β) :=
  if t.allFinite && decide (threshold < t.translation.delta) then some t.translation.write else none

def emitRotation (threshold : α) (t : Transform α) : Option (Quaterniond β) :=
  if t.allFinite && decide (threshold < t.rotation.delta) then some t.rotation.write else none

theorem translationUpdate_eq (threshold : α) (id : Nat) (t : Transform α) :
    t.translationUpdate threshold id =
      (t.emitTranslation (β := β) threshold).map fun v => ⟨v, (id : Int)⟩ := by
  rw [translationUpdate, emitTranslation]
  split <;> rfl

theorem rotationUpdate_eq (threshold : α) (id : Nat) (t : Transform α) :
    t.rotationUpdate threshold id =
      (t.emitRotation (β := β) threshold).map fun v => ⟨v, (id : Int)⟩ := by
  rw [rotationUpdate, emitRotation]
  split <;> rfl

/-- A copy of a transform after the update of the original. -/
def follow (threshold : α) (t u : Transform α) : Transform α :=
  { u with
    translation := (t.emitTranslation (β := β) threshold).elim u.translation .read
    rotation := (t.emitRotation (β := β) threshold).elim u.rotation .read }

end Transform

/-- An update reaches the copy of a subject transform by transform. -/
theorem applied_serializeUpdate (s r : Subject α β) (threshold : α)
    (h : s.mTransforms.length = r.mTransforms.length) :
    (s.serializeUpdate threshold).1.applied r =
      { r with mTransforms :=
        List.zipWith (Transform.follow (β := β) threshold) s.mTransforms r.mTransforms } := by
  have ht := applyUpdates_emitted Subject.readTranslation
    (Transform.emitTranslation (β := β) threshold) h
  have hlen : s.mTransforms.length = (List.zipWith (fun s t =>
      (s.emitTranslation (β := β) threshold).elim t fun v => Subject.readTranslation v t)
        s.mTransforms r.mTransforms).length := by simp [h]
  have hr := applyUpdates_emitted Subject.readRotation
    (Transform.emitRotation (β := β) threshold) hlen
  simp only [Data.SubjectUpdate.applied, Subject.serializeUpdate, Option.getD_some,
    Transform.translationUpdate_eq, Transform.rotationUpdate_eq, ht, hr, zipWith_zipWith]
  congr 1
  change List.zipWith _ _ _ = _
  congr 1
  funext t u
  simp only [Transform.follow, Subject.readTranslation, Subject.readRotation]
  cases t.emitTranslation (β := β) threshold <;> cases t.emitRotation (β := β) threshold <;> rfl

end Open3DStream
