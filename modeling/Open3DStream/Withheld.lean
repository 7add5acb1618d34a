import Open3DStream.Angle
import Open3DStream.Deltas

/-! Which rotations a subject keeps back before they have been written once. -/

namespace Open3DStream

open Numeric

variable {α β : Type}

/-- A subject, and for each of its transforms the rotation last written to a packet. -/
structure Watched (α β : Type) where
  subject : Subject α β
  written : Nat → Option (Quaterniond α)

/-- A sender sets a rotation, or calls `serializeUpdate`. -/
inductive Motion (α : Type) where
  | rotate (i : Nat) (q : Quaterniond α)
  | update (threshold : α)

def Transform.rotated (q : Quaterniond α) (t : Transform α) : Transform α :=
  { t with rotation := { t.rotation with value := q } }

variable [Numeric α β]

def Motion.Finite : Motion α → Prop
  | .rotate _ q => q.allFinite = true
  | .update _ => True

namespace Watched

/-- Nothing has been written yet. -/
def start (s : Subject α β) : Watched α β := ⟨s, fun _ => none⟩

/-- What a table of rotations writes over what was written before. -/
def write (w : Watched α β) (rotations : List (Data.RotationUpdate β)) (i : Nat) :
    Option (Quaterniond α) :=
  if rotations.any fun r => decide (r.i = (i : Int)) then
    w.subject.mTransforms[i]?.map (·.rotation.value)
  else w.written i

def step (w : Watched α β) : Motion α → Watched α β
  | .rotate i q =>
    { w with subject :=
      { w.subject with mTransforms := w.subject.mTransforms.modify i (.rotated q) } }
  | .update threshold =>
    let (table, _, s) := w.subject.serializeUpdate threshold
    ⟨s, w.write (table.rotation.getD [])⟩

def run (w : Watched α β) (motions : List (Motion α)) : Watched α β := motions.foldl step w

/-- Every rotation is within the threshold of the one last written, or of the identity. -/
def Within (w : Watched α β) (threshold : α) : Prop :=
  ∀ i t, w.subject.mTransforms[i]? = some t →
    angularDistance ((w.written i).getD Quaterniond.identity) t.rotation.value ≤ threshold

/-- What has been written is what the transform marked as sent. -/
def Marked (w : Watched α β) : Prop :=
  ∀ i t, w.subject.mTransforms[i]? = some t → ∀ q, w.written i = some q →
    t.allFinite = true ∧ t.rotation.lastSentValue = q

end Watched

namespace Transform

theorem allFinite_rotated {q : Quaterniond α} (hq : q.allFinite = true) {t : Transform α}
    (h : t.allFinite = true) : (t.rotated q).allFinite = true := by
  simp only [allFinite, valuesFinite, Bool.and_eq_true] at h ⊢
  exact ⟨h.1, ⟨h.2.1.1, hq⟩, h.2.2⟩

theorem markSent_allFinite (threshold : α) (t : Transform α) :
    (t.markSent threshold).allFinite = t.allFinite := by
  rw [markSent]
  split
  · simp only [allFinite, valuesFinite]
    congr 4
    · split <;> rfl
    · split <;> rfl
  · rfl

theorem rotationUpdate_index {threshold : α} {id : Nat} {t : Transform α}
    {r : Data.RotationUpdate β} (h : t.rotationUpdate threshold id = some r) :
    r.i = id ∧ t.allFinite = true ∧ threshold < t.rotation.delta := by
  rw [rotationUpdate] at h
  split at h
  · rename_i hc
    cases h
    simp only [Bool.and_eq_true, decide_eq_true_eq] at hc
    exact ⟨rfl, hc⟩
  · cases h

end Transform

/-- The rotations an update writes. -/
theorem rotations_any_iff (s : Subject α β) (threshold : α) (i : Nat) :
    (((s.serializeUpdate threshold).1.rotation.getD []).any fun r => decide (r.i = (i : Int))) ↔
      ∃ t, s.mTransforms[i]? = some t ∧ t.allFinite = true ∧ threshold < t.rotation.delta := by
  change ((s.mTransforms.zipIdx.filterMap fun p => p.1.rotationUpdate (β := β) threshold p.2).any
    fun r => decide (r.i = (i : Int))) = true ↔ _
  simp only [List.any_eq_true, List.mem_filterMap, decide_eq_true_eq, Prod.exists,
    List.mem_zipIdx_iff_getElem?]
  refine ⟨?_, ?_⟩
  · rintro ⟨r, ⟨t, j, ht, hr⟩, hi⟩
    obtain ⟨hj, hf, hd⟩ := Transform.rotationUpdate_index hr
    have hji : j = i := Int.ofNat_inj.mp (hj.symm.trans hi)
    exact ⟨t, hji ▸ ht, hf, hd⟩
  · rintro ⟨t, ht, hf, hd⟩
    refine ⟨⟨t.rotation.write, i⟩, ⟨t, i, ht, ?_⟩, rfl⟩
    rw [Transform.rotationUpdate, hf, decide_eq_true hd]
    rfl

namespace Watched

variable {w : Watched α β}

theorem getElem?_update (w : Watched α β) (threshold : α) (i : Nat) :
    (w.step (.update threshold)).subject.mTransforms[i]? =
      w.subject.mTransforms[i]?.map (Transform.markSent threshold) := List.getElem?_map

/-- What an update does to one transform and to what was written for it. -/
theorem written_update {threshold : α} {i : Nat} {t : Transform α}
    (ht : w.subject.mTransforms[i]? = some t) :
    (w.step (.update threshold)).written i =
      if t.allFinite = true ∧ threshold < t.rotation.delta then some t.rotation.value
      else w.written i := by
  have hany := rotations_any_iff w.subject threshold i
  simp only [ht, Option.some.injEq, exists_eq_left'] at hany
  change w.write ((w.subject.serializeUpdate threshold).1.rotation.getD []) i = _
  rw [write]
  simp only [hany, ht, Option.map_some]

theorem Marked.step (h : Marked w) {m : Motion α} (hm : m.Finite) : Marked (w.step m) := by
  intro i t ht q hq
  cases m with
  | rotate j p =>
    change (w.subject.mTransforms.modify j (.rotated p))[i]? = some t at ht
    rw [List.getElem?_modify] at ht
    obtain ⟨u, hu, rfl⟩ := Option.map_eq_some_iff.mp ht
    obtain ⟨hf, hlast⟩ := h i u hu q hq
    split
    · exact ⟨Transform.allFinite_rotated hm hf, hlast⟩
    · exact ⟨hf, hlast⟩
  | update threshold =>
    rw [getElem?_update] at ht
    obtain ⟨u, hu, rfl⟩ := Option.map_eq_some_iff.mp ht
    rw [written_update hu] at hq
    rw [Transform.markSent_allFinite, Transform.markSent_rotation]
    split
    · rename_i hsent
      rw [if_pos hsent] at hq
      exact ⟨hsent.1, Option.some.inj hq⟩
    · rename_i hsent
      rw [if_neg hsent] at hq
      exact h i u hu q hq

theorem Marked.run {motions : List (Motion α)} (h : Marked w) (hm : ∀ m ∈ motions, m.Finite) :
    Marked (w.run motions) := by
  induction motions generalizing w with
  | nil => exact h
  | cons m motions ih =>
    obtain ⟨hm, hms⟩ := List.forall_mem_cons.mp hm
    exact ih (h.step hm) hms

theorem marked_start (s : Subject α β) : Marked (start s) := nofun

/-- One call of `serializeUpdate`: only transforms not yet written can stay too far off. -/
theorem Marked.within_update_iff [ExactDistance α] (h : Marked w) {threshold : α}
    (hth : 0 ≤ threshold) : (w.step (.update threshold)).Within threshold ↔
      ∀ i t, w.subject.mTransforms[i]? = some t → w.written i = none →
        angularDistance Quaterniond.identity t.rotation.value ≤ threshold ∨
          (t.allFinite = true ∧ threshold < t.rotation.delta) := by
  have hself {t : Transform α} (hf : t.allFinite = true) :
      angularDistance t.rotation.value t.rotation.value ≤ threshold := by
    simp only [Transform.allFinite, Transform.valuesFinite, Bool.and_eq_true] at hf
    exact (ExactDistance.angularDistance_self hf.2.1.2).trans_le hth
  have hvalue (t : Transform α) : (t.markSent threshold).rotation.value = t.rotation.value := by
    rw [Transform.markSent_rotation]
    split <;> rfl
  refine ⟨?_, ?_⟩
  · intro hw i t ht hnone
    by_cases hsent : t.allFinite = true ∧ threshold < t.rotation.delta
    · exact .inr hsent
    · have hi := hw i (t.markSent threshold) (by rw [getElem?_update, ht, Option.map_some])
      rw [written_update ht, if_neg hsent, hnone, hvalue] at hi
      exact .inl hi
  · intro hw i t' ht'
    rw [getElem?_update] at ht'
    obtain ⟨t, ht, rfl⟩ := Option.map_eq_some_iff.mp ht'
    rw [written_update ht, hvalue]
    by_cases hsent : t.allFinite = true ∧ threshold < t.rotation.delta
    · rw [if_pos hsent]
      exact hself hsent.1
    · rw [if_neg hsent]
      cases hq : w.written i with
      | none => exact (hw i t ht hq).resolve_right hsent
      | some q =>
        obtain ⟨hf, hlast⟩ := h i t ht q hq
        have hle := not_lt.mp fun hlt => hsent ⟨hf, hlt⟩
        rw [TransformRotation.delta, hlast] at hle
        exact hle

/-- In every run, a call of `serializeUpdate` leaves every rotation within the threshold
exactly when the rotations that the run has not written yet are within it of the identity,
or can be written and are past it from what their constructor left as last sent. -/
theorem within_iff [ExactDistance α] (s : Subject α β) {motions : List (Motion α)}
    (hm : ∀ m ∈ motions, m.Finite) {threshold : α} (hth : 0 ≤ threshold) :
    (((start s).run motions).step (.update threshold)).Within threshold ↔
      ∀ i t, ((start s).run motions).subject.mTransforms[i]? = some t →
        ((start s).run motions).written i = none →
        angularDistance Quaterniond.identity t.rotation.value ≤ threshold ∨
          (t.allFinite = true ∧ threshold < t.rotation.delta) :=
  ((marked_start s).run hm).within_update_iff hth

open scoped Angle

/-- A subject with one new transform. -/
noncomputable def newSubject : Subject ℝ ℝ :=
  { derived := .performer, mName := "", mUuid := "a", mTransforms := [Transform.empty], mError := ""
    mEnabled := true }

def halfTurned : Motion ℝ := .rotate 0 Angle.halfTurn

theorem within_iff_newSubject :
    (((start newSubject).run [halfTurned]).step (.update 4)).Within 4 ↔
      ∀ i t, ((start newSubject).run [halfTurned]).subject.mTransforms[i]? = some t →
        ((start newSubject).run [halfTurned]).written i = none →
        angularDistance Quaterniond.identity t.rotation.value ≤ 4 ∨
          (t.allFinite = true ∧ 4 < t.rotation.delta) :=
  within_iff newSubject (fun _ hm => List.mem_singleton.mp hm ▸ (rfl : halfTurned.Finite))
    zero_le_four

/-- A half turn is not written, whatever the threshold, as its transform has never been sent. -/
theorem halfTurn_withheld :
    (((start newSubject).run [halfTurned]).subject.serializeUpdate 0).1.rotation =
        some [] ∧
      ¬(((start newSubject).run [halfTurned]).step (.update 0)).Within 0 := by
  have hdelta : (Transform.empty.rotated Angle.halfTurn : Transform ℝ).rotation.delta = 0 :=
    Angle.angularDistance_zero _
  have hnone : (Transform.empty.rotated Angle.halfTurn : Transform ℝ).rotationUpdate
      (β := ℝ) 0 0 = none := by
    rw [Transform.rotationUpdate, hdelta, decide_eq_false (lt_irrefl _), Bool.and_false,
      if_neg Bool.false_ne_true]
  refine ⟨?_, ?_⟩
  · change some (List.filterMap (fun p : Transform ℝ × Nat => p.1.rotationUpdate (β := ℝ) 0 p.2)
      [(Transform.empty.rotated Angle.halfTurn, 0)]) = some []
    rw [List.filterMap_cons_none (by exact hnone), List.filterMap_nil]
  · intro hw
    have hmarked := (marked_start newSubject).step (m := halfTurned) rfl
    have hi := (hmarked.within_update_iff le_rfl).mp hw 0 _ rfl rfl
    obtain hle | ⟨-, hlt⟩ := hi
    · exact absurd (Angle.angularDistance_halfTurn.symm.trans_le hle) (not_le.mpr Real.pi_pos)
    · exact absurd (hlt.trans_eq hdelta) (lt_irrefl _)

end Watched

end Open3DStream
