import Open3DStream.Codec
import Open3DStream.Receive

namespace Open3DStream

variable {α β : Type} [Numeric α β] [Wire α β]

/-- What keeps `parse` from reading an absent field or past the end of `mMatrices`:
its loops are not reached, or every field they read is present and the evaluation
does not get to a transform with too few matrices. -/
def ReadsPresent (l : SubjectList α β) (p : Data.SubjectList α β) (clearInactive : Bool) : Prop :=
  ContextRejected l p ∨
    (p.Readable (l.kept clearInactive) ∧
      (ItemsFinite (p.applied (l.kept clearInactive)) → ¬Starved (p.applied (l.kept clearInactive))))

/-- `parse` finishes on a verified packet exactly when it reads only what is there. -/
theorem parse_finishes_iff (l : SubjectList α β) {data : Option (List UInt8)}
    {p : Data.SubjectList α β} (h : Verified α β data p) (clearInactive : Bool) :
    (∃ r, l.parse data clearInactive = some r) ↔ ReadsPresent l p clearInactive := by
  have hnone := SubjectList.parseRoot_eq_none_iff { l with mError := "" } p clearInactive
  have hcontext : ContextRejected { l with mError := "" } p ↔ ContextRejected l p := Iff.rfl
  have hkept : { l with mError := "" }.kept clearInactive = l.kept clearInactive := rfl
  rw [hcontext, hkept] at hnone
  rw [parse_verified l h, ← Option.isSome_iff_exists, Option.isSome_iff_ne_none, ne_eq, hnone,
    ReadsPresent]
  by_cases hc : ContextRejected l p
  · simp [hc]
  · by_cases hr : p.Readable (l.kept clearInactive)
    · simp [hc, hr]
    · simp [hc, hr]

/-- A full packet whose one performer has a uuid and no name. -/
def nameless : Data.SubjectList Extended Extended :=
  { Data.SubjectList.blank with performers := some [⟨some ⟨some [], none, some "uuid"⟩⟩] }

theorem parse_finishes_iff_nameless :
    (∃ r, freshList.parse (some (finalize nameless 1)) false = some r) ↔
      ReadsPresent freshList nameless false :=
  parse_finishes_iff freshList (verified_finalize nameless (.inl rfl)) false

theorem nameless_not_finished :
    ¬∀ (l : SubjectList Extended Extended) (data : Option (List UInt8))
      (p : Data.SubjectList Extended Extended) (clearInactive : Bool),
      Verified Extended Extended data p → ∃ r, l.parse data clearInactive = some r := by
  intro h
  have hv : Verified Extended Extended (some (finalize nameless 1)) nameless :=
    verified_finalize nameless (.inl rfl)
  obtain ⟨r, hr⟩ := h freshList _ nameless false hv
  rw [parse_verified _ hv] at hr
  cases hr

end Open3DStream
