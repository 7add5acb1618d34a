import Open3DStream.WorldMatrix

namespace Open3DStream

open Evaluate

variable {α β : Type} [Numeric α β]

theorem no_overrun {s : Subject α β} (h : ∀ t ∈ s.mTransforms, t.EnoughMatrices)
    (conv : Option ConversionContext) : ∃ b s', s.calcMatrices conv = some (b, s') := by
  cases hc : s.calcMatrices conv with
  | some r => exact ⟨r.1, r.2, rfl⟩
  | none =>
    rw [Subject.calcMatrices_eq_none_iff, locals_eq_none_iff] at hc
    obtain ⟨before, t, after, he, -, -, hn⟩ := hc
    exact absurd (h t (by rw [he]; simp)) hn

theorem accepted_iff {s : Subject α β} (hev : ∀ t ∈ s.mTransforms, Evaluable t)
    (hprod : ProductsFinite Transform.localMatrix s.mTransforms) (conv : Option ConversionContext) :
    (∃ s', s.calcMatrices conv = some (true, s')) ↔
      (parentIds s.mTransforms).count (-1) = 1 ∧ ValidIds (parentIds s.mTransforms) := by
  rw [Subject.calcMatrices_true_iff]
  exact ⟨fun ha => ⟨ha.oneRoot, ha.validIds⟩, fun hv => ⟨hev, hv.1, hv.2, hprod⟩⟩

/-- What exact validation of a hierarchy means for one subject. -/
structure ValidatesExactly (s : Subject α β) : Prop where
  accepts_iff : (∃ s', s.calcMatrices none = some (true, s')) ↔ RootedTree (parentIds s.mTransforms)
  all_resolved : ∀ s', s.calcMatrices none = some (true, s') →
    ∀ t ∈ s'.mTransforms, t.bWorldMatrix = true
  rejects_cycle : HasCycle (parentIds s.mTransforms) → ∃ s', s.calcMatrices none = some (false, s')

/-- The sweep stops as soon as a pass resolves nothing, so a parent cycle beside a
single root goes unnoticed when all ids are valid, and only then. -/
theorem validatesExactly_iff (s : Subject α β) (hev : ∀ t ∈ s.mTransforms, Evaluable t)
    (hprod : ProductsFinite Transform.localMatrix s.mTransforms) :
    ValidatesExactly s ↔ ¬((parentIds s.mTransforms).count (-1) = 1 ∧
      ValidIds (parentIds s.mTransforms) ∧ HasCycle (parentIds s.mTransforms)) := by
  have hacc := accepted_iff hev hprod none
  have htree := rootedTree_iff (parentIds s.mTransforms)
  refine ⟨?_, ?_⟩
  · rintro h ⟨hc, hv, hcycle⟩
    have hr := h.accepts_iff.mp (hacc.mpr ⟨hc, hv⟩)
    exact (htree.mp hr).2.2 hcycle
  · intro hn
    have haccept : (∃ s', s.calcMatrices none = some (true, s')) ↔
        RootedTree (parentIds s.mTransforms) := by
      rw [hacc, htree]
      exact ⟨fun h => ⟨h.1, h.2, fun hc => hn ⟨h.1, h.2, hc⟩⟩, fun h => ⟨h.1, h.2.1⟩⟩
    refine ⟨haccept, ?_, ?_⟩
    · intro s' hs' t' ht'
      have hr := haccept.mp ⟨s', hs'⟩
      obtain ⟨i, hi⟩ := List.mem_iff_getElem?.mp ht'
      have hlt : i < s.mTransforms.length := by
        rw [← (Subject.calcMatrices_frame hs').1.length]
        exact (List.getElem?_eq_some_iff.mp hi).1
      obtain ⟨l, hl⟩ := hr.reaches i (by simpa using hlt)
      rw [Subject.calcMatrices_path hs' (List.getElem?_eq_getElem hlt) hl] at hi
      cases hi
      rfl
    · intro hcycle
      obtain ⟨b, s', hs'⟩ := no_overrun (fun t ht => (hev t ht).2.1) none
      cases b with
      | false => exact ⟨s', hs'⟩
      | true => exact absurd hcycle (htree.mp (haccept.mp ⟨s', hs'⟩)).2.2

/-- A root and, beside it, two transforms that name each other as parent. -/
def loopBesideRoot : Subject Extended Extended :=
  { Subject.make (α := Extended) .performer "uuid" with
    mTransforms := [Transform.empty, { Transform.empty with mParentId := 2 },
      { Transform.empty with mParentId := 1 }] }

theorem hasCycle_loopBesideRoot : HasCycle (parentIds loopBesideRoot.mTransforms) := by
  have h12 : parentAt (parentIds loopBesideRoot.mTransforms) 1 2 := ⟨rfl, by decide⟩
  have h21 : parentAt (parentIds loopBesideRoot.mTransforms) 2 1 := ⟨rfl, by decide⟩
  exact ⟨1, Relation.TransGen.tail (Relation.TransGen.single h12) h21⟩

theorem loopBesideRoot_evaluable : ∀ t ∈ loopBesideRoot.mTransforms, Evaluable t := by
  have h (t : Transform Extended) (ht : t ∈ loopBesideRoot.mTransforms) :
      t.allFinite = true ∧ t.EnoughMatrices := by
    revert t
    decide
  exact WellFormed.evaluable ⟨fun t ht => (h t ht).1, fun t ht => (h t ht).2⟩

theorem validatesExactly_iff_loopBesideRoot :
    ValidatesExactly loopBesideRoot ↔ ¬((parentIds loopBesideRoot.mTransforms).count (-1) = 1 ∧
      ValidIds (parentIds loopBesideRoot.mTransforms) ∧
      HasCycle (parentIds loopBesideRoot.mTransforms)) :=
  validatesExactly_iff loopBesideRoot loopBesideRoot_evaluable fun _ l _ _ =>
    WellFormed.worldAlong_allFinite ⟨fun t ht => (loopBesideRoot_evaluable t ht).1,
      fun t ht => (loopBesideRoot_evaluable t ht).2.1⟩ l

theorem loopBesideRoot_accepted : ¬ValidatesExactly loopBesideRoot := by
  intro h
  have hrun : (loopBesideRoot.calcMatrices none).map (·.1) = some true := by decide
  obtain ⟨⟨b, s'⟩, hs', hb⟩ := Option.map_eq_some_iff.mp hrun
  cases hb
  obtain ⟨i, hi⟩ := hasCycle_loopBesideRoot
  exact (h.accepts_iff.mp ⟨s', hs'⟩).not_cycle i hi

end Open3DStream
