import Open3DStream.World

namespace Open3DStream

open Evaluate

variable {α β : Type} [Numeric α β]

namespace Evaluate

/-- The list the sweeps start from. -/
def started (ts : List (Transform α)) : List (Transform α) := (ts.map Transform.updated).map markRoot

theorem started_get {ts : List (Transform α)} {i : Nat} {b : Transform α} :
    (started ts)[i]? = some b ↔ ∃ t, ts[i]? = some t ∧ b = markRoot t.updated := by
  simp [started, eq_comm]

theorem markRoot_mParentId (t : Transform α) : (markRoot t).mParentId = t.mParentId := by
  rw [markRoot]
  split <;> rfl

theorem markRoot_mMatrix (t : Transform α) : (markRoot t).mMatrix = t.mMatrix := by
  rw [markRoot]
  split <;> rfl

theorem markRoot_root {t : Transform α} (h : t.mParentId = -1) :
    markRoot t = { t with mWorldMatrix := t.mMatrix, bWorldMatrix := true } := by
  simp [markRoot, isRoot, h]

theorem markRoot_other {t : Transform α} (h : t.mParentId ≠ -1) : markRoot t = t := by
  simp [markRoot, isRoot, h]

theorem parentIds_started (ts : List (Transform α)) : parentIds (started ts) = parentIds ts := by
  simp [parentIds, started, markRoot_mParentId, Function.comp_def]

theorem worldAlong_started (ts : List (Transform α)) (l : List Nat) :
    worldAlong (·.mMatrix) (started ts) l = worldAlong Transform.localMatrix ts l := by
  rw [worldAlong, along]
  congr 1
  apply List.filterMap_congr
  intro i _
  cases h : ts[i]? <;> simp [started, h, markRoot_mMatrix]

theorem countP_isRoot (ts : List (Transform α)) :
    (started ts).countP isRoot = (parentIds ts).count (-1) := by
  rw [← parentIds_started ts, parentIds, List.count, List.countP_map]
  apply List.countP_congr
  intro t _
  simp [isRoot]

theorem resolving_started (ts : List (Transform α)) : Resolving (started ts) (started ts) := by
  constructor
  · rfl
  · intro i t b ht hb
    rw [ht] at hb
    cases hb
    rfl
  · intro i b hb hr
    obtain ⟨t, -, rfl⟩ := started_get.mp hb
    rw [markRoot_mParentId] at hr
    rw [markRoot_root hr]
  · intro i b hb hw
    obtain ⟨t, ht, rfl⟩ := started_get.mp hb
    by_cases hr : t.mParentId = -1
    · have hroot : rootAt (parentIds (started ts)) i := by
        rw [rootAt, parentIds_started, parentIds_get ht, hr]
      refine ⟨[i], .root hroot, ?_, .inl (by rw [markRoot_mParentId]; exact hr)⟩
      rw [worldAlong_root hb, markRoot_mMatrix, markRoot_root (by exact hr)]
    · rw [markRoot_other (by exact hr)] at hw
      cases hw
  · intro i t b ht hb _
    rw [ht] at hb
    cases hb
    rfl

theorem pending_started {ts : List (Transform α)} (h : 0 < (parentIds ts).count (-1)) :
    pending (started ts) < (started ts).length := by
  have hle : pending (started ts) ≤ (started ts).countP (fun t => !isRoot t) := by
    apply List.countP_mono_left
    intro b hb hp
    obtain ⟨i, hi⟩ := List.mem_iff_getElem?.mp hb
    by_contra hr
    have hroot : b.mParentId = -1 := by simpa [isRoot] using hr
    have := (resolving_started ts).roots i b hi hroot
    simp [this] at hp
  have hlen := List.length_eq_countP_add_countP isRoot (l := started ts)
  have hnot : (started ts).countP (fun t => !isRoot t) =
      (started ts).countP (fun t => decide ¬isRoot t = true) := by
    apply List.countP_congr
    intro t _
    simp
  rw [countP_isRoot] at hlen
  omega

/-- `convertMatrix` as the end of `calcMatrices` applies it. -/
def convertWorld (conv : Option ConversionContext) (m : Matrix α) : Matrix α :=
  match conv with
  | none => m
  | some c => if c.isIdentity then m else c.convertMatrix m

theorem convert_eq (conv : Option ConversionContext) (ts : List (Transform α)) :
    convert conv ts = ts.map fun t => { t with mWorldMatrix := convertWorld conv t.mWorldMatrix } := by
  cases conv with
  | none => simp [convert, convertWorld]
  | some c =>
    cases h : c.isIdentity with
    | true => simp [convert, convertWorld, h]
    | false => simp [convert, convertWorld, h]

end Evaluate

/-- A transform that has been evaluated to the world matrix `w`. -/
def Transform.evaluated (t : Transform α) (w : Matrix α) : Transform α :=
  { t with mMatrix := t.localMatrix, bWorldMatrix := true, mWorldMatrix := w }

namespace Evaluate.Resolving

variable {ts us : List (Transform α)} (h : Resolving (started ts) us) {i : Nat} {t u : Transform α}
  (ht : ts[i]? = some t) (hu : us[i]? = some u)
include h ht hu

theorem eq_evaluated (hb : u.bWorldMatrix = true) {l : List Nat} (hl : TreePath (parentIds ts) i l) :
    u = t.evaluated (worldAlong Transform.localMatrix ts l) := by
  obtain ⟨l', hl', hw, -⟩ := h.sound i u hu hb
  rw [parentIds_started] at hl'
  obtain rfl := hl.unique hl'
  have hf := h.frame i u _ hu (started_get.mpr ⟨t, ht, rfl⟩)
  rw [worldAlong_started] at hw
  rw [hw, hb] at hf
  rw [hf]
  by_cases hroot : t.updated.mParentId = -1
  · rw [markRoot_root hroot]
    rfl
  · rw [markRoot_other hroot]
    rfl

theorem eq_updated (hb : u.bWorldMatrix = false) : u = t.updated := by
  have hstart := started_get.mpr ⟨t, ht, rfl⟩
  have hf := h.frame i u _ hu hstart
  have hnr : t.updated.mParentId ≠ -1 := by
    intro hroot
    have hpid : u.mParentId = -1 := by
      rw [hf]
      exact (markRoot_mParentId _).trans hroot
    rw [h.roots i u hu hpid] at hb
    cases hb
  rw [markRoot_other hnr] at hstart hf
  rw [h.kept i u _ hu hstart hb, hb] at hf
  rw [hf]
  rfl

end Evaluate.Resolving

namespace Subject

/-- A local matrix that is not finite stops the evaluation. -/
theorem calcMatrices_stopped {s : Subject α β} {us : List (Transform α)} {e : String}
    (h : locals s.mTransforms = some (some e, us)) (conv : Option ConversionContext) :
    s.calcMatrices conv = some (false, { s with mTransforms := us, mError := e }) := by
  rw [calcMatrices, h]
  rfl

/-- What follows the first loop. -/
theorem calcMatrices_evaluable {s : Subject α β} (h : ∀ t ∈ s.mTransforms, Evaluable t)
    (conv : Option ConversionContext) : s.calcMatrices conv =
      if (parentIds s.mTransforms).count (-1) = 0 then
        some (false, { s with mTransforms := started s.mTransforms, mError := "Could not find a root" })
      else if 1 < (parentIds s.mTransforms).count (-1) then
        some (false, { s with mTransforms := started s.mTransforms, mError := "More than one root found" })
      else match loop (started s.mTransforms).length (started s.mTransforms) with
        | .error (e, ts) => some (false, { s with mTransforms := ts, mError := e })
        | .ok ts => some (true, { s with mTransforms := convert conv ts }) := by
  have hl := (locals_none_iff s.mTransforms _).mpr ⟨h, rfl⟩
  rw [calcMatrices, hl, Option.bind_eq_bind, Option.bind_some, ← countP_isRoot]
  rfl

theorem calcMatrices_rooted {s : Subject α β} (h : ∀ t ∈ s.mTransforms, Evaluable t)
    (hc : (parentIds s.mTransforms).count (-1) = 1) (conv : Option ConversionContext) :
    s.calcMatrices conv =
      match loop (started s.mTransforms).length (started s.mTransforms) with
      | .error (e, ts) => some (false, { s with mTransforms := ts, mError := e })
      | .ok ts => some (true, { s with mTransforms := convert conv ts }) := by
  rw [calcMatrices_evaluable h, if_neg (by omega), if_neg (by omega)]

/-- Without one root `calcMatrices` leaves the local matrices and those of the roots. -/
theorem calcMatrices_rootless {s : Subject α β} (h : ∀ t ∈ s.mTransforms, Evaluable t)
    (hc : (parentIds s.mTransforms).count (-1) ≠ 1) (conv : Option ConversionContext) :
    ∃ e, s.calcMatrices conv =
      some (false, { s with mTransforms := started s.mTransforms, mError := e }) := by
  rw [calcMatrices_evaluable h]
  by_cases h0 : (parentIds s.mTransforms).count (-1) = 0
  · exact ⟨"Could not find a root", if_pos h0⟩
  · refine ⟨"More than one root found", ?_⟩
    rw [if_neg h0, if_pos (by omega)]

/-- The ways `calcMatrices` ends, with what it returns and leaves. -/
inductive Ended (s : Subject α β) (conv : Option ConversionContext) : Bool → Subject α β → Prop
  | stopped {e : String} {us : List (Transform α)} : locals s.mTransforms = some (some e, us) →
      Ended s conv false { s with mTransforms := us, mError := e }
  | rootless (e : String) : (∀ t ∈ s.mTransforms, Evaluable t) →
      (parentIds s.mTransforms).count (-1) ≠ 1 →
      Ended s conv false { s with mTransforms := started s.mTransforms, mError := e }
  | halted {e : String} {ts : List (Transform α)} : (∀ t ∈ s.mTransforms, Evaluable t) →
      (parentIds s.mTransforms).count (-1) = 1 →
      loop (started s.mTransforms).length (started s.mTransforms) = .error (e, ts) →
      Ended s conv false { s with mTransforms := ts, mError := e }
  | resolved {ts : List (Transform α)} : (∀ t ∈ s.mTransforms, Evaluable t) →
      (parentIds s.mTransforms).count (-1) = 1 →
      loop (started s.mTransforms).length (started s.mTransforms) = .ok ts →
      Ended s conv true { s with mTransforms := convert conv ts }

theorem calcMatrices_cases {s s' : Subject α β} {conv : Option ConversionContext} {b : Bool}
    (h : s.calcMatrices conv = some (b, s')) : Ended s conv b s' := by
  cases hl : locals s.mTransforms with
  | none =>
    rw [calcMatrices, hl] at h
    cases h
  | some r =>
    obtain ⟨e, us⟩ := r
    cases e with
    | some e =>
      rw [calcMatrices_stopped hl] at h
      cases h
      exact .stopped hl
    | none =>
      have hall := ((locals_none_iff _ _).mp hl).1
      by_cases hc : (parentIds s.mTransforms).count (-1) = 1
      · rw [calcMatrices_rooted hall hc] at h
        split at h
        · cases h
          exact .halted hall hc ‹_›
        · cases h
          exact .resolved hall hc ‹_›
      · obtain ⟨e, he⟩ := calcMatrices_rootless hall hc conv
        rw [he] at h
        cases h
        exact .rootless e hall hc

theorem calcMatrices_ok {s s' : Subject α β} {conv : Option ConversionContext} :
    s.calcMatrices conv = some (true, s') ↔
      (∀ t ∈ s.mTransforms, Evaluable t) ∧ (parentIds s.mTransforms).count (-1) = 1 ∧
        ∃ ts, loop (started s.mTransforms).length (started s.mTransforms) = .ok ts ∧
          s' = { s with mTransforms := convert conv ts } := by
  refine ⟨?_, ?_⟩
  · intro h
    cases calcMatrices_cases h with
    | resolved hall hc hr => exact ⟨hall, hc, _, hr, rfl⟩
  · rintro ⟨hall, hc, ts, hr, rfl⟩
    rw [calcMatrices_rooted hall hc, hr]

theorem calcMatrices_mError {s s' : Subject α β} {conv : Option ConversionContext}
    (h : s.calcMatrices conv = some (true, s')) : s'.mError = s.mError := by
  obtain ⟨-, -, ts, -, rfl⟩ := calcMatrices_ok.mp h
  rfl

theorem calcMatrices_eq_none_iff (s : Subject α β) (conv : Option ConversionContext) :
    s.calcMatrices conv = none ↔ locals s.mTransforms = none := by
  refine ⟨?_, ?_⟩
  · intro h
    cases hl : locals s.mTransforms with
    | none => rfl
    | some r =>
      obtain ⟨e, us⟩ := r
      rw [calcMatrices, hl, Option.bind_eq_bind, Option.bind_some] at h
      cases e with
      | some e => cases h
      | none =>
        dsimp only at h
        split at h
        · cases h
        · split at h
          · cases h
          · split at h <;> cases h
  · intro h
    rw [calcMatrices, h]
    rfl

/-- What `calcMatrices` accepts, for any arithmetic and any hierarchy. -/
structure Acceptable (ts : List (Transform α)) : Prop where
  evaluable : ∀ t ∈ ts, Evaluable t
  oneRoot : (parentIds ts).count (-1) = 1
  validIds : ValidIds (parentIds ts)
  products : ProductsFinite Transform.localMatrix ts

theorem productsFinite_started (ts : List (Transform α)) :
    ProductsFinite (·.mMatrix) (started ts) ↔ ProductsFinite Transform.localMatrix ts := by
  simp only [ProductsFinite]
  simp only [parentIds_started, worldAlong_started]

theorem calcMatrices_true_iff (s : Subject α β) (conv : Option ConversionContext) :
    (∃ s', s.calcMatrices conv = some (true, s')) ↔ Acceptable s.mTransforms := by
  have hloop (hc : (parentIds s.mTransforms).count (-1) = 1) :=
    loop_ok_iff (resolving_started s.mTransforms) (pending_started (by omega))
  simp only [parentIds_started, productsFinite_started] at hloop
  refine ⟨?_, ?_⟩
  · rintro ⟨s', h⟩
    obtain ⟨hall, hc, ts, hr, -⟩ := calcMatrices_ok.mp h
    obtain ⟨hv, hp⟩ := (hloop hc).mp ⟨ts, hr⟩
    exact ⟨hall, hc, hv, hp⟩
  · intro h
    obtain ⟨ts, hr⟩ := (hloop h.oneRoot).mpr ⟨h.validIds, h.products⟩
    exact ⟨_, calcMatrices_ok.mpr ⟨h.evaluable, h.oneRoot, ts, hr, rfl⟩⟩

/-- The transform a successful call leaves at an index with a path. -/
theorem calcMatrices_path {s s' : Subject α β} {conv : Option ConversionContext}
    (h : s.calcMatrices conv = some (true, s')) {i : Nat} {t : Transform α} {l : List Nat}
    (ht : s.mTransforms[i]? = some t) (hl : TreePath (parentIds s.mTransforms) i l) :
    s'.mTransforms[i]? =
      some (t.evaluated (convertWorld conv (worldAlong Transform.localMatrix s.mTransforms l))) := by
  obtain ⟨-, hc, ts, hr, rfl⟩ := calcMatrices_ok.mp h
  obtain ⟨hres, hskip⟩ := loop_ok (resolving_started s.mTransforms) hr
  obtain ⟨u, hu, hb⟩ := hres.resolved_of_path hskip (parentIds_started s.mTransforms ▸ hl)
  have he := hres.eq_evaluated ht hu hb hl
  simp only [convert_eq, List.getElem?_map, hu, Option.map_some, he]
  rfl

/-- The transform a successful call leaves at an index that reaches no root. -/
theorem calcMatrices_no_path {s s' : Subject α β} {conv : Option ConversionContext}
    (h : s.calcMatrices conv = some (true, s')) {i : Nat} {t : Transform α}
    (ht : s.mTransforms[i]? = some t) (hl : ∀ l, ¬TreePath (parentIds s.mTransforms) i l) :
    s'.mTransforms[i]? = some { t.updated with
      mWorldMatrix := convertWorld conv t.mWorldMatrix } := by
  obtain ⟨-, hc, ts, hr, rfl⟩ := calcMatrices_ok.mp h
  obtain ⟨hres, -⟩ := loop_ok (resolving_started s.mTransforms) hr
  obtain ⟨u, hu, -⟩ := hres.get (started_get.mpr ⟨t, ht, rfl⟩)
  have hb : u.bWorldMatrix = false := by
    by_contra hb
    obtain ⟨l, hl', -, -⟩ := hres.sound i u hu (by simpa using hb)
    rw [parentIds_started] at hl'
    exact hl l hl'
  have he := hres.eq_updated ht hu hb
  simp only [convert_eq, List.getElem?_map, hu, Option.map_some, he]
  rfl

end Subject

end Open3DStream
