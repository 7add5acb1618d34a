import Open3DStream.Resolve

namespace Open3DStream.Evaluate

variable {α β : Type} [Numeric α β]

/-- The number of transforms without a world matrix. -/
def pending (ts : List (Transform α)) : Nat := ts.countP fun t => !t.bWorldMatrix

theorem pending_resolved {ts ts' : List (Transform α)} {id : Nat}
    (h : visit ts id = .resolved ts') : pending ts' < pending ts := by
  obtain ⟨t, p, tp, ht, hb, -, -, -, -, -, rfl⟩ := visit_resolved h
  obtain ⟨hid, hget⟩ := List.getElem?_eq_some_iff.mp ht
  have hpos : 0 < pending ts := by
    rw [pending, List.countP_pos_iff]
    exact ⟨t, List.mem_of_getElem? ht, by simp [hb]⟩
  have hset : pending (ts.set id (resolvedBy tp t)) = pending ts - 1 := by
    rw [pending, List.countP_set hid]
    simp [hget, hb, resolvedBy, pending]
  omega

/-- Once lowered, the flag stays lowered for the rest of the pass. -/
theorem sweep_lowered {ids : List Nat} {ts ts' : List (Transform α)} {done : Bool}
    (h : sweep ids ts false = .ok (ts', done)) : done = false := by
  induction ids generalizing ts with
  | nil =>
    cases h
    rfl
  | cons id ids ih =>
    rw [sweep] at h
    cases hv : visit ts id with
    | skip => rw [hv] at h; exact ih h
    | fail e us => rw [hv] at h; cases h
    | resolved us => rw [hv] at h; exact ih h

/-- A successful pass keeps the invariant; it is the last one exactly when it
changed nothing, and else it left fewer transforms pending. -/
theorem sweep_ok {base ts ts' : List (Transform α)} {ids : List Nat} {done done' : Bool}
    (h : Resolving base ts) (hs : sweep ids ts done = .ok (ts', done')) :
    Resolving base ts' ∧ pending ts' ≤ pending ts ∧
      (done' = true → ts' = ts ∧ ∀ id ∈ ids, visit ts id = .skip) ∧
      (done' = false → done = false ∨ pending ts' < pending ts) := by
  induction ids generalizing ts done with
  | nil =>
    cases hs
    exact ⟨h, le_rfl, fun _ => ⟨rfl, by simp⟩, .inl⟩
  | cons id ids ih =>
    rw [sweep] at hs
    cases hv : visit ts id with
    | fail e us => rw [hv] at hs; cases hs
    | skip =>
      rw [hv] at hs
      obtain ⟨hr, hle, ht, hf⟩ := ih h hs
      refine ⟨hr, hle, ?_, hf⟩
      intro hd
      obtain ⟨he, hall⟩ := ht hd
      exact ⟨he, List.forall_mem_cons.mpr ⟨hv, hall⟩⟩
    | resolved us =>
      rw [hv] at hs
      obtain ⟨hr, hle, ht, -⟩ := ih (h.step hv) hs
      have hlt := pending_resolved hv
      obtain rfl := sweep_lowered hs
      exact ⟨hr, by omega, nofun, fun _ => .inr (by omega)⟩

/-- A pass fails at a visit of a state that still satisfies the invariant. -/
theorem sweep_error {base ts vs : List (Transform α)} {ids : List Nat} {done : Bool} {m : String}
    (h : Resolving base ts) (hs : sweep ids ts done = .error (m, vs)) :
    ∃ us id, Resolving base us ∧ visit us id = .fail m vs := by
  induction ids generalizing ts done with
  | nil => cases hs
  | cons id ids ih =>
    rw [sweep] at hs
    cases hv : visit ts id with
    | fail m us =>
      rw [hv] at hs
      cases hs
      exact ⟨ts, id, h, hv⟩
    | skip => rw [hv] at hs; exact ih h hs
    | resolved us => rw [hv] at hs; exact ih (h.step hv) hs

/-- The loop ends with nothing left to resolve. -/
theorem loop_ok {base ts ts' : List (Transform α)} {passes : Nat} (h : Resolving base ts)
    (hs : loop passes ts = .ok ts') :
    Resolving base ts' ∧ ∀ id, id < ts'.length → visit ts' id = .skip := by
  induction passes generalizing ts with
  | zero => cases hs
  | succ passes ih =>
    rw [loop] at hs
    cases hw : sweep (List.range ts.length) ts true with
    | error e => rw [hw] at hs; cases hs
    | ok r =>
      obtain ⟨us, done⟩ := r
      rw [hw] at hs
      obtain ⟨hr, -, ht, -⟩ := sweep_ok h hw
      cases done with
      | false => exact ih hr hs
      | true =>
        cases hs
        obtain ⟨rfl, hall⟩ := ht rfl
        exact ⟨hr, fun id hid => hall id (List.mem_range.mpr hid)⟩

/-- With a pass to spare for each pending transform, the pass limit is never what
stops the loop. -/
theorem loop_error {base ts vs : List (Transform α)} {passes : Nat} {m : String}
    (h : Resolving base ts) (hp : pending ts < passes) (hs : loop passes ts = .error (m, vs)) :
    ∃ us id, Resolving base us ∧ visit us id = .fail m vs := by
  induction passes generalizing ts with
  | zero => omega
  | succ passes ih =>
    rw [loop] at hs
    cases hw : sweep (List.range ts.length) ts true with
    | error r =>
      rw [hw] at hs
      cases hs
      exact sweep_error h hw
    | ok r =>
      obtain ⟨us, done⟩ := r
      rw [hw] at hs
      obtain ⟨hr, -, -, hf⟩ := sweep_ok h hw
      cases done with
      | true => cases hs
      | false =>
        obtain hd | hlt := hf rfl
        · cases hd
        · exact ih hr (by omega) hs

/-- Every product from the root down to a transform below it is finite. -/
def ProductsFinite (f : Transform α → Matrix α) (ts : List (Transform α)) : Prop :=
  ∀ i l, TreePath (parentIds ts) i l → ¬rootAt (parentIds ts) i → (worldAlong f ts l).allFinite = true

namespace Resolving

variable {base ts : List (Transform α)}

theorem no_fail (h : Resolving base ts) (hv : ValidIds (parentIds base))
    (hp : ProductsFinite (·.mMatrix) base) {id : Nat} {m : String} {us : List (Transform α)} :
    visit ts id ≠ .fail m us := by
  intro hf
  obtain ⟨t, ht, hb, hbad⟩ := visit_fail hf
  have hid := h.parentId ht
  obtain ⟨hc, -⟩ | ⟨p, tp, -, hpid, htp, hw, hnf, -⟩ := hbad
  · exact hc ((h.validId_iff ht hb).mpr (hv id _ hid))
  · obtain ⟨l, hl, he⟩ := h.world_of_parent ht hpid htp hw
    have hroot : ¬rootAt (parentIds base) id := by
      intro hr
      rw [rootAt, hid] at hr
      rw [h.roots id t ht (Option.some.inj hr)] at hb
      cases hb
    rw [he, hp id l hl hroot] at hnf
    cases hnf

/-- When nothing is left to do, exactly the transforms with a path are resolved. -/
theorem resolved_of_path (h : Resolving base ts)
    (hskip : ∀ id, id < ts.length → visit ts id = .skip) {i : Nat} {l : List Nat}
    (hl : TreePath (parentIds base) i l) : ∃ t, ts[i]? = some t ∧ t.bWorldMatrix = true := by
  let done : Nat → Prop := fun j => ∃ t, ts[j]? = some t ∧ t.bWorldMatrix = true
  have hroot : ∀ j, rootAt (parentIds base) j → done j := by
    intro j hj
    obtain ⟨t, ht, hr⟩ := h.get_of_id hj
    exact ⟨t, ht, h.roots j t ht hr⟩
  by_contra hnot
  obtain ⟨j, p, hj, hp, tp, htp, hw⟩ := Lib.Path.progress hroot hl hnot
  obtain ⟨t, ht, hpid⟩ := h.get_of_id hp.1
  have hlt : j < ts.length := (List.getElem?_eq_some_iff.mp ht).1
  obtain hb | ⟨-, hun⟩ := visit_skip ht (hskip j hlt)
  · exact hj ⟨t, ht, hb⟩
  · rw [hun p tp hpid htp] at hw
    cases hw

end Resolving

/-- The loop succeeds exactly on valid ids with finite products, cycles included. -/
theorem loop_ok_iff {base : List (Transform α)} (h : Resolving base base) {passes : Nat}
    (hp : pending base < passes) :
    (∃ ts, loop passes base = .ok ts) ↔
      ValidIds (parentIds base) ∧ ProductsFinite (·.mMatrix) base := by
  refine ⟨?_, ?_⟩
  · rintro ⟨ts, hs⟩
    obtain ⟨hr, hskip⟩ := loop_ok h hs
    refine ⟨?_, ?_⟩
    · intro i p hip
      obtain ⟨t, ht, rfl⟩ := hr.get_of_id hip
      have hlt : i < ts.length := (List.getElem?_eq_some_iff.mp ht).1
      exact hr.validId ht ((visit_skip ht (hskip i hlt)).imp_right And.left)
    · intro i l hl hroot
      obtain ⟨t, ht, hb⟩ := hr.resolved_of_path hskip hl
      obtain ⟨l', hl', hw, hf⟩ := hr.sound i t ht hb
      obtain rfl := hl.unique hl'
      obtain hr' | hf := hf
      · exact absurd (by rw [rootAt, hr.parentId ht, hr']) hroot
      · rw [← hw]
        exact hf
  · rintro ⟨hv, hf⟩
    cases hs : loop passes base with
    | ok ts => exact ⟨ts, rfl⟩
    | error e =>
      obtain ⟨m, vs⟩ := e
      obtain ⟨us, id, hr, hbad⟩ := loop_error h hp hs
      exact absurd hbad (hr.no_fail hv hf)

end Open3DStream.Evaluate
