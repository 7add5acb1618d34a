import Open3DStream.Again

/-! An evaluation that stops. -/

namespace Open3DStream

open Evaluate Lib

variable {α β : Type} [Numeric α β]

/-! ### The first pass -/

/-- The parent of a transform, where a pass in the order of the list has its world matrix
before it comes to the transform. -/
def earlierAt (ids : List Int) (i p : Nat) : Prop := parentAt ids i p ∧ (rootAt ids p ∨ p < i)

/-- A path that the first pass goes down. -/
abbrev FirstPath (ids : List Int) : Nat → List Nat → Prop := Lib.Path (rootAt ids) (earlierAt ids)

theorem FirstPath.treePath {ids : List Int} {i : Nat} {l : List Nat} (h : FirstPath ids i l) :
    TreePath ids i l := Lib.Path.mono (fun _ hr => hr) (fun _ _ hp => hp.1) h

/-- The ids below an index pass the checks of the inner loop. -/
def ValidBelow (ids : List Int) (k : Nat) : Prop := ∀ i p, i < k → ids[i]? = some p → ValidId ids i p

theorem ValidBelow.mono {ids : List Int} {j k : Nat} (h : ValidBelow ids k) (hj : j ≤ k) :
    ValidBelow ids j := fun i p hi hp => h i p (by omega) hp

theorem ValidBelow.succ {ids : List Int} {k : Nat} (h : ValidBelow ids k)
    (hk : ∀ p, ids[k]? = some p → ValidId ids k p) : ValidBelow ids (k + 1) := by
  intro i p hi hp
  obtain hi | rfl := Nat.lt_succ_iff_lt_or_eq.mp hi
  · exact h i p hi hp
  · exact hk p hp

theorem ValidBelow.validIds {ids : List Int} (h : ValidBelow ids ids.length) : ValidIds ids :=
  fun i p hp => h i p (List.getElem?_eq_some_iff.mp hp).1 hp

namespace Evaluate

/-- What holds in the first pass before the visit of an index. -/
structure Passed (base ts : List (Transform α)) (k : Nat) : Prop extends Resolving base ts where
  resolved : ∀ (i : Nat) t, ts[i]? = some t → (t.bWorldMatrix = true ↔
    ∃ l, FirstPath (parentIds base) i l ∧ (rootAt (parentIds base) i ∨ i < k))
  valid : ValidBelow (parentIds base) k

namespace Passed

variable {base ts us vs : List (Transform α)} {k : Nat}

theorem parent_resolved (h : Passed base ts k) {p : Nat} {tp : Transform α}
    (htp : ts[p]? = some tp) (hp : parentAt (parentIds base) k p) :
    tp.bWorldMatrix = true ↔ ∃ l, FirstPath (parentIds base) k l := by
  rw [h.resolved p tp htp]
  refine ⟨?_, ?_⟩
  · rintro ⟨l, hl, hk⟩
    exact ⟨l ++ [k], .child ⟨hp, hk⟩ hl⟩
  · rintro ⟨l, hl⟩
    cases hl with
    | root hr => exact absurd hp (root_no_parent hr)
    | child hc hl =>
      obtain rfl := parent_functional hp hc.1
      exact ⟨_, hl, hc.2⟩

theorem skip (h : Passed base ts k) (hv : visit ts k = .skip) : Passed base ts (k + 1) := by
  refine ⟨h.toResolving, ?_, ?_⟩
  · intro i t ht
    rw [h.resolved i t ht]
    by_cases hi : i = k
    · subst hi
      refine ⟨?_, ?_⟩
      · rintro ⟨l, hl, hr⟩
        exact ⟨l, hl, .inr (by omega)⟩
      · rintro ⟨l, hl, -⟩
        obtain hb | ⟨hc, hun⟩ := visit_skip ht hv
        · exact (h.resolved i t ht).mp hb
        · obtain ⟨p, tp, hp, htp⟩ := checked_parent hc
          have hb := (h.parent_resolved htp (h.parentAt_of ht hp htp)).mpr ⟨l, hl⟩
          rw [hun p tp hp htp] at hb
          cases hb
    · have hlt : i < k + 1 ↔ i < k := by omega
      rw [hlt]
  · apply h.valid.succ
    intro p hp
    obtain ⟨t, ht, rfl⟩ := h.get_of_id hp
    exact h.validId ht ((visit_skip ht hv).imp_right And.left)

theorem step (h : Passed base ts k) (hv : visit ts k = .resolved us) :
    Passed base us (k + 1) := by
  have hnext := h.toResolving.step hv
  obtain ⟨t, p, tp, ht, hb, hc, hp, htp, hw, -, rfl⟩ := visit_resolved hv
  refine ⟨hnext, ?_, ?_⟩
  · intro i u hu
    obtain ⟨rfl, rfl⟩ | ⟨hi, hu⟩ := getElem?_set_cases hu
    · obtain ⟨l, hl⟩ := (h.parent_resolved htp (h.parentAt_of ht hp htp)).mp hw
      exact iff_of_true rfl ⟨l, hl, .inr (by omega)⟩
    · have hlt : i < k + 1 ↔ i < k := by omega
      rw [h.resolved i u hu, hlt]
  · apply h.valid.succ
    intro q hq
    obtain ⟨t', ht', rfl⟩ := h.get_of_id hq
    rw [ht] at ht'
    cases ht'
    exact h.validId ht (.inr hc)

end Passed

/-- What a pass that fails has left: it stopped at an id, or at a product. -/
def Halted (base vs : List (Transform α)) : Prop :=
  (∃ j p, (parentIds base)[j]? = some p ∧ ¬ValidId (parentIds base) j p ∧ Passed base vs j) ∨
    ∃ j l, FirstPath (parentIds base) j l ∧ ValidBelow (parentIds base) (j + 1) ∧
      (worldAlong (·.mMatrix) base l).allFinite = false ∧
      ∃ v ∈ vs, v.mWorldMatrix.allFinite = false

theorem mem_resolved {ts : List (Transform α)} {id : Nat} {t u : Transform α}
    (ht : ts[id]? = some t) : u ∈ ts.set id u :=
  List.mem_set (List.getElem?_eq_some_iff.mp ht).1 u

theorem Passed.fail {base ts vs : List (Transform α)} {k : Nat} {m : String}
    (h : Passed base ts k) (hv : visit ts k = .fail m vs) : Halted base vs := by
  obtain ⟨t, ht, hb, ⟨hc, rfl⟩ | ⟨p, tp, hc, hp, htp, hw, hnf, rfl⟩⟩ := visit_fail hv
  · exact .inl ⟨k, t.mParentId, h.parentId ht, mt (h.validId_iff ht hb).mpr hc, h⟩
  · right
    obtain ⟨l, hl⟩ := (h.parent_resolved htp (h.parentAt_of ht hp htp)).mp hw
    obtain ⟨l', hl', he⟩ := h.world_of_parent ht hp htp hw
    obtain rfl := hl.treePath.unique hl'
    refine ⟨k, l, hl, ?_, he ▸ hnf, _, mem_resolved ht, hnf⟩
    apply h.valid.succ
    intro q hq
    obtain ⟨t', ht', rfl⟩ := h.get_of_id hq
    rw [ht] at ht'
    cases ht'
    exact h.validId ht (.inr hc)

theorem Resolving.fail_not_finite {base ts vs : List (Transform α)} {id : Nat} {m : String}
    (h : Resolving base ts) (hvalid : ValidIds (parentIds base)) (hv : visit ts id = .fail m vs) :
    ∃ v ∈ vs, v.mWorldMatrix.allFinite = false := by
  obtain ⟨t, ht, hb, ⟨hc, rfl⟩ | ⟨p, tp, -, -, -, -, hnf, rfl⟩⟩ := visit_fail hv
  · exact absurd ((h.validId_iff ht hb).mpr (hvalid id _ (h.parentId ht))) hc
  · exact ⟨_, mem_resolved ht, hnf⟩

/-- The first pass, from an index on. -/
theorem sweep_passed {base ts : List (Transform α)} {k : Nat} (h : Passed base ts k) (m : Nat)
    (done : Bool) :
    (∀ us d, sweep (List.range' k m) ts done = .ok (us, d) → Passed base us (k + m)) ∧
      ∀ e vs, sweep (List.range' k m) ts done = .error (e, vs) → Halted base vs := by
  induction m generalizing k ts done with
  | zero =>
    refine ⟨?_, ?_⟩
    · intro us d hs
      cases hs
      exact h
    · intro e vs hs
      cases hs
  | succ m ih =>
    have hk : k + (m + 1) = k + 1 + m := by omega
    rw [List.range'_succ, sweep, hk]
    cases hv : visit ts k with
    | skip => exact ih (h.skip hv) done
    | resolved us => exact ih (h.step hv) false
    | fail e us =>
      refine ⟨?_, ?_⟩
      · intro us d hs
        cases hs
      · intro e' vs hs
        cases hs
        exact h.fail hv

/-- A loop that fails stops in its first pass, or at a product. -/
theorem loop_halted {base vs : List (Transform α)} {passes : Nat} {m : String}
    (h : Passed base base 0) (hp : pending base < passes) (hs : loop passes base = .error (m, vs)) :
    Halted base vs ∨ (ValidIds (parentIds base) ∧ ∃ v ∈ vs, v.mWorldMatrix.allFinite = false) := by
  cases passes with
  | zero => omega
  | succ passes =>
    have hfirst := sweep_passed h base.length true
    rw [← List.range_eq_range'] at hfirst
    rw [loop] at hs
    cases hw : sweep (List.range base.length) base true with
    | error r =>
      obtain ⟨e, us⟩ := r
      rw [hw] at hs
      cases hs
      exact .inl (hfirst.2 _ _ hw)
    | ok r =>
      obtain ⟨us, done⟩ := r
      rw [hw] at hs
      cases done with
      | true => cases hs
      | false =>
        right
        have hpassed := hfirst.1 us false hw
        have hvalid : ValidIds (parentIds base) := by
          apply ValidBelow.validIds
          rw [parentIds_length]
          exact hpassed.valid.mono (by omega)
        obtain ⟨-, -, -, hlt⟩ := sweep_ok h.toResolving hw
        have hpend : pending us < passes := by
          obtain hd | hlt := hlt rfl
          · cases hd
          · omega
        obtain ⟨ws, id, hres, hv⟩ := loop_error hpassed.toResolving hpend hs
        exact ⟨hvalid, hres.fail_not_finite hvalid hv⟩

theorem passed_started (ts : List (Transform α)) : Passed (started ts) (started ts) 0 := by
  refine ⟨resolving_started ts, ?_, fun i p hi => absurd hi (Nat.not_lt_zero i)⟩
  intro i t ht
  refine ⟨?_, ?_⟩
  · intro hb
    have hroot : rootAt (parentIds (started ts)) i := by
      obtain ⟨u, -, rfl⟩ := started_get.mp ht
      rw [rootAt, parentIds_get ht]
      by_contra hr
      rw [markRoot_other (fun h => hr (by rw [markRoot_mParentId, h]))] at hb
      cases hb
    exact ⟨[i], .root hroot, .inl hroot⟩
  · rintro ⟨l, -, hr | hi⟩
    · rw [rootAt, parentIds_get ht] at hr
      exact (resolving_started ts).roots i t ht (Option.some.inj hr)
    · exact absurd hi (Nat.not_lt_zero i)

end Evaluate

/-! ### What an evaluation that stops leaves -/

/-- The paths that an evaluation which stops at an id has come to: the roots, and below a
single root what the first pass finds before that id. -/
def Seen (ids : List Int) (i : Nat) (l : List Nat) : Prop :=
  FirstPath ids i l ∧ (rootAt ids i ∨ (ids.count (-1) = 1 ∧ ValidBelow ids (i + 1)))

/-- An evaluation that stops and leaves only finite matrices. -/
structure StopsFinite (ts : List (Transform α)) : Prop where
  locals : ∀ t ∈ ts, t.localMatrix.allFinite = true
  stops : (parentIds ts).count (-1) = 1 → ¬ValidIds (parentIds ts)
  products : ∀ i l, Seen (parentIds ts) i l →
    (worldAlong Transform.localMatrix ts l).allFinite = true

/-- An evaluation that stops and leaves the matrices that were there. -/
structure StopsAtRest (ts : List (Transform α)) : Prop extends StopsFinite ts where
  evaluated : ∀ t ∈ ts, t.localMatrix = t.mMatrix
  kept : ∀ i t l, ts[i]? = some t → Seen (parentIds ts) i l →
    worldAlong Transform.localMatrix ts l = t.mWorldMatrix

/-- The transforms that an evaluation has come to, and those it has not. -/
def Came (ts us : List (Transform α)) : Prop :=
  ∀ i t, ts[i]? = some t →
    (∃ l, Seen (parentIds ts) i l ∧
      us[i]? = some (t.evaluated (worldAlong Transform.localMatrix ts l))) ∨
    ((∀ l, ¬Seen (parentIds ts) i l) ∧ us[i]? = some t.updated)

theorem products_of_passed {ts us : List (Transform α)} {k : Nat}
    (h : Passed (started ts) us k) (hlocal : ∀ t ∈ ts, t.localMatrix.allFinite = true) {i : Nat}
    {l : List Nat} (hl : FirstPath (parentIds ts) i l) (hi : rootAt (parentIds ts) i ∨ i < k) :
    (worldAlong Transform.localMatrix ts l).allFinite = true := by
  obtain ⟨q, hq⟩ : ∃ q, (parentIds (started ts))[i]? = some q := by
    rw [parentIds_started]
    cases hl with
    | root hr => exact ⟨-1, hr⟩
    | child hc _ => exact ⟨_, hc.1.1⟩
  obtain ⟨u, hu, -⟩ := h.get_of_id hq
  have hb : u.bWorldMatrix = true := by
    rw [h.resolved i u hu, parentIds_started]
    exact ⟨l, hl, hi⟩
  obtain ⟨l', hl', hw, hf⟩ := h.sound i u hu hb
  rw [parentIds_started] at hl'
  obtain rfl := hl.treePath.unique hl'
  rw [worldAlong_started] at hw
  obtain hr | hf := hf
  · -- the matrix of a root is not looked at again
    have hroot : rootAt (parentIds ts) i := by
      rw [rootAt, ← parentIds_started, h.parentId hu, hr]
    obtain rfl := hl'.unique (.root hroot)
    have hlt : i < ts.length := by
      have := (List.getElem?_eq_some_iff.mp hroot).1
      simpa using this
    rw [worldAlong_root (List.getElem?_eq_getElem hlt)]
    exact hlocal _ (List.getElem_mem hlt)
  · rw [← hw]
    exact hf

theorem came_of_passed {ts us : List (Transform α)} {k : Nat} (h : Passed (started ts) us k)
    (hk : ∀ i, i < k ↔ (parentIds ts).count (-1) = 1 ∧ ValidBelow (parentIds ts) (i + 1)) :
    Came ts us := by
  intro i t ht
  obtain ⟨u, hu, -⟩ := h.get (started_get.mpr ⟨t, ht, rfl⟩)
  have hseen : u.bWorldMatrix = true ↔ ∃ l, Seen (parentIds ts) i l := by
    rw [h.resolved i u hu, hk i, parentIds_started]
    exact Iff.rfl
  rw [hu]
  cases hb : u.bWorldMatrix with
  | true =>
    obtain ⟨l, hl⟩ := hseen.mp hb
    exact .inl ⟨l, hl, congrArg some (h.eq_evaluated ht hu hb hl.1.treePath)⟩
  | false =>
    refine .inr ⟨fun l hl => ?_, congrArg some (h.eq_updated ht hu hb)⟩
    rw [hseen.mpr ⟨l, hl⟩] at hb
    cases hb

/-- An evaluation that stops tells in advance whether it leaves only finite matrices, and
then what it leaves. -/
theorem calcMatrices_stops {s s' : Subject α β} {conv : Option ConversionContext}
    (h : s.calcMatrices conv = some (false, s')) (hfin : ∀ t ∈ s.mTransforms, t.allFinite = true) :
    (StopsFinite s.mTransforms ∧ Came s.mTransforms s'.mTransforms) ∨
      (¬StopsFinite s.mTransforms ∧ ∃ v ∈ s'.mTransforms, v.allFinite = false) := by
  have hworld {vs : List (Transform α)} (hv : ∃ v ∈ vs, v.mWorldMatrix.allFinite = false) :
      ∃ v ∈ vs, v.allFinite = false := by
    obtain ⟨v, hv, hbad⟩ := hv
    refine ⟨v, hv, ?_⟩
    rw [Transform.allFinite, hbad, Bool.and_false, Bool.false_and]
  have hlocal (hall : ∀ t ∈ s.mTransforms, Evaluable t) :
      ∀ t ∈ s.mTransforms, t.localMatrix.allFinite = true := fun t ht => (hall t ht).2.2
  cases Subject.calcMatrices_cases h with
  | stopped hl =>
    obtain ⟨⟨t, ht, hbad⟩, hus⟩ := Subject.locals_not_finite hl hfin
    refine .inr ⟨fun hs => ?_, hus⟩
    rw [hs.locals t ht] at hbad
    cases hbad
  | rootless e hall hc =>
    have hp := passed_started s.mTransforms
    have hk (i : Nat) : i < 0 ↔ (parentIds s.mTransforms).count (-1) = 1 ∧
        ValidBelow (parentIds s.mTransforms) (i + 1) :=
      iff_of_false (Nat.not_lt_zero i) fun hv => hc hv.1
    refine .inl ⟨⟨hlocal hall, fun hc' => absurd hc' hc, ?_⟩, came_of_passed hp hk⟩
    intro i l hl
    exact products_of_passed hp (hlocal hall) hl.1 (hl.2.imp_right (hk i).mpr)
  | halted hall hc hr =>
    have hhalt := loop_halted (passed_started s.mTransforms) (pending_started (by omega)) hr
    rw [Halted, parentIds_started] at hhalt
    obtain (⟨j, p, hj, hbad, hp⟩ | ⟨j, l, hl, hb, hnf, hv⟩) | ⟨hvalid, hv⟩ := hhalt
    · have hbelow := hp.valid
      rw [parentIds_started] at hbelow
      have hk (i : Nat) : i < j ↔ (parentIds s.mTransforms).count (-1) = 1 ∧
          ValidBelow (parentIds s.mTransforms) (i + 1) := by
        refine ⟨fun hi => ⟨hc, hbelow.mono hi⟩, fun hv => ?_⟩
        by_contra hi
        exact hbad (hv.2 j p (by omega) hj)
      refine .inl ⟨⟨hlocal hall, fun _ hv => hbad (hv j p hj), ?_⟩, came_of_passed hp hk⟩
      intro i l hl
      exact products_of_passed hp (hlocal hall) hl.1 (hl.2.imp_right (hk i).mpr)
    · refine .inr ⟨fun hs => ?_, hworld hv⟩
      rw [worldAlong_started, hs.products j l ⟨hl, .inr ⟨hc, hb⟩⟩] at hnf
      cases hnf
    · exact .inr ⟨fun hs => hs.stops hc hvalid, hworld hv⟩

section stopped

variable {s s' : Subject α β} {conv : Option ConversionContext}
  (h : s.calcMatrices conv = some (false, s')) (hfin : ∀ t ∈ s.mTransforms, t.allFinite = true)
include h hfin

theorem stopsFinite_iff :
    StopsFinite s.mTransforms ↔ ∀ t ∈ s'.mTransforms, t.allFinite = true := by
  have hbare := (Subject.calcMatrices_frame h).1
  obtain ⟨hs, hcame⟩ | ⟨hs, u, hu, hbad⟩ := calcMatrices_stops h hfin
  · refine iff_of_true hs fun u hu => ?_
    obtain ⟨i, hi⟩ := List.mem_iff_getElem?.mp hu
    obtain ⟨t, ht, -⟩ := hbare.get hi
    have hmem := List.mem_of_getElem? ht
    have hworld := Subject.world_finite_iff (hfin t hmem) (hs.locals t hmem)
    obtain ⟨l, hl, ht'⟩ | ⟨-, ht'⟩ := hcame i t ht
    · rw [hi] at ht'
      cases ht'
      exact (hworld _ _).mpr (hs.products i l hl)
    · rw [hi] at ht'
      cases ht'
      exact (hworld _ _).mpr ((Transform.allFinite_iff t).mp (hfin t hmem)).2.1
  · refine iff_of_false hs fun hf => ?_
    rw [hf u hu] at hbad
    cases hbad

theorem stopsAtRest_iff : StopsAtRest s.mTransforms ↔ s'.visible = s.visible := by
  have hbare := (Subject.calcMatrices_frame h).1
  have hiff := visible_eq_iff (Subject.bare_calcMatrices h)
  rw [worlds, worlds, map_eq_iff_get hbare.length, map_eq_iff_get hbare.length] at hiff
  refine ⟨?_, ?_⟩
  · intro hs
    obtain ⟨-, hcame⟩ | ⟨hn, -⟩ := calcMatrices_stops h hfin
    · refine hiff.mpr ⟨?_, ?_⟩
      · intro i t ht
        have he := hs.evaluated t (List.mem_of_getElem? ht)
        obtain ⟨l, -, ht'⟩ | ⟨-, ht'⟩ := hcame i t ht
        · exact ⟨_, ht', he⟩
        · exact ⟨_, ht', he⟩
      · intro i t ht
        obtain ⟨l, hl, ht'⟩ | ⟨-, ht'⟩ := hcame i t ht
        · exact ⟨_, ht', hs.kept i t l ht hl⟩
        · exact ⟨_, ht', rfl⟩
    · exact absurd hs.toStopsFinite hn
  · intro hv
    have hfin' : ∀ u ∈ s'.mTransforms, u.allFinite = true := by
      intro u hu
      have hts : s'.mTransforms.map Transform.visible = s.mTransforms.map Transform.visible :=
        congrArg (fun v => v.mTransforms) hv
      have hmem := List.mem_map_of_mem (f := Transform.visible) hu
      rw [hts] at hmem
      obtain ⟨t, ht, he⟩ := List.mem_map.mp hmem
      change u.visible.allFinite = true
      rw [← he]
      exact hfin t ht
    have hstops := (stopsFinite_iff h hfin).mpr hfin'
    obtain ⟨hlocals, hworlds⟩ := hiff.mp hv
    obtain ⟨-, hcame⟩ | ⟨hn, -⟩ := calcMatrices_stops h hfin
    · refine ⟨hstops, ?_, ?_⟩
      · intro t ht
        obtain ⟨i, hi⟩ := List.mem_iff_getElem?.mp ht
        obtain ⟨u, hu, he⟩ := hlocals i t hi
        obtain ⟨l, -, ht'⟩ | ⟨-, ht'⟩ := hcame i t hi
        all_goals
          rw [hu] at ht'
          cases ht'
          exact he
      · intro i t l ht hl
        obtain ⟨u, hu, he⟩ := hworlds i t ht
        obtain ⟨l', hl', ht'⟩ | ⟨hno, -⟩ := hcame i t ht
        · rw [hu] at ht'
          cases ht'
          rw [hl.1.treePath.unique hl'.1.treePath]
          exact he
        · exact absurd hl (hno l)
    · exact absurd hstops hn

end stopped

end Open3DStream
