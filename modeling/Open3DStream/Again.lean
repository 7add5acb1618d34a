import Open3DStream.Senders
import Open3DStream.WorldMatrix

/-! A subject that is evaluated once more. -/

namespace Open3DStream

open Evaluate

variable {α β : Type} [Numeric α β]

theorem Transform.updated_of_bare {t u : Transform α} (h : t.bare = u.bare) :
    t.updated = { u.updated with mWorldMatrix := t.mWorldMatrix } := by
  have hl := Transform.localMatrix_of_bare h
  obtain ⟨translation, rotation, scale, m, w, b, ms, order, name, parent⟩ := t
  obtain ⟨translation', rotation', scale', m', w', b', ms', order', name', parent'⟩ := u
  simp only [Transform.bare, Transform.mk.injEq] at h
  obtain ⟨rfl, rfl, rfl, -, -, -, rfl, rfl, rfl, rfl⟩ := h
  rw [Transform.updated, Transform.updated, hl]

namespace Evaluate

/-! ### World matrices that the loop has not come to -/

/-- A transform without a world matrix of its own, with the one of another list. -/
def carry (b : List (Transform α)) (i : Nat) (t : Transform α) : Transform α :=
  if t.bWorldMatrix then t
  else { t with mWorldMatrix := (b[i]?).elim t.mWorldMatrix (·.mWorldMatrix) }

def carried (b ts : List (Transform α)) : List (Transform α) := ts.mapIdx (carry b)

theorem carry_of_true {b : List (Transform α)} {i : Nat} {t : Transform α}
    (h : t.bWorldMatrix = true) : carry b i t = t := if_pos h

theorem carry_of_false {b : List (Transform α)} {i : Nat} {t : Transform α}
    (h : t.bWorldMatrix = false) : carry b i t =
      { t with mWorldMatrix := (b[i]?).elim t.mWorldMatrix (·.mWorldMatrix) } := by
  rw [carry, h]
  rfl

theorem carried_get (b ts : List (Transform α)) (i : Nat) :
    (carried b ts)[i]? = (ts[i]?).map (carry b i) := by
  rw [carried, List.getElem?_mapIdx]

theorem carried_set (b ts : List (Transform α)) (i : Nat) {t : Transform α}
    (h : t.bWorldMatrix = true) : carried b (ts.set i t) = (carried b ts).set i t := by
  apply List.ext_getElem?
  intro j
  rw [carried_get, List.getElem?_set, List.getElem?_set]
  by_cases hj : i = j
  · simp only [hj, if_true, carried, List.length_mapIdx]
    split
    · rw [Option.map_some, carry_of_true h]
    · rfl
  · rw [if_neg hj, if_neg hj, carried_get]

theorem carried_self (ts : List (Transform α)) : carried ts ts = ts := by
  apply List.ext_getElem?
  intro i
  rw [carried_get]
  cases ht : ts[i]? with
  | none => rfl
  | some t =>
    rw [Option.map_some, carry, ht]
    split <;> rfl

/-- The same visit of two lists, of which the second one has the world matrices of `b` where
there are none. -/
inductive SameVisit (b : List (Transform α)) : Visit α → Visit α → Prop
  | skip : SameVisit b .skip .skip
  | fail (e e' : String) (vs : List (Transform α)) :
      SameVisit b (.fail e vs) (.fail e' (carried b vs))
  | resolved (vs : List (Transform α)) : SameVisit b (.resolved vs) (.resolved (carried b vs))

/-- The loop never looks at a world matrix that it has not computed. -/
theorem visit_carried (b ts : List (Transform α)) (id : Nat) :
    SameVisit b (visit ts id) (visit (carried b ts) id) := by
  cases ht : ts[id]? with
  | none =>
    have hc : (carried b ts)[id]? = none := by rw [carried_get, ht, Option.map_none]
    simp only [visit, ht, hc]
    exact .skip
  | some t =>
    have hc : (carried b ts)[id]? = some (carry b id t) := by rw [carried_get, ht, Option.map_some]
    cases hb : t.bWorldMatrix with
    | true =>
      rw [visit_done ht hb, visit_done hc (by rw [carry_of_true hb, hb])]
      exact .skip
    | false =>
      have hcarry := carry_of_false (b := b) (i := id) hb
      have hb' : (carry b id t).bWorldMatrix = false := by rw [hcarry, hb]
      have hid : (carry b id t).mParentId = t.mParentId := by rw [hcarry]
      have hlen : (carried b ts).length = ts.length := List.length_mapIdx
      have hcheck : Checked (carried b ts) id (carry b id t) ↔ Checked ts id t := by
        rw [Checked, Checked, hid, hlen]
      by_cases hck : Checked ts id t
      · obtain ⟨p, tp, hp, htp⟩ := checked_parent hck
        have htp' : (carried b ts)[p]? = some (carry b p tp) := by
          rw [carried_get, htp, Option.map_some]
        rw [visit_checked ht hb hck hp htp,
          visit_checked hc hb' (hcheck.mpr hck) (hid.trans hp) htp']
        cases hw : tp.bWorldMatrix with
        | false =>
          have hw' : (carry b p tp).bWorldMatrix = false := by rw [carry_of_false hw, hw]
          rw [if_pos rfl, if_pos hw']
          exact .skip
        | true =>
          have hres : resolvedBy tp (carry b id t) = resolvedBy tp t := by rw [hcarry]; rfl
          have hset := carried_set b ts id (t := resolvedBy tp t) rfl
          have hne : ¬true = false := by decide
          rw [carry_of_true hw, hw, hres, ← hset, if_neg hne, if_neg hne]
          split
          · exact .resolved _
          · exact .fail _ _ _
      · obtain ⟨e, he⟩ := visit_unchecked ht hb hck
        obtain ⟨e', he'⟩ := visit_unchecked hc hb' (mt hcheck.mp hck)
        rw [he, he']
        exact .fail e e' ts

theorem sweep_carried (b : List (Transform α)) {ids : List Nat} {ts vs : List (Transform α)}
    {done : Bool} :
    (∀ d, sweep ids ts done = .ok (vs, d) → sweep ids (carried b ts) done = .ok (carried b vs, d)) ∧
      ∀ e, sweep ids ts done = .error (e, vs) →
        ∃ e', sweep ids (carried b ts) done = .error (e', carried b vs) := by
  induction ids generalizing ts done with
  | nil =>
    refine ⟨?_, ?_⟩
    · intro d h
      cases h
      rfl
    · intro e h
      cases h
  | cons id ids ih =>
    rw [sweep, sweep]
    have hv := visit_carried b ts id
    generalize visit ts id = v at hv
    generalize visit (carried b ts) id = v' at hv
    cases hv with
    | skip => exact ih
    | resolved us => exact ih
    | fail m m' us =>
      refine ⟨?_, ?_⟩
      · intro d h
        cases h
      · intro e h
        cases h
        exact ⟨m', rfl⟩

theorem loop_carried (b : List (Transform α)) {passes : Nat} {ts vs : List (Transform α)} {e : String}
    (h : loop passes ts = .error (e, vs)) :
    ∃ e', loop passes (carried b ts) = .error (e', carried b vs) := by
  induction passes generalizing ts with
  | zero =>
    cases h
    exact ⟨_, rfl⟩
  | succ passes ih =>
    have hlen : (carried b ts).length = ts.length := List.length_mapIdx
    rw [loop] at h ⊢
    rw [hlen]
    cases hs : sweep (List.range ts.length) ts true with
    | error r =>
      obtain ⟨m, us⟩ := r
      rw [hs] at h
      cases h
      obtain ⟨e', he'⟩ := (sweep_carried b).2 e hs
      exact ⟨e', by rw [he']⟩
    | ok r =>
      obtain ⟨us, done⟩ := r
      rw [hs] at h
      rw [(sweep_carried b).1 done hs]
      cases done with
      | true => cases h
      | false => exact ih h

/-- Evaluating a list again starts where the first time started, apart from world matrices
that the loop does not look at. -/
theorem started_again {ts us : List (Transform α)} (h : SameBare us ts) :
    started us = carried us (started ts) := by
  apply List.ext_getElem?
  intro i
  rw [carried_get]
  cases hu : us[i]? with
  | none =>
    have hi : us.length ≤ i := List.getElem?_eq_none_iff.mp hu
    have hlen := h.length
    rw [List.getElem?_eq_none (by simp [started]; omega),
      List.getElem?_eq_none (by simp [started]; omega)]
    rfl
  | some u =>
    obtain ⟨t, ht, hb⟩ := h.get hu
    have hup := Transform.updated_of_bare hb
    have hid : u.updated.mParentId = t.updated.mParentId := by rw [hup]
    rw [started_get.mpr ⟨u, hu, rfl⟩, started_get.mpr ⟨t, ht, rfl⟩, Option.map_some]
    congr 1
    by_cases hr : t.updated.mParentId = -1
    · rw [markRoot_root hr, markRoot_root (hid.trans hr), carry_of_true rfl, hup]
    · rw [markRoot_other hr, markRoot_other (hid ▸ hr), carry_of_false rfl, hu, hup]
      rfl

end Evaluate

/-! ### The second evaluation -/

namespace Subject

/-- An evaluation that fails at a local matrix leaves one that is not finite. -/
theorem locals_not_finite {ts us : List (Transform α)} {e : String}
    (h : locals ts = some (some e, us)) (hfin : ∀ t ∈ ts, t.allFinite = true) :
    (∃ t ∈ ts, t.localMatrix.allFinite = false) ∧ ∃ u ∈ us, u.allFinite = false := by
  induction ts generalizing us with
  | nil => cases h
  | cons t ts ih =>
    obtain ⟨ht, hts⟩ := List.forall_mem_cons.mp hfin
    by_cases he : Evaluable t
    · rw [locals_cons ts he, Option.map_eq_some_iff] at h
      obtain ⟨⟨e', us'⟩, hl, h⟩ := h
      cases h
      obtain ⟨⟨u, hu, hbad⟩, v, hv, hbad'⟩ := ih hl hts
      exact ⟨⟨u, List.mem_cons_of_mem t hu, hbad⟩, v, List.mem_cons_of_mem _ hv, hbad'⟩
    · by_cases hm : t.EnoughMatrices
      · have hl : t.localMatrix.allFinite = false := by
          rw [← Bool.not_eq_true]
          exact fun hl => he ⟨ht, hm, hl⟩
        have hu := updated_allFinite ht
        have hup : t.update = some t.updated := Transform.update_eq hm
        rw [hl] at hu
        simp only [locals, ht, hup, hu, Bool.not_true, Bool.not_false, Bool.false_eq_true,
          if_false, if_true, Option.bind_eq_bind, Option.bind_some] at h
        cases h
        exact ⟨⟨t, List.mem_cons_self, hl⟩, t.updated, List.mem_cons_self, hu⟩
      · rw [locals, ht, Transform.update_eq_none hm] at h
        cases h

/-- An evaluation that failed and left only finite matrices fails in the same way. -/
theorem calcMatrices_fails_again {s s' : Subject α β} {conv : Option ConversionContext}
    (h : s.calcMatrices conv = some (false, s')) (hfin : ∀ t ∈ s.mTransforms, t.allFinite = true)
    (hfin' : ∀ t ∈ s'.mTransforms, t.allFinite = true) :
    ∃ e, s'.calcMatrices conv = some (false, { s' with mError := e }) := by
  have hbare := (calcMatrices_frame h).1
  have hagain := started_again hbare
  cases calcMatrices_cases h with
  | stopped hl =>
    obtain ⟨-, u, hu, hbad⟩ := locals_not_finite hl hfin
    rw [hfin' u hu] at hbad
    cases hbad
  | rootless e hall hc =>
    have hall' := hbare.evaluable hall hfin'
    have hc' : (parentIds (started s.mTransforms)).count (-1) ≠ 1 := by
      rw [parentIds_started]
      exact hc
    obtain ⟨e', he'⟩ := calcMatrices_rootless hall' hc' conv
    refine ⟨e', he'.trans ?_⟩
    dsimp only at hagain ⊢
    rw [hagain, carried_self]
  | @halted e ts hall hc hr =>
    have hall' := hbare.evaluable hall hfin'
    have hc' : (parentIds ts).count (-1) = 1 := by rw [hbare.parentIds, hc]
    obtain ⟨e', he'⟩ := loop_carried ts hr
    have hlen : (carried ts (started s.mTransforms)).length = (started s.mTransforms).length :=
      List.length_mapIdx
    dsimp only at hagain
    rw [calcMatrices_rooted hall' hc']
    dsimp only
    rw [hagain, hlen, he', carried_self]
    exact ⟨e', rfl⟩

/-! ### What a successful evaluation leaves -/

theorem world_finite_iff {t : Transform α} (hf : t.allFinite = true)
    (hl : t.localMatrix.allFinite = true) (w : Matrix α) (b : Bool) :
    ({ t with mMatrix := t.localMatrix, mWorldMatrix := w, bWorldMatrix := b } :
      Transform α).allFinite = true ↔ w.allFinite = true := by
  obtain ⟨-, -, hv⟩ := t.allFinite_iff.mp hf
  rw [Transform.allFinite_iff]
  exact ⟨fun h => h.2.1, fun h => ⟨hl, h, hv⟩⟩

/-- The world matrices an evaluation leaves are finite once they are converted. -/
def ConvertsFinite (conv : Option ConversionContext) (s : Subject α β) : Prop :=
  ∀ i t, s.mTransforms[i]? = some t →
    (∀ l, TreePath (parentIds s.mTransforms) i l → (convertWorld conv
      (worldAlong Transform.localMatrix s.mTransforms l)).allFinite = true) ∧
    ((∀ l, ¬TreePath (parentIds s.mTransforms) i l) →
      (convertWorld conv t.mWorldMatrix).allFinite = true)

/-- Converting again the world matrices of the transforms that no root leads to changes
none of them. -/
def ConvertsOnce (conv : Option ConversionContext) (s : Subject α β) : Prop :=
  ∀ i t, s.mTransforms[i]? = some t → (∀ l, ¬TreePath (parentIds s.mTransforms) i l) →
    convertWorld conv (convertWorld conv t.mWorldMatrix) = convertWorld conv t.mWorldMatrix

section succeeded

variable {s s' : Subject α β} {conv : Option ConversionContext}
  (h : s.calcMatrices conv = some (true, s'))
include h

/-- Each transform that was there, with what has become of it. -/
theorem calcMatrices_get {i : Nat} {t : Transform α} (ht : s.mTransforms[i]? = some t) :
    (∃ l, TreePath (parentIds s.mTransforms) i l ∧ s'.mTransforms[i]? =
      some (t.evaluated (convertWorld conv (worldAlong Transform.localMatrix s.mTransforms l)))) ∨
    ((∀ l, ¬TreePath (parentIds s.mTransforms) i l) ∧ s'.mTransforms[i]? =
      some { t.updated with mWorldMatrix := convertWorld conv t.mWorldMatrix }) := by
  by_cases hl : ∃ l, TreePath (parentIds s.mTransforms) i l
  · obtain ⟨l, hl⟩ := hl
    exact .inl ⟨l, hl, calcMatrices_path h ht hl⟩
  · have hno : ∀ l, ¬TreePath (parentIds s.mTransforms) i l := fun l hl' => hl ⟨l, hl'⟩
    exact .inr ⟨hno, calcMatrices_no_path h ht hno⟩

theorem calcMatrices_locals :
    s'.mTransforms.map (·.mMatrix) = s.mTransforms.map Transform.localMatrix := by
  have hlen := (calcMatrices_frame h).1.length
  apply List.ext_getElem?
  intro i
  rw [List.getElem?_map, List.getElem?_map]
  cases ht : s.mTransforms[i]? with
  | none =>
    have hi := List.getElem?_eq_none_iff.mp ht
    rw [List.getElem?_eq_none (by omega)]
    rfl
  | some t =>
    obtain ⟨l, -, ht'⟩ | ⟨-, ht'⟩ := calcMatrices_get h ht <;> rw [ht'] <;> rfl

theorem calcMatrices_finite_iff :
    (∀ t ∈ s'.mTransforms, t.allFinite = true) ↔ ConvertsFinite conv s := by
  have hall := ((calcMatrices_true_iff s conv).mp ⟨s', h⟩).evaluable
  have hbare := (calcMatrices_frame h).1
  have hworld {i : Nat} {t : Transform α} (ht : s.mTransforms[i]? = some t) (w : Matrix α)
      (b : Bool) : ({ t with mMatrix := t.localMatrix, mWorldMatrix := w, bWorldMatrix := b } :
        Transform α).allFinite = true ↔ w.allFinite = true := by
    obtain ⟨hf, -, hl⟩ := hall t (List.mem_of_getElem? ht)
    exact world_finite_iff hf hl w b
  refine ⟨?_, ?_⟩
  · intro hfin i t ht
    refine ⟨?_, ?_⟩
    · intro l hl
      exact (hworld ht _ _).mp (hfin _ (List.mem_of_getElem? (calcMatrices_path h ht hl)))
    · intro hl
      exact (hworld ht _ _).mp (hfin _ (List.mem_of_getElem? (calcMatrices_no_path h ht hl)))
  · intro hc u hu
    obtain ⟨i, hi⟩ := List.mem_iff_getElem?.mp hu
    obtain ⟨t, ht, -⟩ := hbare.get hi
    obtain ⟨hpath, hno⟩ := hc i t ht
    obtain ⟨l, hl, ht'⟩ | ⟨hl, ht'⟩ := calcMatrices_get h ht
    · rw [hi] at ht'
      cases ht'
      exact (hworld ht _ _).mpr (hpath l hl)
    · rw [hi] at ht'
      cases ht'
      exact (hworld ht _ _).mpr (hno hl)

end succeeded

end Subject

/-! ### What there is to see of it -/

omit [Numeric α β] in
theorem visible_of_silent {s s' : Subject α β} (h : s'.silent = s.silent) :
    s'.visible = s.visible := by
  have hv (u : Subject α β) : u.visible = u.silent.visible := rfl
  rw [hv, h, ← hv]

theorem visible_eq_iff {s s' : Subject α β} (hb : s'.bare = s.bare) : s'.visible = s.visible ↔
    s'.mTransforms.map (·.mMatrix) = s.mTransforms.map (·.mMatrix) ∧ worlds s' = worlds s := by
  refine ⟨?_, ?_⟩
  · intro h
    have hts : s'.mTransforms.map Transform.visible = s.mTransforms.map Transform.visible :=
      congrArg (fun u => u.mTransforms) h
    have hlocals := congrArg (List.map fun t : Transform α => t.mMatrix) hts
    have hworlds := congrArg (List.map fun t : Transform α => t.mWorldMatrix) hts
    rw [List.map_map, List.map_map] at hlocals hworlds
    exact ⟨hlocals, hworlds⟩
  · rintro ⟨hlocals, hworlds⟩
    obtain ⟨derived, name, uuid, us, error, enabled⟩ := s'
    obtain ⟨derived', name', uuid', ts, error', enabled'⟩ := s
    simp only [Subject.bare, Subject.mk.injEq, true_and] at hb
    obtain ⟨rfl, rfl, rfl, hbare, rfl⟩ := hb
    have hts : us.map Transform.visible = ts.map Transform.visible := by
      apply List.ext_getElem?
      intro k
      have hbk := congrArg (·[k]?) hbare
      have hlk := congrArg (·[k]?) hlocals
      have hwk := congrArg (·[k]?) hworlds
      simp only [worlds, List.getElem?_map] at hbk hlk hwk ⊢
      cases hu : us[k]? <;> cases ht : ts[k]? <;>
        simp_all [Transform.bare, Transform.visible]
    simp only [Subject.visible, hts]

/-- The error that a subject has does not matter to its evaluation. -/
theorem Subject.calcMatrices_silent {s s' t : Subject α β} {conv : Option ConversionContext}
    {b : Bool} (ht : t.silent = s.silent) (h : s.calcMatrices conv = some (b, s')) :
    ∃ t', t.calcMatrices conv = some (b, t') ∧ t'.silent = s'.silent := by
  obtain ⟨error, rfl⟩ : ∃ error, t = { s with mError := error } := by
    obtain ⟨derived, name, uuid, ts, error, enabled⟩ := s
    obtain ⟨derived', name', uuid', us, error', enabled'⟩ := t
    simp only [silent, mk.injEq, true_and] at ht
    obtain ⟨rfl, rfl, rfl, rfl, rfl⟩ := ht
    exact ⟨error', rfl⟩
  cases calcMatrices_cases h with
  | stopped hl => exact ⟨_, calcMatrices_stopped (s := { s with mError := error }) hl conv, rfl⟩
  | rootless e hall hc =>
    obtain ⟨e', he'⟩ := calcMatrices_rootless (s := { s with mError := error }) hall hc conv
    exact ⟨_, he', rfl⟩
  | halted hall hc hr =>
    rw [calcMatrices_rooted (s := { s with mError := error }) hall hc, hr]
    exact ⟨_, rfl, rfl⟩
  | resolved hall hc hr =>
    rw [calcMatrices_rooted (s := { s with mError := error }) hall hc, hr]
    exact ⟨_, rfl, rfl⟩

theorem calcMatrices_succeeds_again {s s' : Subject α β} {conv : Option ConversionContext}
    (h : s.calcMatrices conv = some (true, s'))
    (hfin : ∀ t ∈ s'.mTransforms, t.allFinite = true) :
    ∃ s'', s'.calcMatrices conv = some (true, s'') ∧
      (s''.visible = s'.visible ↔ Subject.ConvertsOnce conv s) := by
  have hacc := (Subject.calcMatrices_true_iff s conv).mp ⟨s', h⟩
  have hbare := (Subject.calcMatrices_frame h).1
  obtain ⟨s'', h'⟩ := (Subject.calcMatrices_true_iff s' conv).mpr (hacc.again hbare hfin)
  have hlocals : s''.mTransforms.map (·.mMatrix) = s'.mTransforms.map (·.mMatrix) := by
    rw [Subject.calcMatrices_locals h', Subject.calcMatrices_locals h]
    exact hbare.map_eq Transform.localMatrix_bare
  refine ⟨s'', h', ?_⟩
  rw [visible_eq_iff (Subject.bare_calcMatrices h'), and_iff_right hlocals, worlds_eq_iff h',
    expressedBy_iff_agreeOn h, AgreeOn, Subject.ConvertsOnce, hbare.parentIds]
  refine ⟨?_, ?_⟩
  · intro ha i t ht hno
    exact (ha i _ (Subject.calcMatrices_no_path h ht hno)).2 hno
  · intro hc i t' ht'
    refine ⟨fun _ _ => rfl, ?_⟩
    intro hno
    obtain ⟨t, ht, -⟩ := hbare.get ht'
    have hget := Subject.calcMatrices_no_path h ht hno
    rw [ht'] at hget
    cases hget
    exact hc i t ht hno

/-- For a subject that is accepted. -/
theorem visible_calcMatrices_iff {s s' : Subject α β} {conv : Option ConversionContext}
    (h : s.calcMatrices conv = some (true, s')) : s'.visible = s.visible ↔
      (∀ t ∈ s.mTransforms, t.localMatrix = t.mMatrix) ∧ ExpressedBy conv s := by
  rw [visible_eq_iff (Subject.bare_calcMatrices h), worlds_eq_iff h,
    Subject.calcMatrices_locals h, List.map_inj_left]

end Open3DStream
