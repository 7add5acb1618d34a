import Open3DStream.Calc

namespace Open3DStream

open Evaluate

variable {α β : Type} [Numeric α β]

/-- A transform without the three fields that `calcMatrices` computes. -/
def Transform.bare (t : Transform α) : Transform α :=
  { t with mMatrix := Matrix.identity, mWorldMatrix := Matrix.identity, bWorldMatrix := false }

/-- Two lists that differ in computed fields only. -/
def SameBare (ts us : List (Transform α)) : Prop := ts.map Transform.bare = us.map Transform.bare

namespace SameBare

variable {ts us : List (Transform α)}

theorem length (h : SameBare ts us) : ts.length = us.length := by
  simpa using congrArg List.length h

theorem get (h : SameBare ts us) {i : Nat} {t : Transform α} (ht : ts[i]? = some t) :
    ∃ u, us[i]? = some u ∧ t.bare = u.bare := by
  have hi := congrArg (fun l => l[i]?) h
  simp only [List.getElem?_map, ht, Option.map_some] at hi
  obtain ⟨u, hu, he⟩ := Option.map_eq_some_iff.mp hi.symm
  exact ⟨u, hu, he.symm⟩

theorem map_eq {γ : Type} (h : SameBare ts us) {f : Transform α → γ} (hf : ∀ t, f t.bare = f t) :
    ts.map f = us.map f := by
  have hb := congrArg (List.map f) h
  simpa [Function.comp_def, hf] using hb

theorem set (h : SameBare ts us) {i : Nat} {t u : Transform α} (ht : ts[i]? = some t)
    (hu : u.bare = t.bare) : SameBare (ts.set i u) us := by
  rw [SameBare, List.map_set, hu, ← h]
  apply List.ext_getElem?
  intro j
  rw [List.getElem?_set]
  by_cases hj : i = j
  · subst hj
    have hlt := (List.getElem?_eq_some_iff.mp ht).1
    rw [if_pos rfl, if_pos (by simpa using hlt), List.getElem?_map, ht, Option.map_some]
  · rw [if_neg hj]

end SameBare

namespace Transform

theorem factors_bare (t : Transform α) (ops : List ComponentType) (ms : List (TransformMatrix α)) :
    t.bare.factors ops ms = t.factors ops ms := by
  induction ops generalizing ms with
  | nil => rfl
  | cons op ops ih => cases op <;> simp only [factors, ih] <;> rfl

theorem localMatrix_bare (t : Transform α) : t.bare.localMatrix = t.localMatrix := by
  rw [localMatrix, localMatrix, factors_bare]
  rfl

theorem localMatrix_of_bare {t u : Transform α} (h : t.bare = u.bare) :
    t.localMatrix = u.localMatrix := by
  rw [← localMatrix_bare t, h, localMatrix_bare]

theorem evaluated_evaluated (t : Transform α) (v w : Matrix α) :
    (t.evaluated v).evaluated w = t.evaluated w := by
  have h : (t.evaluated v).localMatrix = t.localMatrix := localMatrix_of_bare rfl
  simp only [evaluated] at h ⊢
  rw [h]

theorem enough_of_bare {t u : Transform α} (h : t.bare = u.bare) (ht : t.EnoughMatrices) :
    u.EnoughMatrices := by
  have hb : t.bare.EnoughMatrices := ht
  rw [h] at hb
  exact hb

end Transform

theorem SameBare.parentIds {ts us : List (Transform α)} (h : SameBare ts us) :
    parentIds ts = parentIds us := h.map_eq fun _ => rfl

theorem SameBare.worldAlong {ts us : List (Transform α)} (h : SameBare ts us) (l : List Nat) :
    worldAlong Transform.localMatrix ts l = worldAlong Transform.localMatrix us l := by
  have hl : ts.map Transform.localMatrix = us.map Transform.localMatrix :=
    h.map_eq Transform.localMatrix_bare
  have hi (i : Nat) : ts[i]?.map Transform.localMatrix = us[i]?.map Transform.localMatrix := by
    rw [← List.getElem?_map, hl, List.getElem?_map]
  simp only [Open3DStream.worldAlong, along, hi]

theorem SameBare.evaluable {ts us : List (Transform α)} (h : SameBare us ts)
    (hts : ∀ t ∈ ts, Evaluable t) (hfin : ∀ u ∈ us, u.allFinite = true) :
    ∀ u ∈ us, Evaluable u := by
  intro u hu
  obtain ⟨i, hi⟩ := List.mem_iff_getElem?.mp hu
  obtain ⟨t, ht, hb⟩ := h.get hi
  obtain ⟨-, henough, hlocal⟩ := hts t (List.mem_of_getElem? ht)
  refine ⟨hfin u hu, Transform.enough_of_bare hb.symm henough, ?_⟩
  rw [Transform.localMatrix_of_bare hb]
  exact hlocal

theorem Subject.Acceptable.again {ts us : List (Transform α)} (h : Subject.Acceptable ts) (hb : SameBare us ts)
    (hfin : ∀ u ∈ us, u.allFinite = true) : Subject.Acceptable us := by
  have hids := hb.parentIds
  refine ⟨hb.evaluable h.evaluable hfin, by rw [hids]; exact h.oneRoot,
    by rw [hids]; exact h.validIds, ?_⟩
  intro i l hl hr
  rw [hids] at hl hr
  rw [hb.worldAlong]
  exact h.products i l hl hr

namespace Evaluate

theorem update_bare {t t' : Transform α} (h : t.update = some t') : t'.bare = t.bare := by
  by_cases he : t.EnoughMatrices
  · rw [Transform.update_eq he] at h
    cases h
    rfl
  · rw [Transform.update_eq_none he] at h
    cases h

theorem locals_bare {ts us : List (Transform α)} {e : Option String}
    (h : locals ts = some (e, us)) : SameBare us ts := by
  induction ts generalizing us e with
  | nil => cases h; rfl
  | cons t ts ih =>
    rw [locals] at h
    split at h
    · cases h
      rfl
    · rw [Option.bind_eq_bind, Option.bind_eq_some_iff] at h
      obtain ⟨t', ht', h⟩ := h
      have hb := update_bare ht'
      split at h
      · cases h
        simp [SameBare, hb]
      · rw [Option.bind_eq_bind, Option.bind_eq_some_iff] at h
        obtain ⟨⟨e', us'⟩, hl, h⟩ := h
        cases h
        have hr : us'.map Transform.bare = ts.map Transform.bare := ih hl
        simp [SameBare, hb, hr]

theorem markRoot_bare (ts : List (Transform α)) : SameBare (ts.map markRoot) ts := by
  have h (t : Transform α) : (markRoot t).bare = t.bare := by
    rw [markRoot]
    split <;> rfl
  simp [SameBare, Function.comp_def, h]

theorem visit_bare {ts us vs : List (Transform α)} {id : Nat} (hb : SameBare ts us) :
    (visit ts id = .resolved vs → SameBare vs us) ∧
      ∀ e, visit ts id = .fail e vs → SameBare vs us := by
  refine ⟨?_, ?_⟩
  · intro h
    obtain ⟨t, p, tp, ht, -, -, -, -, -, -, rfl⟩ := visit_resolved h
    exact hb.set ht rfl
  · intro e h
    obtain ⟨t, ht, -, ⟨-, rfl⟩ | ⟨p, tp, -, -, -, -, -, rfl⟩⟩ := visit_fail h
    · exact hb
    · exact hb.set ht rfl

theorem sweep_bare {ts us : List (Transform α)} (ids : List Nat) (done : Bool)
    (hb : SameBare ts us) :
    (∀ vs d, sweep ids ts done = .ok (vs, d) → SameBare vs us) ∧
      ∀ e vs, sweep ids ts done = .error (e, vs) → SameBare vs us := by
  induction ids generalizing ts done with
  | nil =>
    refine ⟨?_, ?_⟩
    · intro vs d h
      cases h
      exact hb
    · intro e vs h
      cases h
  | cons id ids ih =>
    rw [sweep]
    cases hv : visit ts id with
    | skip => exact ih _ hb
    | resolved ws => exact ih _ ((visit_bare hb).1 hv)
    | fail m ws =>
      refine ⟨?_, ?_⟩
      · intro vs d h
        cases h
      · intro e vs h
        cases h
        exact (visit_bare hb).2 m hv

theorem loop_bare {ts us : List (Transform α)} (passes : Nat) (hb : SameBare ts us) :
    (∀ vs, loop passes ts = .ok vs → SameBare vs us) ∧
      ∀ e vs, loop passes ts = .error (e, vs) → SameBare vs us := by
  induction passes generalizing ts with
  | zero =>
    refine ⟨?_, ?_⟩
    · intro vs h
      cases h
    · intro e vs h
      cases h
      exact hb
  | succ passes ih =>
    obtain ⟨hok, herr⟩ := sweep_bare (List.range ts.length) true hb
    rw [loop]
    cases hs : sweep (List.range ts.length) ts true with
    | error r =>
      refine ⟨?_, ?_⟩
      · intro vs h
        cases h
      · intro e vs h
        cases h
        exact herr e vs hs
    | ok r =>
      obtain ⟨ws, d⟩ := r
      have hw := hok ws d hs
      cases d with
      | false => exact ih hw
      | true =>
        refine ⟨?_, ?_⟩
        · intro vs h
          cases h
          exact hw
        · intro e vs h
          cases h

end Evaluate

/-- Whatever `calcMatrices` returns, it changes computed fields and the error only. -/
theorem Subject.calcMatrices_frame {s s' : Subject α β} {conv : Option ConversionContext} {b : Bool}
    (h : s.calcMatrices conv = some (b, s')) :
    SameBare s'.mTransforms s.mTransforms ∧
      s' = { s with mTransforms := s'.mTransforms, mError := s'.mError } := by
  have hstart (hall : ∀ t ∈ s.mTransforms, Evaluable t) :
      SameBare (started s.mTransforms) s.mTransforms :=
    (markRoot_bare _).trans (locals_bare ((locals_none_iff s.mTransforms _).mpr ⟨hall, rfl⟩))
  cases Subject.calcMatrices_cases h with
  | stopped hl => exact ⟨locals_bare hl, rfl⟩
  | rootless e hall hc => exact ⟨hstart hall, rfl⟩
  | halted hall hc hr => exact ⟨(loop_bare _ (hstart hall)).2 _ _ hr, rfl⟩
  | @resolved ts hall hc hr =>
    have hconvert : SameBare (convert conv ts) ts := by
      rw [convert_eq]
      simp [SameBare, Function.comp_def, Transform.bare]
    exact ⟨hconvert.trans ((loop_bare _ (hstart hall)).1 ts hr), rfl⟩

end Open3DStream
