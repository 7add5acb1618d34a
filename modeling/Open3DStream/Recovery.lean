import Open3DStream.Again
import Open3DStream.Named
import Open3DStream.Overflow

/-! Matrices that overflowed once, and whether the evaluation gets over them. -/

namespace Open3DStream

open Lib Evaluate

variable {α β : Type} [Numeric α β]

/-- The two matrices that the last evaluation left are finite. -/
def Transform.CachesFinite (t : Transform α) : Prop :=
  t.mMatrix.allFinite = true ∧ t.mWorldMatrix.allFinite = true

def Subject.CachesFinite (s : Subject α β) : Prop := ∀ t ∈ s.mTransforms, t.CachesFinite

/-- The values, and the matrices that are computed from them, are finite, and the parent ids form
one rooted tree. -/
structure Calculable (ts : List (Transform α)) : Prop where
  values : ∀ t ∈ ts, t.valuesFinite = true
  locals : ∀ t ∈ ts, ∃ u, t.update = some u ∧ u.mMatrix.allFinite = true
  tree : RootedTree (parentIds ts)
  worlds : ProductsFinite Transform.localMatrix ts

/-- The evaluation does what it would do after any other one that left finite matrices. -/
def Subject.Recovers (s : Subject α β) (conv : Option ConversionContext) : Prop :=
  ∀ us, SameBare us s.mTransforms → (∀ u ∈ us, u.CachesFinite) →
    { s with mTransforms := us }.calcMatrices conv = s.calcMatrices conv

/-! ### Evaluations that differ in what an earlier one left -/

theorem allFinite_iff_caches (t : Transform α) :
    t.allFinite = true ↔ t.CachesFinite ∧ t.valuesFinite = true := by
  rw [t.allFinite_iff, Transform.CachesFinite, and_assoc]

theorem cachesFinite_bare (t : Transform α) : t.bare.CachesFinite :=
  ⟨Matrix.allFinite_identity, Matrix.allFinite_identity⟩

theorem evaluated_of_bare {t u : Transform α} (h : t.bare = u.bare) (w : Matrix α) :
    t.evaluated w = u.evaluated w :=
  congrArg (fun v : Transform α => { v with bWorldMatrix := true, mWorldMatrix := w })
    (Transform.updated_of_bare h)

namespace Calculable

variable {ts us : List (Transform α)}

theorem computed (h : Calculable ts) {t : Transform α} (ht : t ∈ ts) :
    t.EnoughMatrices ∧ t.localMatrix.allFinite = true := by
  obtain ⟨u, hu, hfin⟩ := h.locals t ht
  by_cases hm : t.EnoughMatrices
  · rw [Transform.update_eq hm] at hu
    cases hu
    exact ⟨hm, hfin⟩
  · rw [Transform.update_eq_none hm] at hu
    cases hu

theorem acceptable_iff (h : Calculable ts) :
    Subject.Acceptable ts ↔ ∀ t ∈ ts, t.CachesFinite := by
  refine ⟨?_, ?_⟩
  · intro ha t ht
    exact ((allFinite_iff_caches t).mp (ha.evaluable t ht).1).1
  · intro hc
    refine ⟨?_, h.tree.oneRoot, h.tree.validIds, h.worlds⟩
    intro t ht
    exact ⟨(allFinite_iff_caches t).mpr ⟨hc t ht, h.values t ht⟩, h.computed ht⟩

theorem of_bare (h : Calculable ts) (hb : SameBare us ts) : Calculable us := by
  have hids := hb.parentIds
  refine ⟨?_, ?_, by rw [hids]; exact h.tree, ?_⟩
  · intro u hu
    obtain ⟨i, hi⟩ := List.mem_iff_getElem?.mp hu
    obtain ⟨t, ht, he⟩ := hb.get hi
    have hv : u.bare.valuesFinite = t.bare.valuesFinite := congrArg Transform.valuesFinite he
    exact hv.trans (h.values t (List.mem_of_getElem? ht))
  · intro u hu
    obtain ⟨i, hi⟩ := List.mem_iff_getElem?.mp hu
    obtain ⟨t, ht, he⟩ := hb.get hi
    obtain ⟨henough, hlocal⟩ := h.computed (List.mem_of_getElem? ht)
    refine ⟨_, Transform.update_eq (Transform.enough_of_bare he.symm henough), ?_⟩
    change u.localMatrix.allFinite = true
    rw [Transform.localMatrix_of_bare he]
    exact hlocal
  · intro i l hl hr
    rw [hids] at hl hr
    rw [hb.worldAlong]
    exact h.worlds i l hl hr

end Calculable

/-- Two evaluations of one tree that both succeed leave the same matrices. -/
theorem calcMatrices_of_bare {s : Subject α β} {us : List (Transform α)}
    (hb : SameBare us s.mTransforms) (htree : RootedTree (parentIds s.mTransforms))
    (hs : Subject.Acceptable s.mTransforms) (hus : Subject.Acceptable us)
    (conv : Option ConversionContext) :
    { s with mTransforms := us }.calcMatrices conv = s.calcMatrices conv := by
  obtain ⟨r, hr⟩ := (Subject.calcMatrices_true_iff s conv).mpr hs
  obtain ⟨r', hr'⟩ := (Subject.calcMatrices_true_iff { s with mTransforms := us } conv).mpr hus
  obtain ⟨hbr, hframe⟩ := Subject.calcMatrices_frame hr
  obtain ⟨hbr', hframe'⟩ := Subject.calcMatrices_frame hr'
  have hts : r'.mTransforms = r.mTransforms := by
    apply List.ext_getElem?
    intro i
    cases ht : s.mTransforms[i]? with
    | none =>
      have hi := List.getElem?_eq_none_iff.mp ht
      have hlen : r.mTransforms.length = s.mTransforms.length := hbr.length
      have hlen' : r'.mTransforms.length = s.mTransforms.length := hbr'.length.trans hb.length
      rw [List.getElem?_eq_none (by omega), List.getElem?_eq_none (by omega)]
    | some t =>
      obtain ⟨l, hl⟩ := htree.reaches i (by
        rw [parentIds_length]
        exact (List.getElem?_eq_some_iff.mp ht).1)
      have hsymm : SameBare s.mTransforms us := hb.symm
      obtain ⟨u, hu, he⟩ := hsymm.get ht
      have hl' : TreePath (parentIds us) i l := by
        rw [hb.parentIds]
        exact hl
      rw [Subject.calcMatrices_path hr ht hl, Subject.calcMatrices_path hr' hu hl', hb.worldAlong,
        evaluated_of_bare he]
  rw [hr, hr', hframe', hframe, hts, Subject.calcMatrices_mError hr,
    Subject.calcMatrices_mError hr']

theorem subject_recovers_iff {s : Subject α β} (h : Calculable s.mTransforms)
    (conv : Option ConversionContext) : s.Recovers conv ↔ s.CachesFinite := by
  refine ⟨?_, ?_⟩
  · intro hr
    have hb : SameBare (s.mTransforms.map Transform.bare) s.mTransforms := by
      rw [SameBare, List.map_map]
      rfl
    have hfin : ∀ u ∈ s.mTransforms.map Transform.bare, u.CachesFinite := by
      intro u hu
      obtain ⟨t, -, rfl⟩ := List.mem_map.mp hu
      exact cachesFinite_bare t
    obtain ⟨r, hfresh⟩ := (Subject.calcMatrices_true_iff
      { s with mTransforms := s.mTransforms.map Transform.bare } conv).mpr
        ((h.of_bare hb).acceptable_iff.mpr hfin)
    rw [hr _ hb hfin] at hfresh
    exact h.acceptable_iff.mp ((Subject.calcMatrices_true_iff s conv).mp ⟨r, hfresh⟩)
  · intro hc us hb hus
    exact calcMatrices_of_bare hb h.tree (h.acceptable_iff.mpr hc)
      ((h.of_bare hb).acceptable_iff.mpr hus) conv

/-! ### Update packets and the matrices that they find -/

def Spoiled (items : List (Subject α β)) : Prop := ∃ s ∈ items, ¬s.CachesFinite

theorem spoiled_iff_not (items : List (Subject α β)) :
    Spoiled items ↔ ¬∀ s ∈ items, s.CachesFinite := by
  simp [Spoiled]

omit [Numeric α β] in
theorem edit_map {γ : Type} {g : Subject α β → γ} {f : Subject α β → Subject α β}
    (h : ∀ s, g (f s) = g s) (T : SubjectKind) (uuid : String) (items : List (Subject α β)) :
    (edit T uuid f items).map g = items.map g := by
  induction items with
  | nil => rfl
  | cons s items ih =>
    rw [edit]
    split
    · split <;> simp [h]
    · rw [List.map_cons, List.map_cons, ih]

theorem cached_edits {es : List (Edit β)} (h : ∀ e ∈ es, ¬e.Describes) (s : Subject α β) :
    (es.foldl Edit.apply s).cached = s.cached := by
  have hes : ∀ e ∈ es.map fun e => (⟨s.kind, s.mUuid, e⟩ : Entry β), e.Matches s →
      ¬e.edit.Describes := by
    intro e he _
    obtain ⟨edit, hedit, rfl⟩ := List.mem_map.mp he
    exact h edit hedit
  rw [← cached_amends hes, amends_map, if_pos ⟨rfl, rfl⟩]

theorem cached_updating {δ : Type} {T : SubjectKind} {body : δ → Option (Data.SubjectUpdate β)}
    {finish : δ → Subject α β → Subject α β} (hf : ∀ d s, (finish d s).cached = s.cached)
    (us : List δ) (items : List (Subject α β)) :
    (us.foldl (updating T body finish) items).map Subject.cached = items.map Subject.cached := by
  induction us generalizing items with
  | nil => rfl
  | cons u us ih =>
    rw [List.foldl_cons, ih, updating]
    cases body u with
    | none => rfl
    | some data =>
      apply edit_map
      intro s
      rw [hf, applied_eq, cached_edits (edits_not_describes data)]

namespace Data.SubjectList

variable {p : Data.SubjectList α β}

theorem UpdateOnly.cached_applied (h : p.UpdateOnly) (items : List (Subject α β)) :
    (p.applied items).map Subject.cached = items.map Subject.cached := by
  have hid {δ : Type} (_ : δ) (s : Subject α β) : s.cached = s.cached := rfl
  have hlens (c : Data.CameraUpdate β) (s : Subject α β) : (readLens c s).cached = s.cached :=
    cached_apply (e := .lens c) id
  simp only [Data.SubjectList.applied, withCameras, withRigidbodies, withPerformers, h.performers,
    h.rigidbodies, h.cameras, List.foldl_nil, cached_updating hlens, cached_updating hid]

theorem UpdateOnly.cachesFinite_applied (h : p.UpdateOnly) (items : List (Subject α β)) :
    (∀ s ∈ p.applied items, s.CachesFinite) ↔ ∀ s ∈ items, s.CachesFinite := by
  have hcached (s : Subject α β) :
      s.CachesFinite ↔ ∀ c ∈ s.cached.1, c.1.allFinite = true ∧ c.2.1.allFinite = true := by
    rw [Subject.cached, List.forall_mem_map]
    rfl
  have hmap (l : List (Subject α β)) : (∀ s ∈ l, s.CachesFinite) ↔
      ∀ k ∈ l.map Subject.cached, ∀ c ∈ k.1, c.1.allFinite = true ∧ c.2.1.allFinite = true := by
    simp only [List.forall_mem_map, hcached]
  rw [hmap, h.cached_applied, ← hmap]

end Data.SubjectList

/-! ### Failures at a matrix -/

/-- The error of an evaluation that stopped at a matrix it had just computed. -/
def Overflowed (e : String) : Prop :=
  ∃ name, e = "Bad calc for: " ++ name ∨ e = "WM Error: " ++ name

/-- The other errors start otherwise. -/
theorem not_overflowed {e : String} (h : e.toList.take 2 ∉ [['B', 'a'], ['W', 'M']]) :
    ¬Overflowed e := by
  rintro ⟨name, rfl | rfl⟩
  · exact h (by rw [String.toList_append]; exact List.mem_cons_self)
  · exact h (by rw [String.toList_append]; exact List.mem_cons_of_mem _ List.mem_cons_self)

theorem not_overflowed_append {e : String} (hlen : 2 ≤ e.toList.length)
    (h : e.toList.take 2 ∉ [['B', 'a'], ['W', 'M']]) (name : String) : ¬Overflowed (e ++ name) := by
  apply not_overflowed
  rwa [String.toList_append, List.take_append_of_le_length hlen]

namespace Evaluate

theorem locals_overflowed {ts us : List (Transform α)} {e : String}
    (h : locals ts = some (some e, us)) (he : Overflowed e) : ∃ u ∈ us, ¬u.CachesFinite := by
  induction ts generalizing us with
  | nil => cases h
  | cons t ts ih =>
    rw [locals] at h
    split at h
    · cases h
      exact absurd he (not_overflowed_append (by decide) (by decide) t.mName)
    · rename_i hfin
      rw [Option.bind_eq_bind, Option.bind_eq_some_iff] at h
      obtain ⟨t', ht', h⟩ := h
      split at h
      · rename_i hfin'
        cases h
        refine ⟨t', List.mem_cons_self, ?_⟩
        intro hc
        -- the update has not touched the values
        have hv : t'.bare.valuesFinite = t.bare.valuesFinite := by rw [update_bare ht']
        have hv : t'.valuesFinite = t.valuesFinite := hv
        have hfin : t.allFinite = true := by simpa using hfin
        have hall : t'.allFinite = true :=
          (allFinite_iff_caches t').mpr ⟨hc, hv.trans ((allFinite_iff_caches t).mp hfin).2⟩
        rw [hall] at hfin'
        cases hfin'
      · rw [Option.bind_eq_bind, Option.bind_eq_some_iff] at h
        obtain ⟨⟨e', us'⟩, hl, h⟩ := h
        cases h
        obtain ⟨u, hu, hbad⟩ := ih hl
        exact ⟨u, List.mem_cons_of_mem t' hu, hbad⟩

theorem visit_overflowed {ts us : List (Transform α)} {id : Nat} {e : String}
    (h : visit ts id = .fail e us) (he : Overflowed e) : ∃ u ∈ us, ¬u.CachesFinite := by
  rw [visit] at h
  split at h
  · cases h
  · rename_i t ht
    have hid := (List.getElem?_eq_some_iff.mp ht).1
    split at h
    · cases h
    · split at h
      · cases h
        rw [String.append_assoc, String.append_assoc, String.append_assoc] at he
        exact absurd he (not_overflowed_append (by decide) (by decide) _)
      · split at h
        · cases h
          exact absurd he (not_overflowed (by decide))
        · dsimp only at h
          split at h
          · cases h
          · split at h
            · rename_i hfin
              cases h
              refine ⟨_, List.mem_set hid _, ?_⟩
              intro hc
              rw [hc.2] at hfin
              cases hfin
            · cases h

theorem sweep_overflowed {ids : List Nat} {ts us : List (Transform α)} {done : Bool} {e : String}
    (h : sweep ids ts done = .error (e, us)) (he : Overflowed e) : ∃ u ∈ us, ¬u.CachesFinite := by
  induction ids generalizing ts done with
  | nil => cases h
  | cons id ids ih =>
    rw [sweep] at h
    cases hv : visit ts id with
    | skip => rw [hv] at h; exact ih h
    | resolved ws => rw [hv] at h; exact ih h
    | fail m ws =>
      rw [hv] at h
      cases h
      exact visit_overflowed hv he

theorem loop_overflowed {passes : Nat} {ts us : List (Transform α)} {e : String}
    (h : loop passes ts = .error (e, us)) (he : Overflowed e) : ∃ u ∈ us, ¬u.CachesFinite := by
  induction passes generalizing ts with
  | zero =>
    cases h
    exact absurd he (not_overflowed (by decide))
  | succ passes ih =>
    rw [loop] at h
    cases hw : sweep (List.range ts.length) ts true with
    | error r =>
      rw [hw] at h
      cases h
      exact sweep_overflowed hw he
    | ok r =>
      obtain ⟨ws, done⟩ := r
      rw [hw] at h
      cases done with
      | true => cases h
      | false => exact ih h

end Evaluate

theorem calcMatrices_overflowed {s s' : Subject α β} {conv : Option ConversionContext}
    (h : s.calcMatrices conv = some (false, s')) (he : Overflowed s'.mError) :
    ¬s'.CachesFinite := by
  have hspoiled : ∃ t ∈ s'.mTransforms, ¬t.CachesFinite := by
    rw [Subject.calcMatrices, Option.bind_eq_bind, Option.bind_eq_some_iff] at h
    obtain ⟨⟨e, us⟩, hl, h⟩ := h
    cases e with
    | some e =>
      cases h
      exact locals_overflowed hl he
    | none =>
      dsimp only at h
      split at h
      · cases h
        exact absurd he (not_overflowed (e := "Could not find a root") (by decide))
      · split at h
        · cases h
          exact absurd he (not_overflowed (e := "More than one root found") (by decide))
        · split at h
          · cases h
            exact loop_overflowed ‹_› he
          · cases h
  obtain ⟨t, ht, hbad⟩ := hspoiled
  exact fun hc => hbad (hc t ht)

theorem calcItems_overflowed {conv : Option ConversionContext} {items items' : List (Subject α β)}
    {e : String} (h : calcItems conv items = some (some e, items')) (he : Overflowed e) :
    Spoiled items' := by
  induction items generalizing items' with
  | nil => cases h
  | cons s items ih =>
    obtain ⟨s', hs, hfail, rfl⟩ | ⟨s', rest, -, hr, rfl⟩ := calcItems_cons h
    · cases hfail
      exact ⟨s', List.mem_cons_self, calcMatrices_overflowed hs he⟩
    · obtain ⟨u, hu, hbad⟩ := ih hr
      exact ⟨u, List.mem_cons_of_mem s' hu, hbad⟩

theorem allFiniteItems_not_overflowed {items items' : List (Subject α β)} {e : String}
    (h : allFiniteItems items = (some e, items')) : ¬Overflowed e := by
  induction items generalizing items' with
  | nil => cases h
  | cons s items ih =>
    rw [allFiniteItems] at h
    dsimp only at h
    rw [ite_bool_not] at h
    split at h
    · have he : (allFiniteItems items).1 = some e := congrArg (fun r => r.1) h
      have hi : allFiniteItems items = (some e, (allFiniteItems items).2) := Prod.ext he rfl
      exact ih hi
    · rename_i hs
      cases h
      rw [Subject.allFinite] at hs ⊢
      split at hs
      · exact not_overflowed_append (by decide) (by decide) _
      · exact absurd rfl hs

namespace SubjectList

theorem evaluate_overflowed {l r : SubjectList α β} (h : l.evaluate = some (false, r))
    (he : Overflowed r.mError) : Spoiled r.mItems := by
  obtain ⟨-, e, hi, hb, hr⟩ | ⟨-, e, hi, -, hr⟩ := evaluate_cases h
  · cases e with
    | none => cases hb
    | some e =>
      rw [hr] at he
      exact calcItems_overflowed hi he
  · rw [hr] at he
    exact absurd he (allFiniteItems_not_overflowed hi)

omit [Numeric α β] in
theorem adopted_mError {l : SubjectList α β} {p : Data.SubjectList α β} (h : ContextRejected l p) :
    (l.adopted p).mError = "Invalid context conversion" := by
  have hc : (l.readTime p).mContext = l.mContext := rfl
  rw [adopted, adoptContext, hc, h.1]
  simp [IsValid_make, h.2]

theorem parseRoot_overflowed {l r : SubjectList α β} {p : Data.SubjectList α β}
    {clearInactive : Bool} (h : l.parseRoot p clearInactive = some (false, r))
    (he : Overflowed r.mError) : Spoiled r.mItems := by
  by_cases hc : ContextRejected l p
  · rw [parseRoot_rejected hc] at h
    cases h
    rw [adopted_mError hc] at he
    exact absurd he (not_overflowed (by decide))
  · rw [parseRoot_adopted hc, Option.bind_eq_some_iff] at h
    obtain ⟨items, -, h⟩ := h
    exact evaluate_overflowed h he

end SubjectList

section packet

variable [Wire α β] {p : Data.SubjectList α β}

theorem parse_recovers_iff {l : SubjectList α β} {data : Option (List UInt8)} {clearInactive : Bool}
    (hv : Verified α β data p) (hp : p.UpdateOnly) (hc : ¬ContextRejected l p)
    (hl : ∀ s ∈ p.applied (l.kept clearInactive), Calculable s.mTransforms) :
    (∃ r, l.parse data clearInactive = some (true, r)) ↔
      ∀ s ∈ l.kept clearInactive, s.CachesFinite := by
  let l₀ : SubjectList α β := { l with mError := "" }
  have hc₀ : ¬ContextRejected l₀ p := hc
  have hitems : ItemsAcceptable (p.applied (l₀.kept clearInactive)) ↔
      ∀ s ∈ p.applied (l.kept clearInactive), s.CachesFinite :=
    forall₂_congr fun s hs => (hl s hs).acceptable_iff
  rw [parse_verified l hv, SubjectList.parseRoot_true_iff, and_iff_right hc₀,
    and_iff_right (hp.readable _), hitems, hp.cachesFinite_applied]

/-- What a call leaves that failed at a matrix. -/
theorem parse_overflowed {l r : SubjectList α β} {data : Option (List UInt8)} {clearInactive : Bool}
    (h : l.parse data clearInactive = some (false, r)) (he : Overflowed r.mError) :
    Spoiled r.mItems := by
  cases data with
  | none =>
    cases h
    exact absurd he (not_overflowed (e := "Nullptr passed as data to parse") (by decide))
  | some data =>
    rw [SubjectList.parse] at h
    dsimp only at h
    split at h
    · cases h
      exact absurd he (not_overflowed (e := "Buffer too small") (by decide))
    · split at h
      · cases h
        exact absurd he (not_overflowed (e := "Invalid data structure") (by decide))
      · split at h
        · cases h
          exact absurd he (not_overflowed (e := "CRC Check failed") (by decide))
        · split at h
          · cases h
            exact absurd he
              (not_overflowed (e := "FlatBuffer verification failed") (by decide))
          · exact SubjectList.parseRoot_overflowed h he

/-- An update packet is turned away before it gets to the matrices, and leaves them. -/
theorem parse_spoiled {l : SubjectList α β} {data : Option (List UInt8)} (hv : Verified α β data p)
    (hp : p.UpdateOnly) (hs : Spoiled l.mItems) :
    ∃ r, l.parse data false = some (false, r) ∧ Spoiled r.mItems := by
  let l₀ : SubjectList α β := { l with mError := "" }
  rw [parse_verified l hv]
  by_cases hc : ContextRejected l₀ p
  · refine ⟨_, SubjectList.parseRoot_rejected hc false, ?_⟩
    rw [SubjectList.adopted_mItems]
    exact hs
  · have hspoiled : Spoiled (p.applied l.mItems) := by
      rw [spoiled_iff_not, hp.cachesFinite_applied, ← spoiled_iff_not]
      exact hs
    have hnot : ¬ItemsFinite (p.applied l.mItems) := by
      obtain ⟨s, hs, hbad⟩ := hspoiled
      exact fun hf => hbad fun t ht => ((allFinite_iff_caches t).mp (hf s hs t ht)).1
    have hpop : populate p (l₀.kept false) = some (p.applied l.mItems) :=
      (populate_eq_some_iff p _ _).mpr ⟨hp.readable _, rfl⟩
    obtain ⟨e, items, hi⟩ := allFiniteItems_of_not hnot
    refine ⟨{ l₀.adopted p with mItems := items, mError := e }, ?_, ?_⟩
    · rw [SubjectList.parseRoot_adopted hc, hpop, Option.bind_some, SubjectList.evaluate,
        SubjectList.allFinite, hi]
      rfl
    · have hts := map_allFiniteItems Subject.mTransforms_allFinite (p.applied l.mItems)
      rw [hi] at hts
      obtain ⟨s, hs, hbad⟩ := hspoiled
      have hmem : s.mTransforms ∈ items.map (·.mTransforms) := by
        rw [hts]
        exact List.mem_map_of_mem hs
      obtain ⟨s', hs', he⟩ := List.mem_map.mp hmem
      refine ⟨s', hs', ?_⟩
      rw [Subject.CachesFinite, he]
      exact hbad

variable (α β) in
/-- A call of `parse` with an update packet. -/
def UpdateCall (c : Call) : Prop :=
  ∃ data, c = .parse data false ∧ ∃ p : Data.SubjectList α β, Verified α β data p ∧ p.UpdateOnly

theorem run_spoiled {l : SubjectList α β} (hs : Spoiled l.mItems) {calls : List Call}
    (hcalls : ∀ c ∈ calls, UpdateCall α β c) :
    ∃ r, Lib.run SubjectList.call l calls = some (calls.map fun _ => .parsed false, r) ∧
      Spoiled r.mItems := by
  induction calls generalizing l with
  | nil => exact ⟨l, rfl, hs⟩
  | cons c calls ih =>
    obtain ⟨⟨data, rfl, p, hv, hp⟩, hrest⟩ := List.forall_mem_cons.mp hcalls
    obtain ⟨l', hl', hs'⟩ := parse_spoiled hv hp hs
    have hcall : SubjectList.call l (.parse data false) = some (.parsed false, l') := by
      rw [SubjectList.call, hl']
      rfl
    obtain ⟨r, hr, hsr⟩ := ih hs' hrest
    exact ⟨r, run_cons_eq_some_iff.mpr ⟨_, l', _, hcall, hr, rfl⟩, hsr⟩

/-- The evaluation recovers exactly when the matrices of the last one are finite, and an update
packet that corrects every subject is accepted exactly then. After a call that failed at a matrix
no run of update packets gets there. -/
theorem recovers_iff_cachesFinite {s : Subject α β} (hs : Calculable s.mTransforms)
    (conv : Option ConversionContext) {l : SubjectList α β} {data : Option (List UInt8)}
    {clearInactive : Bool} (hv : Verified α β data p) (hp : p.UpdateOnly) (hc : ¬ContextRejected l p)
    (hl : ∀ s ∈ p.applied (l.kept clearInactive), Calculable s.mTransforms) :
    (s.Recovers conv ↔ s.CachesFinite) ∧
      ((∃ r, l.parse data clearInactive = some (true, r)) ↔
        ∀ s ∈ l.kept clearInactive, s.CachesFinite) ∧
      ∀ (l₀ r₀ : SubjectList α β) data₀ clearInactive₀ calls,
        l₀.parse data₀ clearInactive₀ = some (false, r₀) → Overflowed r₀.mError →
        (∀ c ∈ calls, UpdateCall α β c) →
        ∃ r, Lib.run SubjectList.call r₀ calls = some (calls.map fun _ => .parsed false, r) ∧
          ¬∀ s ∈ r.mItems, s.CachesFinite := by
  refine ⟨subject_recovers_iff hs conv, parse_recovers_iff hv hp hc hl, ?_⟩
  intro l₀ r₀ data₀ clearInactive₀ calls h he hcalls
  obtain ⟨r, hr, hsr⟩ := run_spoiled (parse_overflowed h he) hcalls
  exact ⟨r, hr, (spoiled_iff_not _).mp hsr⟩

end packet

/-! ### A joint that has been scaled too far -/

/-- Nine scales in a row that are large for a `float`. -/
def oversized : Data.SubjectList Double Extended := solo "a" 3 (2 ^ 127) [2, 2, 2, 2, 2, 2, 2, 2, 2]

/-- An update packet with a scale of one. -/
def resized : Data.SubjectList Double Extended :=
  let update : Data.SubjectUpdate Extended :=
    { translation := some [], rotation := some [],
      scale := some [⟨⟨some 1, some 1, some 1⟩, 0⟩], uuid := some "a" }
  { Double.blank with performer_updates := some [⟨some update⟩] }

/-- The joint that the update leaves, but for its matrices. -/
def sizedJoint : Transform Double :=
  { Transform.empty with
    translation := .read (⟨some 1, some 0, some 0⟩ : Vector3d Extended)
    scale := .read (⟨some 1, some 1, some 1⟩ : Vector3d Extended)
    mTransformOrder := List.replicate 9 .TScale
    mName := "root" }

theorem calculable_sizedJoint : Calculable [sizedJoint] := by
  refine ⟨?_, ?_, rootedTree_single, ?_⟩
  · simp only [List.mem_singleton, forall_eq]
    decide +kernel
  · simp only [List.mem_singleton, forall_eq]
    exact ⟨_, Transform.update_eq (by decide), by decide +kernel⟩
  · intro i l hl hr
    cases hl with
    | root h => exact absurd h hr
    | child h _ => exact absurd (rootAt_single (List.getElem?_eq_some_iff.mp h.1).1) hr

theorem updateOnly_resized : resized.UpdateOnly := by
  refine ⟨rfl, rfl, rfl, ?_, fun u hu => absurd hu List.not_mem_nil,
    fun u hu => absurd hu List.not_mem_nil⟩
  intro u hu
  rw [List.mem_singleton.mp hu]
  exact ⟨_, rfl, rfl, rfl, rfl, rfl⟩

theorem calculable_of_resized {items : List (Subject Double Extended)}
    (h : items.map (fun s => s.mTransforms.map Transform.bare) = [[sizedJoint]]) :
    ∀ s ∈ items, Calculable s.mTransforms := by
  intro s hs
  have hmem := List.mem_map_of_mem (f := fun s => s.mTransforms.map Transform.bare) hs
  rw [h, List.mem_singleton] at hmem
  exact calculable_sizedJoint.of_bare hmem

/-- The joint is corrected, but its matrix stays where it was. -/
theorem oversized_not_recovered : ∃ l r,
    (SubjectList.empty 0).parse (some (finalize oversized 1)) false = some (false, l) ∧
      l.mError = "Bad calc for: root" ∧ ¬ContextRejected l resized ∧
      (∀ s ∈ resized.applied l.mItems, Calculable s.mTransforms) ∧
      (∃ s ∈ resized.applied l.mItems, ¬s.Recovers none) ∧
      l.parse (some (finalize resized 2)) false = some (false, r) := by
  have h : ((SubjectList.empty 0).parseRoot oversized false).map (fun r => (r.1, r.2.mError,
      (resized.applied r.2.mItems).map (·.mTransforms.map Transform.bare))) =
        some (false, "Bad calc for: root", [[sizedJoint]]) := by
    decide +kernel
  obtain ⟨⟨ok, l⟩, hl, h⟩ := Option.map_eq_some_iff.mp h
  simp only [Prod.mk.injEq] at h
  obtain ⟨rfl, herror, hitems⟩ := h
  have hfirst : (SubjectList.empty 0).parse (some (finalize oversized 1)) false = some (false, l) :=
    (parse_verified _ (verified_finalize oversized (.inl rfl)) false).trans hl
  have hresized := verified_finalize resized (.inr rfl)
  have hspoiled := parse_overflowed hfirst ⟨"root", .inl herror⟩
  have hcalculable := calculable_of_resized hitems
  obtain ⟨r, hr, -⟩ := parse_spoiled hresized updateOnly_resized hspoiled
  refine ⟨l, r, hfirst, herror, fun hc => absurd hc.2 (by decide), hcalculable, ?_, hr⟩
  rw [spoiled_iff_not, ← updateOnly_resized.cachesFinite_applied, ← spoiled_iff_not] at hspoiled
  obtain ⟨s, hs, hbad⟩ := hspoiled
  exact ⟨s, hs, mt (subject_recovers_iff (hcalculable s hs) none).mp hbad⟩

/-- The joint before any packet. -/
def sizedSubject : Subject Double Extended :=
  { (Subject.make .performer "a" : Subject Double Extended) with mTransforms := [sizedJoint] }

theorem recovers_iff_cachesFinite_resized :
    let l : SubjectList Double Extended := { SubjectList.empty 0 with mItems := [sizedSubject] }
    (sizedSubject.Recovers none ↔ sizedSubject.CachesFinite) ∧
      ((∃ r, l.parse (some (finalize resized 2)) false = some (true, r)) ↔
        ∀ s ∈ l.kept false, s.CachesFinite) ∧
      ∀ (l₀ r₀ : SubjectList Double Extended) data₀ clearInactive₀ calls,
        l₀.parse data₀ clearInactive₀ = some (false, r₀) → Overflowed r₀.mError →
        (∀ c ∈ calls, UpdateCall Double Extended c) →
        ∃ r, Lib.run SubjectList.call r₀ calls = some (calls.map fun _ => .parsed false, r) ∧
          ¬∀ s ∈ r.mItems, s.CachesFinite :=
  recovers_iff_cachesFinite (s := sizedSubject) calculable_sizedJoint none
    (verified_finalize resized (.inr rfl)) updateOnly_resized (fun hc => absurd hc.1 (by decide))
    (calculable_of_resized (by decide +kernel))

end Open3DStream
