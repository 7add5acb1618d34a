import Open3DStream.Cached
import Open3DStream.SubjectList

namespace Open3DStream

open Evaluate

variable {α β : Type}

/-- A subject without its error and the computed fields of its transforms. -/
def Subject.bare [Numeric α β] (s : Subject α β) : Subject α β :=
  { s with mTransforms := s.mTransforms.map Transform.bare, mError := "" }

/-- A subject without its error. -/
def Subject.silent (s : Subject α β) : Subject α β := { s with mError := "" }

/-- A transform without the flag that an evaluation works with. -/
def Transform.visible (t : Transform α) : Transform α := { t with bWorldMatrix := false }

/-- What there is to see of a subject. -/
def Subject.visible (s : Subject α β) : Subject α β :=
  { s with mTransforms := s.mTransforms.map Transform.visible, mError := "" }

theorem ite_bool_not {γ : Type} (b : Bool) (x y : γ) :
    (if (!b) = true then x else y) = if b = true then y else x := by
  cases b <;> rfl

variable [Numeric α β]

/-- What the computed fields do not change is the same for the same bare subjects. -/
theorem map_of_bare {γ : Type} {g : Subject α β → γ} (hg : ∀ s, g s.bare = g s)
    {items items' : List (Subject α β)} (h : items'.map Subject.bare = items.map Subject.bare) :
    items'.map g = items.map g := by
  have hb (l : List (Subject α β)) : l.map g = (l.map Subject.bare).map g := by
    rw [List.map_map]
    exact List.map_congr_left fun s _ => (hg s).symm
  rw [hb, h, ← hb]

/-! ### The finiteness scan -/

theorem Subject.allFinite_true_iff (s : Subject α β) :
    s.allFinite.1 = true ↔ ∀ t ∈ s.mTransforms, t.allFinite = true := by
  rw [Subject.allFinite]
  split
  · rename_i t ht
    have hmem := List.mem_of_find?_eq_some ht
    have hbad := List.find?_some ht
    simp only [Bool.false_eq_true, false_iff]
    intro hall
    rw [hall t hmem] at hbad
    cases hbad
  · rename_i hn
    simpa using hn

theorem Subject.allFinite_of_true {s : Subject α β} (h : s.allFinite.1 = true) :
    s.allFinite = (true, s) := by
  rw [Subject.allFinite] at h ⊢
  split at h
  · cases h
  · rfl

theorem Subject.bare_allFinite (s : Subject α β) : s.allFinite.2.bare = s.bare := by
  rw [Subject.allFinite]
  split <;> rfl

theorem Subject.mTransforms_allFinite (s : Subject α β) :
    s.allFinite.2.mTransforms = s.mTransforms := by
  rw [Subject.allFinite]
  split <;> rfl

/-- Every value and cached matrix of a list of subjects is finite. -/
def ItemsFinite (items : List (Subject α β)) : Prop :=
  ∀ s ∈ items, ∀ t ∈ s.mTransforms, t.allFinite = true

theorem allFiniteItems_of_finite {items : List (Subject α β)} (h : ItemsFinite items) :
    allFiniteItems items = (none, items) := by
  induction items with
  | nil => rfl
  | cons s items ih =>
    obtain ⟨hs, hrest⟩ := List.forall_mem_cons.mp h
    rw [allFiniteItems, Subject.allFinite_of_true (s.allFinite_true_iff.mpr hs)]
    simp [ih hrest]

theorem allFiniteItems_of_not {items : List (Subject α β)} (h : ¬ItemsFinite items) :
    ∃ e items', allFiniteItems items = (some e, items') := by
  induction items with
  | nil => exact absurd (fun s hs => absurd hs List.not_mem_nil) h
  | cons s items ih =>
    rw [allFiniteItems]
    by_cases hs : s.allFinite.1 = true
    · have hrest : ¬ItemsFinite items := fun hr =>
        h (List.forall_mem_cons.mpr ⟨s.allFinite_true_iff.mp hs, hr⟩)
      obtain ⟨e, items', he⟩ := ih hrest
      rw [Subject.allFinite_of_true hs]
      exact ⟨e, s :: items', by simp [he]⟩
    · refine ⟨s.allFinite.2.mError, s.allFinite.2 :: items, ?_⟩
      dsimp only
      rw [ite_bool_not, if_neg hs]

/-- The scan changes nothing of a list that it does not change of one subject. -/
theorem map_allFiniteItems {γ : Type} {g : Subject α β → γ} (hg : ∀ s, g s.allFinite.2 = g s)
    (items : List (Subject α β)) : (allFiniteItems items).2.map g = items.map g := by
  induction items with
  | nil => rfl
  | cons s items ih =>
    rw [allFiniteItems]
    dsimp only
    rw [ite_bool_not]
    split <;> simp [ih, hg]

theorem bare_allFiniteItems (items : List (Subject α β)) :
    (allFiniteItems items).2.map Subject.bare = items.map Subject.bare :=
  map_allFiniteItems Subject.bare_allFinite items

/-! ### The evaluation of every subject -/

theorem Subject.bare_calcMatrices {s s' : Subject α β} {conv : Option ConversionContext} {b : Bool}
    (h : s.calcMatrices conv = some (b, s')) : s'.bare = s.bare := by
  obtain ⟨hb, hs⟩ := Subject.calcMatrices_frame h
  have hb' : s'.mTransforms.map Transform.bare = s.mTransforms.map Transform.bare := hb
  simp only [Subject.bare]
  rw [hb', hs]

/-- The evaluation goes on behind a subject that it accepts, and stops at one that it does not. -/
theorem calcItems_cons {conv : Option ConversionContext} {s : Subject α β}
    {items items' : List (Subject α β)} {e : Option String}
    (h : calcItems conv (s :: items) = some (e, items')) :
    (∃ s', s.calcMatrices conv = some (false, s') ∧ e = some s'.mError ∧ items' = s' :: items) ∨
      ∃ s' rest, s.calcMatrices conv = some (true, s') ∧ calcItems conv items = some (e, rest) ∧
        items' = s' :: rest := by
  rw [calcItems, Option.bind_eq_bind, Option.bind_eq_some_iff] at h
  obtain ⟨⟨ok, s'⟩, hs, h⟩ := h
  cases ok with
  | false =>
    cases h
    exact .inl ⟨s', hs, rfl, rfl⟩
  | true =>
    simp only [Bool.not_true, Bool.false_eq_true, if_false, Option.bind_eq_bind,
      Option.bind_eq_some_iff] at h
    obtain ⟨⟨e', rest⟩, hr, h⟩ := h
    cases h
    exact .inr ⟨s', rest, hs, hr, rfl⟩

theorem bare_calcItems {conv : Option ConversionContext} {items items' : List (Subject α β)}
    {e : Option String} (h : calcItems conv items = some (e, items')) :
    items'.map Subject.bare = items.map Subject.bare := by
  induction items generalizing items' e with
  | nil =>
    cases h
    rfl
  | cons s items ih =>
    obtain ⟨s', hs, -, rfl⟩ | ⟨s', rest, hs, hr, rfl⟩ := calcItems_cons h
    · simp [Subject.bare_calcMatrices hs]
    · simp [Subject.bare_calcMatrices hs, ih hr]

/-- Every subject of a list has transforms that `calcMatrices` accepts. -/
def ItemsAcceptable (items : List (Subject α β)) : Prop :=
  ∀ s ∈ items, Subject.Acceptable s.mTransforms

theorem ItemsAcceptable.finite {items : List (Subject α β)} (h : ItemsAcceptable items) :
    ItemsFinite items :=
  fun s hs t ht => ((h s hs).evaluable t ht).1

theorem calcItems_cons_of_acceptable (conv : Option ConversionContext) {s : Subject α β}
    (h : Subject.Acceptable s.mTransforms) (items : List (Subject α β)) :
    ∃ s', calcItems conv (s :: items) = (calcItems conv items).map fun r => (r.1, s' :: r.2) := by
  obtain ⟨s', hs⟩ := (Subject.calcMatrices_true_iff s conv).mpr h
  refine ⟨s', ?_⟩
  rw [calcItems, hs]
  cases calcItems conv items <;> rfl

theorem calcItems_cons_of_not {conv : Option ConversionContext} {s : Subject α β}
    (h : ¬Subject.Acceptable s.mTransforms) (items : List (Subject α β)) :
    calcItems conv (s :: items) =
      (s.calcMatrices conv).map fun r => (some r.2.mError, r.2 :: items) := by
  rw [calcItems]
  cases hs : s.calcMatrices conv with
  | none => rfl
  | some r =>
    obtain ⟨ok, s'⟩ := r
    cases ok with
    | false => rfl
    | true => exact absurd ((Subject.calcMatrices_true_iff s conv).mp ⟨s', hs⟩) h

theorem calcItems_ok_iff (conv : Option ConversionContext) (items : List (Subject α β)) :
    (∃ items', calcItems conv items = some (none, items')) ↔ ItemsAcceptable items := by
  induction items with
  | nil => exact ⟨fun _ s hs => absurd hs List.not_mem_nil, fun _ => ⟨[], rfl⟩⟩
  | cons s items ih =>
    rw [ItemsAcceptable, List.forall_mem_cons]
    by_cases h : Subject.Acceptable s.mTransforms
    · obtain ⟨s', hs'⟩ := calcItems_cons_of_acceptable conv h items
      simp only [h, true_and, hs', Option.map_eq_some_iff]
      refine ⟨?_, ?_⟩
      · rintro ⟨items', ⟨e, rest⟩, hr, he⟩
        cases he
        exact ih.mp ⟨rest, hr⟩
      · intro hr
        obtain ⟨rest, hrest⟩ := ih.mpr hr
        exact ⟨_, _, hrest, rfl⟩
    · rw [calcItems_cons_of_not h]
      refine ⟨?_, ?_⟩
      · rintro ⟨items', hi⟩
        obtain ⟨r, -, he⟩ := Option.map_eq_some_iff.mp hi
        cases he
      · exact fun ha => absurd ha.1 h

/-- A transform that is short of matrices, where the first loop of `calcMatrices`
gets to it. -/
def StarvedAt (ts : List (Transform α)) : Prop :=
  ∃ before t after, ts = before ++ t :: after ∧ (∀ u ∈ before, Evaluable u) ∧
    t.allFinite = true ∧ ¬t.EnoughMatrices

/-- A starved subject behind acceptable ones. -/
def Starved (items : List (Subject α β)) : Prop :=
  ∃ before s after, items = before ++ s :: after ∧ ItemsAcceptable before ∧ StarvedAt s.mTransforms

theorem not_starved {items : List (Subject α β)}
    (h : ∀ s ∈ items, ∀ t ∈ s.mTransforms, t.EnoughMatrices) : ¬Starved items := by
  rintro ⟨before, s, after, rfl, -, tb, t, ta, hts, -, -, hn⟩
  exact hn (h s (by simp) t (by rw [hts]; simp))

theorem StarvedAt.not_acceptable {ts : List (Transform α)} (h : StarvedAt ts) :
    ¬Subject.Acceptable ts := by
  obtain ⟨before, t, after, rfl, -, -, hn⟩ := h
  exact fun ha => hn (ha.evaluable t (by simp)).2.1

theorem calcMatrices_none_iff (s : Subject α β) (conv : Option ConversionContext) :
    s.calcMatrices conv = none ↔ StarvedAt s.mTransforms := by
  rw [Subject.calcMatrices_eq_none_iff, locals_eq_none_iff]
  rfl

theorem starved_cons_of_acceptable {s : Subject α β} (h : Subject.Acceptable s.mTransforms)
    (items : List (Subject α β)) : Starved (s :: items) ↔ Starved items := by
  refine ⟨?_, ?_⟩
  · rintro ⟨before, u, after, he, hb, hu⟩
    cases before with
    | nil =>
      cases he
      exact absurd h hu.not_acceptable
    | cons b before =>
      cases he
      exact ⟨before, u, after, rfl, (List.forall_mem_cons.mp hb).2, hu⟩
  · rintro ⟨before, u, after, rfl, hb, hu⟩
    exact ⟨s :: before, u, after, rfl, List.forall_mem_cons.mpr ⟨h, hb⟩, hu⟩

theorem starved_cons_of_not {s : Subject α β} (h : ¬Subject.Acceptable s.mTransforms)
    (items : List (Subject α β)) : Starved (s :: items) ↔ StarvedAt s.mTransforms := by
  refine ⟨?_, ?_⟩
  · rintro ⟨before, u, after, he, hb, hu⟩
    cases before with
    | nil =>
      cases he
      exact hu
    | cons b before =>
      cases he
      exact absurd (hb s (by simp)) h
  · exact fun hs => ⟨[], s, items, rfl, fun u hu => absurd hu List.not_mem_nil, hs⟩

theorem calcItems_eq_none_iff (conv : Option ConversionContext) (items : List (Subject α β)) :
    calcItems conv items = none ↔ Starved items := by
  induction items with
  | nil =>
    refine ⟨?_, ?_⟩
    · intro h
      cases h
    · rintro ⟨before, s, after, he, -⟩
      simp at he
  | cons s items ih =>
    by_cases h : Subject.Acceptable s.mTransforms
    · obtain ⟨s', hs'⟩ := calcItems_cons_of_acceptable conv h items
      rw [hs', Option.map_eq_none_iff, ih, starved_cons_of_acceptable h]
    · rw [calcItems_cons_of_not h, Option.map_eq_none_iff, calcMatrices_none_iff,
        starved_cons_of_not h]

end Open3DStream
