import Mathlib.Data.List.Basic

/-! Reading a list whose entries may be unreadable. -/

namespace Open3DStream.Lib

variable {γ δ ε : Type} {f : γ → Option δ} {P : γ → Prop} {g : γ → δ}

/-- What is made of a value that reads. -/
theorem map_eq_some_iff {o : Option δ} {Q : Prop} {y : δ} (h : ∀ x, o = some x ↔ Q ∧ x = y)
    (k : δ → ε) (z : ε) : o.map k = some z ↔ Q ∧ z = k y := by
  rw [Option.map_eq_some_iff]
  refine ⟨?_, ?_⟩
  · rintro ⟨x, hx, rfl⟩
    obtain ⟨hq, rfl⟩ := (h x).mp hx
    exact ⟨hq, rfl⟩
  · rintro ⟨hq, rfl⟩
    exact ⟨y, (h y).mpr ⟨hq, rfl⟩, rfl⟩

/-- A list reads when each entry does. -/
theorem mapM_eq_some_iff (h : ∀ x y, f x = some y ↔ P x ∧ y = g x) (l : List γ) (r : List δ) :
    l.mapM f = some r ↔ (∀ x ∈ l, P x) ∧ r = l.map g := by
  induction l generalizing r with
  | nil => simp [eq_comm]
  | cons x l ih =>
    rw [List.mapM_cons, Option.bind_eq_bind, Option.bind_eq_some_iff]
    refine ⟨?_, ?_⟩
    · rintro ⟨y, hy, hr⟩
      obtain ⟨hx, rfl⟩ := (h x y).mp hy
      rw [Option.bind_eq_bind, Option.bind_eq_some_iff] at hr
      obtain ⟨ys, hys, hr⟩ := hr
      obtain ⟨hl, rfl⟩ := (ih ys).mp hys
      cases hr
      exact ⟨List.forall_mem_cons.mpr ⟨hx, hl⟩, rfl⟩
    · rintro ⟨hall, rfl⟩
      obtain ⟨hx, hl⟩ := List.forall_mem_cons.mp hall
      refine ⟨g x, (h x _).mpr ⟨hx, rfl⟩, ?_⟩
      rw [(ih _).mpr ⟨hl, rfl⟩]
      rfl

/-- A list reads to what its entries do. -/
theorem mapM_eq_some_map {l : List γ} (h : ∀ x ∈ l, f x = some (g x)) :
    l.mapM f = some (l.map g) := by
  induction l with
  | nil => rfl
  | cons x l ih =>
    obtain ⟨hx, hl⟩ := List.forall_mem_cons.mp h
    rw [List.mapM_cons, hx, ih hl]
    rfl

/-! ### Steps that may fail -/

variable {σ ι : Type} {step : σ → ι → Option σ} {s t : σ}

theorem foldlM_cons_eq_some_iff {x : ι} {l : List ι} :
    (x :: l).foldlM step s = some t ↔ ∃ u, step s x = some u ∧ l.foldlM step u = some t := by
  rw [List.foldlM_cons, Option.bind_eq_bind, Option.bind_eq_some_iff]

/-- The rule for what every step keeps. -/
theorem foldlM_keeps {R : σ → Prop} (hR : ∀ u v x, R u → step u x = some v → R v) (hs : R s)
    {l : List ι} (h : l.foldlM step s = some t) : R t := by
  induction l generalizing s with
  | nil =>
    cases h
    exact hs
  | cons x l ih =>
    obtain ⟨u, hu, h⟩ := foldlM_cons_eq_some_iff.mp h
    exact ih (hR s u x hs hu) h

end Open3DStream.Lib
