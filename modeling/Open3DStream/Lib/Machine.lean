import Mathlib.Data.List.Basic

/-! Deterministic machines that answer each input, or get stuck. -/

namespace Open3DStream.Lib

variable {σ ι ο : Type}

/-- The inputs one after the other and their answers; `none` when a step gets stuck. -/
def run (step : σ → ι → Option (ο × σ)) (s : σ) : List ι → Option (List ο × σ)
  | [] => some ([], s)
  | x :: xs => do
    let (o, s) ← step s x
    let (os, s) ← run step s xs
    some (o :: os, s)

/-- Every step of the run meets `C`. -/
def Each (step : σ → ι → Option (ο × σ)) (C : σ → ι → Prop) (s : σ) : List ι → Prop
  | [] => True
  | x :: xs => C s x ∧ ∀ r ∈ step s x, Each step C r.2 xs

instance instDecidableEach (step : σ → ι → Option (ο × σ)) (C : σ → ι → Prop)
    [∀ s x, Decidable (C s x)] : ∀ (xs : List ι) (s : σ), Decidable (Each step C s xs)
  | [], _ => isTrue trivial
  | _ :: xs, _ =>
    have (s : σ) : Decidable (Each step C s xs) := instDecidableEach step C xs s
    inferInstanceAs (Decidable (_ ∧ _))

variable {step : σ → ι → Option (ο × σ)} {C : σ → ι → Prop} {s t : σ}

theorem run_cons_eq_some_iff {x : ι} {xs : List ι} {r : List ο × σ} :
    run step s (x :: xs) = some r ↔
      ∃ o u os, step s x = some (o, u) ∧ run step u xs = some (os, r.2) ∧ r.1 = o :: os := by
  rw [run, Option.bind_eq_bind, Option.bind_eq_some_iff]
  refine ⟨fun ⟨⟨o, u⟩, hu, h⟩ => ?_, fun ⟨o, u, os, hu, h, hr⟩ => ⟨(o, u), hu, ?_⟩⟩
  · rw [Option.bind_eq_bind, Option.bind_eq_some_iff] at h
    obtain ⟨⟨os, v⟩, hv, h⟩ := h
    cases h
    exact ⟨o, u, os, hu, hv, rfl⟩
  · dsimp only
    rw [h, Option.bind_eq_bind, Option.bind_some, ← hr]

theorem run_append_eq_some_iff {xs ys : List ι} {os : List ο} :
    run step s (xs ++ ys) = some (os, t) ↔
      ∃ os₁ u os₂, run step s xs = some (os₁, u) ∧ run step u ys = some (os₂, t) ∧
        os = os₁ ++ os₂ := by
  induction xs generalizing s os with
  | nil =>
    refine ⟨fun h => ⟨[], s, os, rfl, h, rfl⟩, ?_⟩
    rintro ⟨os₁, u, os₂, hu, h, rfl⟩
    cases hu
    exact h
  | cons x xs ih =>
    rw [List.cons_append, run_cons_eq_some_iff]
    refine ⟨?_, ?_⟩
    · rintro ⟨o, u, os', hu, h, rfl⟩
      obtain ⟨os₁, v, os₂, hv, hrest, rfl⟩ := ih.mp h
      exact ⟨o :: os₁, v, os₂, run_cons_eq_some_iff.mpr ⟨o, u, os₁, hu, hv, rfl⟩, hrest, rfl⟩
    · rintro ⟨os₁, v, os₂, hv, h, rfl⟩
      obtain ⟨o, u, os', hu, hv, rfl⟩ := run_cons_eq_some_iff.mp hv
      exact ⟨o, u, os' ++ os₂, hu, ih.mpr ⟨os', v, os₂, hv, h, rfl⟩, rfl⟩

theorem run_concat_eq_some_iff {xs : List ι} {x : ι} {os : List ο} :
    run step s (xs ++ [x]) = some (os, t) ↔
      ∃ os₁ u o, run step s xs = some (os₁, u) ∧ step u x = some (o, t) ∧ os = os₁ ++ [o] := by
  rw [run_append_eq_some_iff]
  apply exists_congr
  intro os₁
  apply exists_congr
  intro u
  refine ⟨?_, ?_⟩
  · rintro ⟨os₂, hu, h, rfl⟩
    obtain ⟨o, v, os', hv, h, rfl⟩ := run_cons_eq_some_iff.mp h
    cases h
    exact ⟨o, hu, hv, rfl⟩
  · rintro ⟨o, hu, h, rfl⟩
    exact ⟨[o], hu, run_cons_eq_some_iff.mpr ⟨o, t, [], h, rfl, rfl⟩, rfl⟩

/-- The rule for runs whose steps meet a condition. -/
theorem Each.invariant {P : σ → Prop}
    (hstep : ∀ s x r, P s → C s x → step s x = some r → P r.2) {xs : List ι} (hs : P s)
    (hc : Each step C s xs) {r : List ο × σ} (h : run step s xs = some r) : P r.2 := by
  induction xs generalizing s r with
  | nil =>
    cases h
    exact hs
  | cons x xs ih =>
    obtain ⟨o, u, os, hu, h, -⟩ := run_cons_eq_some_iff.mp h
    exact ih (r := (os, r.2)) (hstep s x (o, u) hs hc.1 hu) (hc.2 (o, u) hu) h

theorem each_true (xs : List ι) : Each step (fun _ _ => True) s xs := by
  induction xs generalizing s with
  | nil => trivial
  | cons x xs ih => exact ⟨trivial, fun r _ => ih⟩

/-- Conditions that agree on every step agree on every run. -/
theorem each_congr {D : σ → ι → Prop} (h : ∀ s x, C s x ↔ D s x) (xs : List ι) :
    Each step C s xs ↔ Each step D s xs := by
  induction xs generalizing s with
  | nil => exact Iff.rfl
  | cons x xs ih => exact and_congr (h s x) (forall₂_congr fun r _ => ih)

/-- Conditions that agree where an invariant holds agree on every run from there. -/
theorem each_congr_of_run {P : σ → Prop} {D : σ → ι → Prop}
    (hP : ∀ s x r, P s → step s x = some r → P r.2)
    (h : ∀ s x r, P s → step s x = some r → (C s x ↔ D s x)) (hs : P s) {xs : List ι}
    {r : List ο × σ} (hr : run step s xs = some r) : Each step C s xs ↔ Each step D s xs := by
  induction xs generalizing s r with
  | nil => exact Iff.rfl
  | cons x xs ih =>
    obtain ⟨o, u, os, hu, hr, -⟩ := run_cons_eq_some_iff.mp hr
    rw [Each, Each, h s x (o, u) hs hu]
    refine and_congr_right fun _ => ?_
    simp only [hu, Option.mem_def, Option.some.injEq, forall_eq']
    exact ih (r := (os, r.2)) (hP s x (o, u) hs hu) hr

/-- Conditions that agree where an invariant holds, in a run that keeps it. -/
theorem Each.congr {P : σ → Prop} {U D : σ → ι → Prop}
    (hP : ∀ s x r, P s → U s x → step s x = some r → P r.2)
    (h : ∀ s x, P s → U s x → (C s x ↔ D s x)) (hs : P s) {xs : List ι} (hu : Each step U s xs) :
    Each step C s xs ↔ Each step D s xs := by
  induction xs generalizing s with
  | nil => exact Iff.rfl
  | cons x xs ih =>
    refine and_congr (h s x hs hu.1) (forall₂_congr ?_)
    intro r hr
    exact ih (hP s x r hs hu.1 hr) (hu.2 r hr)

/-- Conditions that agree where an invariant holds, which they keep. -/
theorem Each.congr_of_kept {P : σ → Prop} {D : σ → ι → Prop}
    (hP : ∀ s x r, P s → C s x → step s x = some r → P r.2) (h : ∀ s x, P s → (C s x ↔ D s x))
    (hs : P s) (xs : List ι) : Each step C s xs ↔ Each step D s xs := by
  induction xs generalizing s with
  | nil => exact Iff.rfl
  | cons x xs ih =>
    rw [Each, Each, ← h s x hs]
    refine and_congr_right fun hx => forall₂_congr ?_
    intro r hr
    exact ih (hP s x r hs hx hr)

/-- The rule for runs that never get stuck. -/
theorem Each.run_isSome {P : σ → Prop} (hstep : ∀ s x, P s → C s x → ∃ r, step s x = some r ∧ P r.2)
    {xs : List ι} (hs : P s) (hc : Each step C s xs) : ∃ r, run step s xs = some r ∧ P r.2 := by
  induction xs generalizing s with
  | nil => exact ⟨([], s), rfl, hs⟩
  | cons x xs ih =>
    obtain ⟨⟨o, u⟩, hu, hPu⟩ := hstep s x hs hc.1
    obtain ⟨⟨os, v⟩, hv, hPv⟩ := ih hPu (hc.2 (o, u) hu)
    exact ⟨(o :: os, v), run_cons_eq_some_iff.mpr ⟨o, u, os, hu, hv, rfl⟩, hPv⟩

/-- A machine that gets stuck on some inputs, whatever was done before. -/
theorem run_isSome_iff_forall {P : σ → Prop} {D : ι → Prop}
    (hnone : ∀ s x, P s → ¬ D x → step s x = none)
    (hsome : ∀ s x, P s → D x → ∃ r, step s x = some r ∧ P r.2) (hs : P s) (xs : List ι) :
    (run step s xs).isSome ↔ ∀ x ∈ xs, D x := by
  induction xs generalizing s with
  | nil => exact iff_of_true rfl fun x hx => absurd hx List.not_mem_nil
  | cons x xs ih =>
    rw [List.forall_mem_cons]
    by_cases hx : D x
    · obtain ⟨⟨o, u⟩, hu, hP⟩ := hsome s x hs hx
      rw [and_iff_right hx, ← ih hP, run, hu, Option.bind_eq_bind, Option.bind_some]
      dsimp only
      cases run step u xs <;> rfl
    · rw [run, hnone s x hs hx, Option.bind_eq_bind, Option.bind_none]
      exact iff_of_false Bool.false_ne_true fun h => hx h.1

/-- The rule for all runs. -/
theorem run_invariant {P : σ → Prop} (hstep : ∀ s x r, P s → step s x = some r → P r.2)
    {xs : List ι} (hs : P s) {r : List ο × σ} (h : run step s xs = some r) : P r.2 :=
  Each.invariant (C := fun _ _ => True) (fun s x r hs _ => hstep s x r hs) hs (each_true xs) h

theorem Each.of_append {xs ys : List ι} (h : Each step C s (xs ++ ys)) : Each step C s xs := by
  induction xs generalizing s with
  | nil => trivial
  | cons x xs ih => exact ⟨h.1, fun r hr => ih (h.2 r hr)⟩

theorem Each.after {xs ys : List ι} (h : Each step C s (xs ++ ys)) {os : List ο} {u : σ}
    (hr : run step s xs = some (os, u)) : Each step C u ys := by
  induction xs generalizing s os with
  | nil =>
    cases hr
    exact h
  | cons x xs ih =>
    obtain ⟨o, v, os', hv, hr, -⟩ := run_cons_eq_some_iff.mp hr
    exact ih (h.2 (o, v) hv) hr

/-- The rule for conditions that are exact: they say of each step whether `P` is kept. -/
theorem each_iff_invariant {P : σ → Prop}
    (hstep : ∀ s x r, P s → step s x = some r → (P r.2 ↔ C s x)) {xs : List ι} (hs : P s)
    {r : List ο × σ} (h : run step s xs = some r) :
    Each step C s xs ↔ ∀ ys os u, ys <+: xs → run step s ys = some (os, u) → P u := by
  refine ⟨?_, ?_⟩
  · intro hc ys os u hys hu
    obtain ⟨zs, rfl⟩ := hys
    exact hc.of_append.invariant (fun s x r hs hx hr => (hstep s x r hs hr).mpr hx) hs hu
  · intro hall
    induction xs generalizing s r with
    | nil => trivial
    | cons x xs ih =>
      obtain ⟨o, u, os, hu, h, -⟩ := run_cons_eq_some_iff.mp h
      have hone : run step s [x] = some ([o], u) :=
        run_cons_eq_some_iff.mpr ⟨o, u, [], hu, rfl, rfl⟩
      have hP := hall [x] [o] u ⟨xs, rfl⟩ hone
      refine ⟨(hstep s x (o, u) hs hu).mp hP, ?_⟩
      intro r' hr'
      rw [Option.mem_def, hu] at hr'
      cases hr'
      refine ih hP (r := (os, r.2)) h ?_
      intro ys os' v hys hv
      exact hall (x :: ys) (o :: os') v (List.cons_prefix_cons.mpr ⟨rfl, hys⟩)
        (run_cons_eq_some_iff.mpr ⟨o, u, os', hu, hv, rfl⟩)

/-- What holds of every input and its answer. -/
theorem run_forall₂ {P : ι → ο → Prop} (hstep : ∀ s x r, step s x = some r → P x r.1) {xs : List ι}
    {os : List ο} (h : run step s xs = some (os, t)) : List.Forall₂ P xs os := by
  induction xs generalizing s os with
  | nil =>
    cases h
    exact .nil
  | cons x xs ih =>
    obtain ⟨o, u, os', hu, h, rfl⟩ := run_cons_eq_some_iff.mp h
    exact .cons (hstep s x (o, u) hu) (ih h)

/-- A run of a machine that another one simulates. -/
theorem run_simulated {τ π : Type} {step' : τ → ι → Option (π × τ)} {R : σ → τ → Prop} {f : ο → π}
    (hstep : ∀ s t x o s', R s t → step s x = some (o, s') →
      ∃ t', step' t x = some (f o, t') ∧ R s' t') {xs : List ι} {t : τ} (hst : R s t)
    {os : List ο} {s' : σ} (h : run step s xs = some (os, s')) :
    ∃ t', run step' t xs = some (os.map f, t') ∧ R s' t' := by
  induction xs generalizing s t os with
  | nil =>
    cases h
    exact ⟨t, rfl, hst⟩
  | cons x xs ih =>
    obtain ⟨o, u, os', hu, h, rfl⟩ := run_cons_eq_some_iff.mp h
    obtain ⟨v, hv, huv⟩ := hstep s t x o u hst hu
    obtain ⟨t', ht, hst'⟩ := ih huv h
    exact ⟨t', run_cons_eq_some_iff.mpr ⟨f o, v, os'.map f, hv, ht, rfl⟩, hst'⟩

/-- What the steps of a run add up to. -/
def tally (step : σ → ι → Option (ο × σ)) (f : σ → ι → Nat) (s : σ) : List ι → Nat
  | [] => 0
  | x :: xs => f s x + ((step s x).map fun r => tally step f r.2 xs).getD 0

theorem tally_eq {f : σ → ι → Nat} {x : ι} {r : ο × σ} (h : step s x = some r) (xs : List ι) :
    tally step f s (x :: xs) = f s x + tally step f r.2 xs := by
  rw [tally, h, Option.map_some, Option.getD_some]

/-- The rule for what every step adds to. -/
theorem run_tally {P : σ → Nat → Prop} {f : σ → ι → Nat}
    (hstep : ∀ s x r n, P s n → step s x = some r → P r.2 (n + f s x)) {xs : List ι} {n : Nat}
    (hs : P s n) {r : List ο × σ} (h : run step s xs = some r) : P r.2 (n + tally step f s xs) := by
  induction xs generalizing s n r with
  | nil =>
    cases h
    exact hs
  | cons x xs ih =>
    obtain ⟨o, u, os, hu, h, -⟩ := run_cons_eq_some_iff.mp h
    rw [tally_eq hu, ← Nat.add_assoc]
    exact ih (r := (os, r.2)) (hstep s x (o, u) n hs hu) h

theorem tally_eq_zero_iff {f : σ → ι → Nat} {xs : List ι} :
    tally step f s xs = 0 ↔ Each step (fun s x => f s x = 0) s xs := by
  induction xs generalizing s with
  | nil => exact iff_of_true rfl trivial
  | cons x xs ih =>
    rw [tally, Each, Nat.add_eq_zero_iff]
    refine and_congr_right fun _ => ?_
    cases step s x with
    | none => exact iff_of_true rfl fun r hr => absurd hr (Option.not_mem_none r)
    | some r => exact ih.trans ⟨fun h r' hr' => Option.mem_some_iff.mp hr' ▸ h, fun h => h r rfl⟩

/-! ### What an observer sees -/

/-- The answers alone. -/
def replies (step : σ → ι → Option (ο × σ)) (s : σ) (xs : List ι) : Option (List ο) :=
  (run step s xs).map Prod.fst

theorem replies_cons {x : ι} {r : ο × σ} (h : step s x = some r) (xs : List ι) :
    replies step s (x :: xs) = (replies step r.2 xs).map (r.1 :: ·) := by
  obtain ⟨o, u⟩ := r
  rw [replies, replies, run, h, Option.bind_eq_bind, Option.bind_some]
  dsimp only
  cases run step u xs <;> rfl

/-- No inputs tell the two states apart. -/
def Alike (step : σ → ι → Option (ο × σ)) (s t : σ) : Prop :=
  ∀ xs, replies step s xs = replies step t xs

theorem Alike.reply (h : Alike step s t) {x : ι} {r r' : ο × σ} (hr : step s x = some r)
    (hr' : step t x = some r') : r.1 = r'.1 := by
  have hx := h [x]
  rw [replies_cons hr, replies_cons hr'] at hx
  exact List.head_eq_of_cons_eq (Option.some.inj hx)

theorem Alike.after (h : Alike step s t) {x : ι} {r r' : ο × σ} (hr : step s x = some r)
    (hr' : step t x = some r') : Alike step r.2 r'.2 := by
  intro xs
  have hx := h (x :: xs)
  rw [replies_cons hr, replies_cons hr', h.reply hr hr'] at hx
  exact Option.map_injective List.cons_injective hx

theorem Alike.run (h : Alike step s t) {xs : List ι} {os os' : List ο} {u v : σ}
    (hr : Lib.run step s xs = some (os, u)) (hr' : Lib.run step t xs = some (os', v)) :
    Alike step u v := by
  induction xs generalizing s t os os' with
  | nil =>
    cases hr
    cases hr'
    exact h
  | cons x xs ih =>
    obtain ⟨o, w, rest, hw, hr, -⟩ := run_cons_eq_some_iff.mp hr
    obtain ⟨o', w', rest', hw', hr', -⟩ := run_cons_eq_some_iff.mp hr'
    exact ih (h.after hw hw') hr hr'

end Open3DStream.Lib
