import Mathlib.Data.List.Basic
import Mathlib.Data.List.Induction
import Mathlib.Order.Defs.LinearOrder
import Open3DStream.Lib.Ledger

/-! Keys that are introduced to an audience and heard of, and that are dismissed once they have
been silent for too long. -/

namespace Open3DStream.Lib

/-- What is said of the keys, and the times at which the silent ones are looked for. -/
inductive Tiding (κ δ φ τ : Type) where
  | introduced (k : κ) (d : δ)
  | heard (k : κ) (x : φ) (t : τ)
  | dismissed (k : κ)
  | swept (t : τ)

variable {κ δ φ τ : Type} [DecidableEq κ] {k j : κ} {log : List (Tiding κ δ φ τ)}
  {w : Tiding κ δ φ τ}

/-! ### What the audience knows -/

def Tiding.learn (k : κ) (o : Option δ) : Tiding κ δ φ τ → Option δ
  | .introduced j d => if j = k then some d else o
  | .dismissed j => if j = k then none else o
  | .heard _ _ _ | .swept _ => o

/-- What a key has been introduced with since it was last dismissed. -/
def known (k : κ) (log : List (Tiding κ δ φ τ)) : Option δ := log.foldl (Tiding.learn k) none

theorem known_concat (k : κ) (log : List (Tiding κ δ φ τ)) (w : Tiding κ δ φ τ) :
    known k (log ++ [w]) = w.learn k (known k log) := by
  rw [known, List.foldl_append]
  rfl

theorem mem_of_known {d : δ} (h : known k log = some d) : .introduced k d ∈ log := by
  induction log using List.reverseRecOn with
  | nil => cases h
  | append_singleton log w ih =>
    rw [known_concat] at h
    cases w with
    | introduced j c =>
      rw [Tiding.learn] at h
      split at h
      · subst j
        cases h
        exact List.mem_append_right _ (List.mem_singleton_self _)
      · exact List.mem_append_left _ (ih h)
    | dismissed j =>
      rw [Tiding.learn] at h
      split at h
      · cases h
      · exact List.mem_append_left _ (ih h)
    | heard j x t => exact List.mem_append_left _ (ih h)
    | swept t => exact List.mem_append_left _ (ih h)

/-- A key is heard of when the audience knows it, and introduced when it does not. -/
def Fitting (log : List (Tiding κ δ φ τ)) : Tiding κ δ φ τ → Prop
  | .introduced k _ => known k log = none
  | .heard k _ _ => (known k log).isSome
  | .dismissed _ | .swept _ => True

def Orderly (log : List (Tiding κ δ φ τ)) : Prop := Throughout Fitting log

theorem orderly_nil : Orderly ([] : List (Tiding κ δ φ τ)) := throughout_nil Fitting

theorem orderly_concat_iff : Orderly (log ++ [w]) ↔ Orderly log ∧ Fitting log w :=
  throughout_concat_iff

/-! ### Who has been heard of lately -/

variable [Sub τ] [LT τ] [DecidableLT τ] {θ : τ}

def Tiding.keep (θ : τ) (k : κ) (o : Option τ) : Tiding κ δ φ τ → Option τ
  | .heard j _ t => if j = k then some t else o
  | .swept t => o.filter fun u => ¬θ < t - u
  | .introduced _ _ | .dismissed _ => o

/-- When a key was last heard of, if no sweep has found it silent for more than `θ` since. -/
def lingering (θ : τ) (k : κ) (log : List (Tiding κ δ φ τ)) : Option τ :=
  log.foldl (Tiding.keep θ k) none

theorem lingering_concat (θ : τ) (k : κ) (log : List (Tiding κ δ φ τ)) (w : Tiding κ δ φ τ) :
    lingering θ k (log ++ [w]) = w.keep θ k (lingering θ k log) := by
  rw [lingering, List.foldl_append]
  rfl

/-- The key was last heard of at `u`, and no sweep since has come later than `θ` after that. -/
def HeardLast (θ : τ) (k : κ) (u : τ) (log : List (Tiding κ δ φ τ)) : Prop :=
  ∃ past x later, log = past ++ .heard k x u :: later ∧ (∀ y t, .heard k y t ∉ later) ∧
    ∀ t, .swept t ∈ later → ¬θ < t - u

omit [DecidableEq κ] [DecidableLT τ] in
/-- A tiding that is not about the key, or a sweep, comes after what was heard. -/
theorem heardLast_concat_iff {u : τ} (hw : ∀ y t, w ≠ .heard k y t) :
    HeardLast θ k u (log ++ [w]) ↔ HeardLast θ k u log ∧ ∀ t, w = .swept t → ¬θ < t - u := by
  refine ⟨?_, ?_⟩
  · rintro ⟨past, x, later, h, hlast, hsweeps⟩
    obtain rfl | ⟨rest, v, rfl⟩ := later.eq_nil_or_concat'
    · exact absurd (List.singleton_inj.mp (List.append_inj' h rfl).2) (hw x u)
    · have heq : log ++ [w] = (past ++ .heard k x u :: rest) ++ [v] := by simpa using h
      obtain ⟨rfl, hv⟩ := List.append_inj' heq rfl
      rw [List.singleton_inj] at hv
      subst hv
      refine ⟨⟨past, x, rest, rfl, ?_, ?_⟩, ?_⟩
      · exact fun y t hm => hlast y t (List.mem_append_left _ hm)
      · exact fun t hm => hsweeps t (List.mem_append_left _ hm)
      · rintro t rfl
        exact hsweeps t (List.mem_append_right _ (List.mem_singleton_self _))
  · rintro ⟨⟨past, x, later, rfl, hlast, hsweeps⟩, hsweep⟩
    refine ⟨past, x, later ++ [w], by simp, ?_, ?_⟩
    · intro y t hm
      obtain hm | hm := List.mem_append.mp hm
      · exact hlast y t hm
      · exact hw y t (List.mem_singleton.mp hm).symm
    · intro t hm
      obtain hm | hm := List.mem_append.mp hm
      · exact hsweeps t hm
      · exact hsweep t (List.mem_singleton.mp hm).symm

omit [DecidableEq κ] [DecidableLT τ] in
theorem heardLast_heard_iff {x : φ} {t u : τ} :
    HeardLast θ k u (log ++ [.heard k x t]) ↔ u = t := by
  refine ⟨?_, ?_⟩
  · rintro ⟨past, y, later, h, hlast, -⟩
    obtain rfl | ⟨rest, v, rfl⟩ := later.eq_nil_or_concat'
    · have hv := List.singleton_inj.mp (List.append_inj' h rfl).2
      cases hv
      rfl
    · have heq : log ++ [.heard k x t] = (past ++ .heard k y u :: rest) ++ [v] := by simpa using h
      have hv := List.singleton_inj.mp (List.append_inj' heq rfl).2
      exact absurd (List.mem_append_right _ (List.mem_singleton.mpr hv)) (hlast x t)
  · rintro rfl
    exact ⟨log, x, [], rfl, fun _ _ => List.not_mem_nil, fun _ h => absurd h List.not_mem_nil⟩

/-- Who lingers is who was heard of and not found silent since. -/
theorem lingering_eq_some_iff {u : τ} : lingering θ k log = some u ↔ HeardLast θ k u log := by
  induction log using List.reverseRecOn generalizing u with
  | nil =>
    refine ⟨nofun, ?_⟩
    rintro ⟨past, x, later, h, -⟩
    exact absurd h.symm (List.append_ne_nil_of_right_ne_nil past (List.cons_ne_nil _ later))
  | append_singleton log w ih =>
    rw [lingering_concat]
    cases w with
    | introduced j d => simp [Tiding.keep, ih, heardLast_concat_iff]
    | dismissed j => simp [Tiding.keep, ih, heardLast_concat_iff]
    | swept t => simp [Tiding.keep, ih, heardLast_concat_iff, Option.filter_eq_some_iff]
    | heard j x t =>
      by_cases hj : j = k
      · subst hj
        simp [Tiding.keep, heardLast_heard_iff, eq_comm]
      · simp [Tiding.keep, hj, ih, heardLast_concat_iff]

end Open3DStream.Lib
