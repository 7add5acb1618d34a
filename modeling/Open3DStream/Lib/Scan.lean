import Mathlib.Data.List.Basic

/-! Scanning for a pattern by a comparison that starts afresh after the first mismatch. -/

namespace Open3DStream.Lib

variable {γ : Type} {pattern : List γ}

/-- What a scan has dropped: each time the part of the pattern that was there and the
entry after it that was not the next one. -/
inductive Dropped (pattern : List γ) : List γ → Prop
  | nil : Dropped pattern []
  | mismatch {k : Nat} {c : γ} {rest : List γ} (hk : k < pattern.length)
      (hc : pattern[k]? ≠ some c) (hrest : Dropped pattern rest) :
      Dropped pattern (pattern.take k ++ c :: rest)

theorem Dropped.append {v w : List γ} (hv : Dropped pattern v) (hw : Dropped pattern w) :
    Dropped pattern (v ++ w) := by
  induction hv with
  | nil => exact hw
  | mismatch hk hc hrest ih =>
    rw [List.append_assoc, List.cons_append]
    exact .mismatch hk hc ih

/-- A list begins with the pattern, or differs from it after some of its entries. -/
theorem compared (pattern w : List γ) :
    pattern <+: w ∨ ∃ k rest, k < pattern.length ∧ rest.head? ≠ pattern[k]? ∧
      w = pattern.take k ++ rest := by
  induction pattern generalizing w with
  | nil => exact .inl List.nil_prefix
  | cons p pattern ih =>
    by_cases hp : w.head? = some p
    · obtain ⟨w, rfl⟩ := List.head?_eq_some_iff.mp hp
      obtain hw | ⟨k, rest, hk, hrest, rfl⟩ := ih w
      · exact .inl (List.cons_prefix_cons.mpr ⟨rfl, hw⟩)
      · refine .inr ⟨k + 1, rest, Nat.succ_lt_succ hk, ?_, rfl⟩
        rwa [List.getElem?_cons_succ]
    · exact .inr ⟨0, w, Nat.zero_lt_succ _, hp, rfl⟩

/-- A scan drops some of a list, and is then within the pattern or has found it. -/
theorem dropped_split (pattern w : List γ) :
    ∃ u v, w = u ++ v ∧ Dropped pattern u ∧
      (pattern <+: v ∨ ∃ k, k < pattern.length ∧ v = pattern.take k) := by
  induction hn : w.length using Nat.strongRecOn generalizing w with
  | ind n ih =>
    obtain hw | ⟨k, rest, hk, hrest, rfl⟩ := compared pattern w
    · exact ⟨[], w, rfl, .nil, .inl hw⟩
    · cases rest with
      | nil => exact ⟨[], _, rfl, .nil, .inr ⟨k, hk, List.append_nil _⟩⟩
      | cons c rest =>
        have hlt : rest.length < n := by
          rw [← hn, List.length_append, List.length_cons]
          omega
        obtain ⟨u, v, rfl, hu, hv⟩ := ih rest.length hlt rest rfl
        refine ⟨pattern.take k ++ c :: u, v, ?_, .mismatch hk hrest.symm hu, hv⟩
        rw [List.append_assoc, List.cons_append]

/-- The scan of a list without the pattern drops all but a part of the pattern at its end. -/
theorem dropped_pending {w : List γ} (hw : ∀ u v, w = u ++ (pattern ++ v) → False) :
    ∃ u k, k < pattern.length ∧ Dropped pattern u ∧ w = u ++ pattern.take k := by
  obtain ⟨u, v, rfl, hu, ⟨t, rfl⟩ | ⟨k, hk, rfl⟩⟩ := dropped_split pattern w
  · exact absurd rfl (fun h => hw u t h)
  · exact ⟨u, k, hk, hu, rfl⟩

end Open3DStream.Lib
