import Mathlib.Data.List.Basic

/-! Trees by the addresses of their nodes: the way down to a node, child by child. The order of
addresses is that of a traversal which comes to a node before it comes to those below it. -/

namespace Open3DStream.Lib

variable {a b : List Nat} {L : List (List Nat)}

theorem lt_child (a : List Nat) (i : Nat) : a < a ++ [i] := by
  have h : a ++ [] < a ++ [i] := List.append_left_lt (List.nil_lt_cons i [])
  rwa [List.append_nil] at h

/-- What is below one child comes before a later child. -/
theorem below_lt_child (a b : List Nat) {i j : Nat} (h : i < j) : a ++ i :: b < a ++ [j] :=
  List.append_left_lt (List.cons_lt_cons_iff.mpr (.inl h))

theorem dropLast_lt (h : a ≠ []) : a.dropLast < a := by
  have hlt := lt_child a.dropLast (a.getLast h)
  rwa [List.dropLast_append_getLast h] at hlt

/-- The nodes of a tree in the order of a traversal, each with those above it. -/
structure Traversal (L : List (List Nat)) : Prop where
  sorted : L.Pairwise (· < ·)
  closed : ∀ a ∈ L, a ≠ [] → a.dropLast ∈ L

/-- The index of the node above, or -1 at the root. -/
def parentId (L : List (List Nat)) (a : List Nat) : Int := if a = [] then -1 else L.idxOf a.dropLast

theorem Traversal.nil : Traversal [] := ⟨.nil, fun _ h => absurd h List.not_mem_nil⟩

theorem Traversal.concat (h : Traversal L) (hlt : ∀ b ∈ L, b < a) (hparent : a ≠ [] → a.dropLast ∈ L) :
    Traversal (L ++ [a]) := by
  refine ⟨?_, ?_⟩
  · rw [List.pairwise_append]
    refine ⟨h.sorted, List.pairwise_singleton _ _, ?_⟩
    intro b hb c hc
    rw [List.mem_singleton.mp hc]
    exact hlt b hb
  · intro b hb hne
    refine List.mem_append_left _ ?_
    cases List.mem_append.mp hb with
    | inl hb => exact h.closed b hb hne
    | inr hb =>
      obtain rfl := List.mem_singleton.mp hb
      exact hparent hne

theorem parentId_append (h : a ≠ [] → a.dropLast ∈ L) (M : List (List Nat)) :
    parentId (L ++ M) a = parentId L a := by
  rw [parentId, parentId]
  split
  · rfl
  · rename_i hne
    rw [List.idxOf_append_of_mem (h hne)]

theorem parentId_child (L : List (List Nat)) (a : List Nat) (i : Nat) :
    parentId L (a ++ [i]) = L.idxOf a := by
  rw [parentId, if_neg (List.append_ne_nil_of_right_ne_nil a (List.cons_ne_nil i [])),
    List.dropLast_concat]

namespace Traversal

variable (h : Traversal L) {i j : Nat}

include h

theorem lt_of_lt (hi : L[i]? = some a) (hj : L[j]? = some b) (hlt : i < j) : a < b := by
  obtain ⟨hi', rfl⟩ := List.getElem?_eq_some_iff.mp hi
  obtain ⟨hj', rfl⟩ := List.getElem?_eq_some_iff.mp hj
  exact List.pairwise_iff_getElem.mp h.sorted i j hi' hj' hlt

/-- Where the node above is found. -/
theorem parent (hi : L[i]? = some a) (hne : a ≠ []) :
    ∃ p, parentId L a = (p : Nat) ∧ p < i ∧ L[p]? = some a.dropLast := by
  have hmem := h.closed a (List.mem_of_getElem? hi) hne
  have hp := List.getElem?_idxOf hmem
  refine ⟨L.idxOf a.dropLast, if_neg hne, ?_, hp⟩
  by_contra hle
  cases Nat.lt_or_eq_of_le (Nat.le_of_not_lt hle) with
  | inl hlt => exact List.lt_asymm (dropLast_lt hne) (h.lt_of_lt hi hp hlt)
  | inr heq =>
    rw [← heq, hi] at hp
    have hlt := dropLast_lt hne
    rw [← Option.some.inj hp] at hlt
    exact List.lt_irrefl a hlt

/-- The root, and nothing else, comes first. -/
theorem root_iff (hi : L[i]? = some a) : a = [] ↔ i = 0 := by
  refine ⟨?_, ?_⟩
  · rintro rfl
    by_contra hne
    have hlen : 0 < L.length := Nat.zero_lt_of_lt (List.getElem?_eq_some_iff.mp hi).1
    have hlt := h.lt_of_lt (List.getElem?_eq_getElem hlen) hi (Nat.pos_of_ne_zero hne)
    exact List.not_lt_nil _ hlt
  · rintro rfl
    by_contra hne
    obtain ⟨p, -, hp, -⟩ := h.parent hi hne
    exact Nat.not_lt_zero p hp

theorem parentId_eq_iff (hi : L[i]? = some a) : parentId L a = -1 ↔ i = 0 := by
  rw [← h.root_iff hi, parentId]
  split
  · rename_i ha
    exact iff_of_true rfl ha
  · rename_i ha
    exact iff_of_false (by omega) ha

end Traversal

end Open3DStream.Lib
