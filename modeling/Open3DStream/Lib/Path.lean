import Mathlib.Data.Fintype.EquivFin
import Mathlib.Order.RelClasses
import Mathlib.Logic.Relation
import Mathlib.Data.Finite.Defs

namespace Open3DStream.Lib

/-! Nodes that name at most one parent. -/

section paths

variable {ι : Type} {root : ι → Prop} {parent : ι → ι → Prop}

/-- `Path root parent i l` says that `l` lists the nodes from a root down to `i`,
where `parent i p` says that `p` is the parent of `i`. -/
inductive Path (root : ι → Prop) (parent : ι → ι → Prop) : ι → List ι → Prop
  | root {i : ι} : root i → Path root parent i [i]
  | child {i p : ι} {l : List ι} : parent i p → Path root parent p l → Path root parent i (l ++ [i])

theorem Path.mono {root' : ι → Prop} {parent' : ι → ι → Prop} (hr : ∀ i, root i → root' i)
    (hp : ∀ i p, parent i p → parent' i p) {i : ι} {l : List ι} (h : Path root parent i l) :
    Path root' parent' i l := by
  induction h with
  | root hi => exact .root (hr _ hi)
  | child hc _ ih => exact .child (hp _ _ hc) ih

/-- A path is unique where a node has one parent and a root has none. -/
theorem Path.unique (hr : ∀ i p, root i → ¬parent i p)
    (hp : ∀ i p q, parent i p → parent i q → p = q) {i : ι} {l l' : List ι}
    (h : Path root parent i l) (h' : Path root parent i l') : l = l' := by
  induction h generalizing l' with
  | root hi =>
    cases h' with
    | root _ => rfl
    | child hc _ => exact absurd hc (hr _ _ hi)
  | child hc _ ih =>
    cases h' with
    | root hi => exact absurd hc (hr _ _ hi)
    | child hc' hl' =>
      obtain rfl := hp _ _ _ hc hc'
      rw [ih hl']

/-- Below a node outside a set that has every root, some node outside the set has
its parent inside. -/
theorem Path.progress {done : ι → Prop} (hroot : ∀ i, root i → done i) {i : ι} {l : List ι}
    (h : Path root parent i l) (hi : ¬done i) : ∃ j p, ¬done j ∧ parent j p ∧ done p := by
  induction h with
  | root hr => exact absurd (hroot _ hr) hi
  | @child i p l hc _ ih =>
    by_cases hp : done p
    · exact ⟨i, p, hi, hc, hp⟩
    · exact ih hp

/-- A node on a path lies on no parent cycle. -/
theorem Path.not_cycle (hr : ∀ i p, root i → ¬parent i p)
    (hp : ∀ i p q, parent i p → parent i q → p = q) {i : ι} {l : List ι}
    (h : Path root parent i l) : ¬Relation.TransGen parent i i := by
  induction h with
  | root hi =>
    intro hc
    obtain ⟨p, hip, -⟩ := Relation.TransGen.head'_iff.mp hc
    exact hr _ _ hi hip
  | @child i p l hc _ ih =>
    intro hcycle
    obtain ⟨q, hiq, hqi⟩ := Relation.TransGen.head'_iff.mp hcycle
    obtain rfl := hp _ _ _ hiq hc
    exact ih (Relation.TransGen.tail' hqi hc)

/-- Among finitely many nodes, each a root or with a parent among them, every node
off the cycles has a path. -/
theorem exists_path {n : ℕ} {root : ℕ → Prop} {parent : ℕ → ℕ → Prop}
    (hbound : ∀ i p, parent i p → i < n ∧ p < n)
    (htotal : ∀ i, i < n → root i ∨ ∃ p, parent i p)
    (hacyclic : ∀ i, ¬Relation.TransGen parent i i) {i : ℕ} (hi : i < n) :
    ∃ l, Path root parent i l := by
  let above : Fin n → Fin n → Prop := fun p i => Relation.TransGen parent i.val p.val
  have : IsTrans (Fin n) above := ⟨fun a b c hab hbc => Relation.TransGen.trans hbc hab⟩
  have : Std.Irrefl above := ⟨fun a => hacyclic a.val⟩
  have hwf : WellFounded above := Finite.wellFounded_of_trans_of_irrefl above
  have main : ∀ k : Fin n, ∃ l, Path root parent k.val l := by
    intro k
    induction k using hwf.induction with
    | _ k ih =>
      obtain hr | ⟨p, hp⟩ := htotal k.val k.isLt
      · exact ⟨[k.val], .root hr⟩
      · obtain ⟨l, hl⟩ := ih ⟨p, (hbound _ _ hp).2⟩ (Relation.TransGen.single hp)
        exact ⟨l ++ [k.val], .child hp hl⟩
  exact main ⟨i, hi⟩

end paths

end Open3DStream.Lib
