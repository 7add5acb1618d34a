import Open3DStream.Lib.Address
import Open3DStream.Mobu.Items

/-! The hierarchy that a traversal of the scene makes of a model and all that is below it. -/

namespace Open3DStream

open Lib

namespace FBModel

variable {α : Type}

def Name : FBModel α → String
  | .mk Name _ _ _ _ _ _ => Name

def Children : FBModel α → List (Option (FBModel α))
  | .mk _ _ _ _ _ _ Children => Children

/-- The model at an address. -/
def modelAt (model : FBModel α) : List Nat → Option (FBModel α)
  | [] => some model
  | i :: a => model.Children[i]?.join.bind fun child => child.modelAt a

theorem modelAt_cons_eq_some_iff {model m : FBModel α} {i : Nat} {a : List Nat} :
    model.modelAt (i :: a) = some m ↔
      ∃ child, model.Children[i]? = some (some child) ∧ child.modelAt a = some m := by
  rw [modelAt, Option.bind_eq_some_iff]
  simp only [Option.join_eq_some_iff]

end FBModel

namespace Mobu

section Kept

variable {α : Type} {mJoints : List String} {model m : FBModel α}

/-- The joint is listed, if any are. -/
def Passes (mJoints : List String) (model : FBModel α) : Prop :=
  mJoints ≠ [] → model.Name ∈ mJoints

/-- The model at an address, where it and all those above it pass the filter. -/
def Kept (mJoints : List String) (model : FBModel α) (a : List Nat) (m : FBModel α) : Prop :=
  model.modelAt a = some m ∧ ∀ b n, b <+: a → model.modelAt b = some n → Passes mJoints n

theorem kept_nil_iff : Kept mJoints model [] m ↔ Passes mJoints model ∧ m = model := by
  refine ⟨?_, ?_⟩
  · rintro ⟨hm, h⟩
    cases hm
    exact ⟨h [] _ (List.nil_prefix ..) rfl, rfl⟩
  · rintro ⟨h, rfl⟩
    refine ⟨rfl, ?_⟩
    intro b n hb hn
    rw [List.prefix_nil.mp hb] at hn
    cases hn
    exact h

theorem kept_cons_iff {i : Nat} {a : List Nat} :
    Kept mJoints model (i :: a) m ↔ Passes mJoints model ∧
      ∃ child, model.Children[i]? = some (some child) ∧ Kept mJoints child a m := by
  refine ⟨?_, ?_⟩
  · rintro ⟨hm, h⟩
    obtain ⟨child, hchild, hm⟩ := FBModel.modelAt_cons_eq_some_iff.mp hm
    refine ⟨h [] model (List.nil_prefix ..) rfl, child, hchild, hm, ?_⟩
    intro b n hb hn
    exact h (i :: b) n (List.cons_prefix_cons.mpr ⟨rfl, hb⟩)
      (FBModel.modelAt_cons_eq_some_iff.mpr ⟨child, hchild, hn⟩)
  · rintro ⟨hself, child, hchild, hm, h⟩
    refine ⟨FBModel.modelAt_cons_eq_some_iff.mpr ⟨child, hchild, hm⟩, ?_⟩
    intro b n hb hn
    cases b with
    | nil =>
      cases hn
      exact hself
    | cons j b =>
      obtain ⟨rfl, hb'⟩ := List.cons_prefix_cons.mp hb
      obtain ⟨child', hchild', hn'⟩ := FBModel.modelAt_cons_eq_some_iff.mp hn
      rw [hchild] at hchild'
      cases hchild'
      exact h b n hb' hn'

/-- The models that are kept below a model at `a`, where its children from index `i` on are
`Children`. -/
def KeptFrom (mJoints : List String) (Children : List (Option (FBModel α))) (a : List Nat) (i : Nat)
    (x : List Nat × FBModel α) : Prop :=
  ∃ j child b, Children[j]? = some (some child) ∧ x.1 = a ++ (i + j) :: b ∧
    Kept mJoints child b x.2

theorem keptFrom_cons_iff {child? : Option (FBModel α)} {Children : List (Option (FBModel α))}
    {a : List Nat} {i : Nat} {x : List Nat × FBModel α} :
    KeptFrom mJoints (child? :: Children) a i x ↔
      (∃ child b, child? = some child ∧ x.1 = a ++ i :: b ∧ Kept mJoints child b x.2) ∨
        KeptFrom mJoints Children a (i + 1) x := by
  refine ⟨?_, ?_⟩
  · rintro ⟨j, child, b, hj, hx, hk⟩
    cases j with
    | zero => exact .inl ⟨child, b, Option.some.inj hj, hx, hk⟩
    | succ j => exact .inr ⟨j, child, b, hj, by rwa [Nat.add_right_comm], hk⟩
  · rintro (⟨child, b, rfl, hx, hk⟩ | ⟨j, child, b, hj, hx, hk⟩)
    · exact ⟨0, child, b, rfl, hx, hk⟩
    · exact ⟨j + 1, child, b, hj, by rwa [Nat.add_right_comm] at hx, hk⟩

/-- What is kept of a model that passes the filter: the model, and what is kept below it. -/
theorem kept_iff_of_passes (h : Passes mJoints model) {a : List Nat} {x : List Nat × FBModel α} :
    (x = (a, model) ∨ KeptFrom mJoints model.Children a 0 x) ↔
      ∃ b, x.1 = a ++ b ∧ Kept mJoints model b x.2 := by
  refine ⟨?_, ?_⟩
  · rintro (rfl | ⟨j, child, b, hj, hx, hk⟩)
    · exact ⟨[], (List.append_nil a).symm, kept_nil_iff.mpr ⟨h, rfl⟩⟩
    · rw [Nat.zero_add] at hx
      exact ⟨j :: b, hx, kept_cons_iff.mpr ⟨h, child, hj, hk⟩⟩
  · rintro ⟨b, hx, hk⟩
    cases b with
    | nil =>
      rw [List.append_nil] at hx
      exact .inl (Prod.ext hx (kept_nil_iff.mp hk).2)
    | cons j b =>
      obtain ⟨-, child, hj, hk⟩ := kept_cons_iff.mp hk
      exact .inr ⟨j, child, b, hj, by rwa [Nat.zero_add], hk⟩

theorem not_kept_of_not (h : ¬Passes mJoints model) (a : List Nat) : ¬Kept mJoints model a m :=
  fun hk => h (hk.2 [] model (List.nil_prefix ..) rfl)

/-- Without a filter there are all models. -/
theorem kept_all_iff {a : List Nat} : Kept [] model a m ↔ model.modelAt a = some m :=
  and_iff_left fun _ _ _ _ h => absurd rfl h

end Kept

variable {α β : Type} [Numeric α β]

/-- The transform of a model. -/
def transformOf : FBModel α → Int → Transform α
  | .mk Name Translation Rotation Scaling PreRotation PostRotation _, parentId =>
    MobuTransform Name parentId Translation Rotation Scaling PreRotation PostRotation

theorem transformOf_mParentId (model : FBModel α) (parentId : Int) :
    (transformOf model parentId).mParentId = parentId := by
  cases model
  rfl

/-- The transforms are those of the models at `L`. -/
structure Places (transforms : List (Transform α)) (L : List (List Nat × FBModel α)) : Prop where
  traversal : Traversal (L.map Prod.fst)
  eq_map : transforms = L.map fun x => transformOf x.2 (parentId (L.map Prod.fst) x.1)

variable {transforms : List (Transform α)} {L : List (List Nat × FBModel α)} {a : List Nat}

theorem Places.nil : Places ([] : List (Transform α)) [] := ⟨.nil, rfl⟩

theorem Places.length (h : Places transforms L) : transforms.length = L.length := by
  rw [h.eq_map, List.length_map]

theorem Places.concat (h : Places transforms L) (hlt : ∀ x ∈ L, x.1 < a)
    (hparent : a ≠ [] → a.dropLast ∈ L.map Prod.fst) (m : FBModel α) :
    Places (transforms ++ [transformOf m (parentId (L.map Prod.fst) a)]) (L ++ [(a, m)]) := by
  have hfst : (L ++ [(a, m)]).map Prod.fst = L.map Prod.fst ++ [a] := List.map_append
  refine ⟨?_, ?_⟩
  · rw [hfst]
    exact h.traversal.concat (List.forall_mem_map.mpr hlt) hparent
  · rw [hfst, List.map_append, h.eq_map, List.map_singleton, parentId_append hparent]
    congr 1
    apply List.map_congr_left
    intro x hx
    rw [parentId_append (h.traversal.closed x.1 (List.mem_map_of_mem hx))]

/-- What comes before a model comes before its children, and so does the model. -/
theorem lt_child_of_concat (hlt : ∀ x ∈ L, x.1 < a) (m : FBModel α) (i : Nat) :
    ∀ x ∈ L ++ [(a, m)], x.1 < a ++ [i] := by
  intro x hx
  cases List.mem_append.mp hx with
  | inl hx => exact List.lt_trans (hlt x hx) (lt_child a i)
  | inr hx =>
    rw [List.mem_singleton.mp hx]
    exact lt_child a i

theorem not_mem_of_lt (hlt : ∀ x ∈ L, x.1 < a) : a ∉ L.map Prod.fst := by
  intro hmem
  obtain ⟨x, hx, rfl⟩ := List.mem_map.mp hmem
  exact List.lt_irrefl _ (hlt x hx)

theorem traverseSubject_of_passes {mJoints : List String} {model : FBModel α}
    (h : Passes mJoints model) (transforms : List (Transform α)) (p : Int) :
    TraverseSubject mJoints transforms model p =
      let cleared := if p = -1 then [] else transforms
      traverseChildren mJoints (cleared ++ [transformOf model p]) model.Children cleared.length := by
  cases model
  rw [TraverseSubject, if_neg]
  · rfl
  · rintro ⟨hne, hout⟩
    exact hout (h (List.ne_nil_of_length_pos hne))

theorem traverseSubject_of_not {mJoints : List String} {model : FBModel α}
    (h : ¬Passes mJoints model) (transforms : List (Transform α)) (p : Int) :
    TraverseSubject mJoints transforms model p = if p = -1 then [] else transforms := by
  obtain ⟨hne, hout⟩ := Classical.not_imp.mp h
  cases model
  rw [TraverseSubject, if_pos ⟨List.length_pos_of_ne_nil hne, hout⟩]

mutual

/-- A model that passes the filter is added at `a`, and then what is below it. -/
theorem traverseSubject_places (mJoints : List String) (transforms : List (Transform α))
    (model : FBModel α) (p : Int) {L : List (List Nat × FBModel α)} {a : List Nat}
    (h : Places (if p = -1 then [] else transforms) L) (hlt : ∀ x ∈ L, x.1 < a)
    (hparent : a ≠ [] → a.dropLast ∈ L.map Prod.fst) (hp : p = parentId (L.map Prod.fst) a) :
    ∃ M, Places (TraverseSubject mJoints transforms model p) (L ++ M) ∧
      ∀ x, x ∈ M ↔ ∃ b, x.1 = a ++ b ∧ Kept mJoints model b x.2 := by
  match model with
  | .mk Name Translation Rotation Scaling PreRotation PostRotation Children =>
    generalize hmodel : FBModel.mk Name Translation Rotation Scaling PreRotation PostRotation
      Children = model
    have hChildren : model.Children = Children := hmodel ▸ rfl
    by_cases hpasses : Passes mJoints model
    · rw [traverseSubject_of_passes hpasses, hChildren]
      dsimp only
      have hfst : (L ++ [(a, model)]).map Prod.fst = L.map Prod.fst ++ [a] := List.map_append
      have hadded := h.concat hlt hparent model
      rw [← hp] at hadded
      obtain ⟨M, hM, hmem⟩ := traverseChildren_places mJoints _ Children
        ((if p = -1 then [] else transforms).length : Nat) hadded (lt_child_of_concat hlt model 0)
        (by rw [hfst]; exact List.mem_append_right _ (List.mem_singleton_self a))
        (by rw [hfst, List.idxOf_append_of_notMem (not_mem_of_lt hlt), List.idxOf_cons_self,
          List.length_map, h.length, Nat.add_zero])
      refine ⟨(a, model) :: M, ?_, ?_⟩
      · rw [List.append_cons L (a, model) M]
        exact hM
      · intro x
        rw [List.mem_cons, hmem, ← hChildren]
        exact kept_iff_of_passes hpasses
    · rw [traverseSubject_of_not hpasses]
      refine ⟨[], ?_, ?_⟩
      · rwa [List.append_nil]
      · intro x
        refine iff_of_false List.not_mem_nil ?_
        rintro ⟨b, -, hk⟩
        exact not_kept_of_not hpasses b hk

/-- The children from index `i` on are added below `a`, one after the other. -/
theorem traverseChildren_places (mJoints : List String) (transforms : List (Transform α))
    (Children : List (Option (FBModel α))) (nextId : Int) {L : List (List Nat × FBModel α)}
    {a : List Nat} {i : Nat} (h : Places transforms L) (hlt : ∀ x ∈ L, x.1 < a ++ [i])
    (ha : a ∈ L.map Prod.fst) (hid : nextId = (L.map Prod.fst).idxOf a) :
    ∃ M, Places (traverseChildren mJoints transforms Children nextId) (L ++ M) ∧
      ∀ x, x ∈ M ↔ KeptFrom mJoints Children a i x := by
  have hnext : a ++ [i] < a ++ [i + 1] := below_lt_child a [] (Nat.lt_succ_self i)
  match Children with
  | [] =>
    rw [traverseChildren]
    refine ⟨[], ?_, ?_⟩
    · rwa [List.append_nil]
    · intro x
      refine iff_of_false List.not_mem_nil ?_
      rintro ⟨j, child, b, hj, -⟩
      cases hj
  | none :: Children =>
    rw [traverseChildren]
    obtain ⟨M, hM, hmem⟩ := traverseChildren_places mJoints transforms Children nextId h
      (fun x hx => List.lt_trans (hlt x hx) hnext) ha hid
    refine ⟨M, hM, ?_⟩
    intro x
    rw [hmem, keptFrom_cons_iff]
    refine (or_iff_right ?_).symm
    rintro ⟨child, b, hchild, -⟩
    cases hchild
  | some child :: Children =>
    rw [traverseChildren]
    have hp : nextId = parentId (L.map Prod.fst) (a ++ [i]) := by rw [parentId_child, hid]
    have hne : nextId ≠ -1 := by omega
    obtain ⟨M, hM, hmem⟩ := traverseSubject_places mJoints transforms child nextId
      (by rwa [if_neg hne]) hlt (fun _ => by rwa [List.dropLast_concat]) hp
    have hlt' : ∀ x ∈ L ++ M, x.1 < a ++ [i + 1] := by
      intro x hx
      cases List.mem_append.mp hx with
      | inl hx => exact List.lt_trans (hlt x hx) hnext
      | inr hx =>
        obtain ⟨b, hx, -⟩ := (hmem x).mp hx
        rw [hx, List.append_assoc]
        exact below_lt_child a b (Nat.lt_succ_self i)
    obtain ⟨M', hM', hmem'⟩ := traverseChildren_places mJoints _ Children nextId hM hlt'
      (by rw [List.map_append]; exact List.mem_append_left _ ha)
      (by rw [List.map_append, List.idxOf_append_of_mem ha, hid])
    refine ⟨M ++ M', ?_, ?_⟩
    · rw [← List.append_assoc]
      exact hM'
    · intro x
      rw [List.mem_append, hmem, hmem', keptFrom_cons_iff]
      refine or_congr_left ⟨?_, ?_⟩
      · rintro ⟨b, hx, hk⟩
        exact ⟨child, b, rfl, hx.trans (List.append_assoc ..), hk⟩
      · rintro ⟨child', b, hchild, hx, hk⟩
        cases hchild
        exact ⟨b, hx.trans (List.append_assoc a [i] b).symm, hk⟩

end

/-- The transforms of the models that are kept, those of a model before those of what is below it,
and each with the index of its parent. -/
structure Hierarchy (mJoints : List String) (model : FBModel α) (L : List (List Nat × FBModel α))
    (transforms : List (Transform α)) : Prop where
  preorder : (L.map Prod.fst).Pairwise (· < ·)
  kept : ∀ a m, (a, m) ∈ L ↔ Kept mJoints model a m
  all : mJoints = [] → ∀ a m, (a, m) ∈ L ↔ model.modelAt a = some m
  models : List.Forall₂ (fun x t => t = transformOf x.2 t.mParentId) L transforms
  root : ∀ (i : Nat) t, transforms[i]? = some t → (t.mParentId = -1 ↔ i = 0)
  parent : ∀ (i : Nat) x t, L[i]? = some x → transforms[i]? = some t → i ≠ 0 →
    ∃ (p : Nat) (y : List Nat × FBModel α) (k : Nat), t.mParentId = p ∧ p < i ∧ L[p]? = some y ∧
      x.1 = y.1 ++ [k]
  tree : transforms ≠ [] → RootedTree (parentIds transforms)

namespace Places

variable (h : Places transforms L) {i : Nat} {t : Transform α}

include h

theorem mParentId {x : List Nat × FBModel α} (hx : L[i]? = some x) (ht : transforms[i]? = some t) :
    t = transformOf x.2 t.mParentId ∧ t.mParentId = parentId (L.map Prod.fst) x.1 := by
  rw [h.eq_map, List.getElem?_map, hx, Option.map_some] at ht
  cases ht
  rw [transformOf_mParentId]
  exact ⟨rfl, rfl⟩

theorem exists_place (ht : transforms[i]? = some t) : ∃ x, L[i]? = some x :=
  ⟨_, List.getElem?_eq_getElem (h.length ▸ (List.getElem?_eq_some_iff.mp ht).1)⟩

theorem root (ht : transforms[i]? = some t) : t.mParentId = -1 ↔ i = 0 := by
  obtain ⟨x, hx⟩ := h.exists_place ht
  rw [(h.mParentId hx ht).2]
  apply h.traversal.parentId_eq_iff
  rw [List.getElem?_map, hx, Option.map_some]

theorem parent {x : List Nat × FBModel α} (hx : L[i]? = some x) (ht : transforms[i]? = some t)
    (hi : i ≠ 0) :
    ∃ (p : Nat) (y : List Nat × FBModel α) (k : Nat), t.mParentId = p ∧ p < i ∧ L[p]? = some y ∧
      x.1 = y.1 ++ [k] := by
  have haddress : (L.map Prod.fst)[i]? = some x.1 := by rw [List.getElem?_map, hx, Option.map_some]
  have hne : x.1 ≠ [] := fun he => hi ((h.traversal.root_iff haddress).mp he)
  obtain ⟨p, hp, hlt, hparent⟩ := h.traversal.parent haddress hne
  rw [List.getElem?_map, Option.map_eq_some_iff] at hparent
  obtain ⟨y, hy, hyx⟩ := hparent
  refine ⟨p, y, x.1.getLast hne, (h.mParentId hx ht).2.trans hp, hlt, hy, ?_⟩
  rw [hyx, List.dropLast_append_getLast]

theorem tree (hne : transforms ≠ []) : RootedTree (parentIds transforms) := by
  have hget {i : Nat} {p : Int} (hp : (parentIds transforms)[i]? = some p) :
      ∃ t, transforms[i]? = some t ∧ t.mParentId = p := by
    rwa [parentIds, List.getElem?_map, Option.map_eq_some_iff] at hp
  apply rootedTree_of_lt
  · rwa [parentIds, Ne, List.map_eq_nil_iff]
  · intro i p hp
    obtain ⟨t, ht, rfl⟩ := hget hp
    exact h.root ht
  · intro i p hp hi
    obtain ⟨t, ht, rfl⟩ := hget hp
    obtain ⟨x, hx⟩ := h.exists_place ht
    obtain ⟨q, y, k, hq, hlt, -⟩ := h.parent hx ht hi
    exact ⟨q, hq, hlt⟩

theorem hierarchy {mJoints : List String} {model : FBModel α}
    (hkept : ∀ a m, (a, m) ∈ L ↔ Kept mJoints model a m) : Hierarchy mJoints model L transforms := by
  refine ⟨h.traversal.sorted, hkept, ?_, ?_, fun i t ht => h.root ht,
    fun i x t hx ht hi => h.parent hx ht hi, h.tree⟩
  · rintro rfl a m
    rw [hkept, kept_all_iff]
  · rw [List.forall₂_iff_get]
    refine ⟨h.length.symm, ?_⟩
    intro i hi hi'
    exact (h.mParentId (List.getElem?_eq_getElem hi) (List.getElem?_eq_getElem hi')).1

end Places

/-- Whatever the list was, whatever the filter is and whatever children are null: the traversal from
a model on leaves its hierarchy, and nothing else. -/
theorem traverseSubject_hierarchy (mJoints : List String) (transforms : List (Transform α))
    (model : FBModel α) :
    ∃ L, Hierarchy mJoints model L (TraverseSubject mJoints transforms model (-1)) := by
  have hcleared : Places (if (-1 : Int) = -1 then [] else transforms) [] := .nil
  obtain ⟨L, hL, hmem⟩ := traverseSubject_places mJoints transforms model (-1) (a := []) hcleared
    (fun _ h => absurd h List.not_mem_nil) (absurd rfl) rfl
  rw [List.nil_append] at hL
  refine ⟨L, hL.hierarchy ?_⟩
  intro a m
  rw [hmem]
  refine ⟨?_, fun hk => ⟨a, rfl, hk⟩⟩
  rintro ⟨b, rfl, hk⟩
  exact hk

end Mobu

end Open3DStream
