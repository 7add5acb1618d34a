import Open3DStream.Lib.Path
import Open3DStream.Local

namespace Open3DStream

variable {α β : Type} [Numeric α β]

/-! ### Parent ids -/

def rootAt (ids : List Int) (i : Nat) : Prop := ids[i]? = some (-1)

def parentAt (ids : List Int) (i p : Nat) : Prop := ids[i]? = some (p : Int) ∧ p < ids.length

/-- The path from a root down to transform `i`. -/
abbrev TreePath (ids : List Int) : Nat → List Nat → Prop := Lib.Path (rootAt ids) (parentAt ids)

/-- The parent ids form one rooted tree over the whole list. -/
structure RootedTree (ids : List Int) : Prop where
  oneRoot : ids.count (-1) = 1
  inRange : ∀ p ∈ ids, p = -1 ∨ (0 ≤ p ∧ p < ids.length)
  reaches : ∀ i, i < ids.length → ∃ l, TreePath ids i l

/-- What the inner loop checks of the id at index `i`. -/
def ValidId (ids : List Int) (i : Nat) (p : Int) : Prop :=
  p = -1 ∨ (0 ≤ p ∧ p < ids.length ∧ p ≠ i)

/-- Every id passes the checks of the inner loop. -/
def ValidIds (ids : List Int) : Prop := ∀ i p, ids[i]? = some p → ValidId ids i p

theorem root_no_parent {ids : List Int} {i p : Nat} (h : rootAt ids i) : ¬parentAt ids i p := by
  rintro ⟨hp, -⟩
  rw [rootAt, hp] at h
  have := Option.some.inj h
  omega

theorem parent_functional {ids : List Int} {i p q : Nat} (hp : parentAt ids i p)
    (hq : parentAt ids i q) : p = q := by
  have h := hp.1.symm.trans hq.1
  have := Option.some.inj h
  omega

theorem TreePath.unique {ids : List Int} {i : Nat} {l l' : List Nat} (h : TreePath ids i l)
    (h' : TreePath ids i l') : l = l' :=
  Lib.Path.unique (fun _ _ => root_no_parent) (fun _ _ _ => parent_functional) h h'

theorem TreePath.not_self {ids : List Int} {i : Nat} {l : List Nat} (h : TreePath ids i l) :
    ¬parentAt ids i i := fun hp =>
  Lib.Path.not_cycle (fun _ _ => root_no_parent) (fun _ _ _ => parent_functional) h
    (Relation.TransGen.single hp)

theorem TreePath.validId {ids : List Int} {i : Nat} {l : List Nat} {p : Int}
    (h : TreePath ids i l) (hp : ids[i]? = some p) : ValidId ids i p := by
  have hself := h.not_self
  cases h with
  | root hr =>
    rw [rootAt, hp] at hr
    exact .inl (Option.some.inj hr)
  | @child _ q _ hc _ =>
    have hq : p = q := Option.some.inj (hp.symm.trans hc.1)
    subst hq
    refine .inr ⟨by omega, by exact_mod_cast hc.2, ?_⟩
    intro he
    have : q = i := by exact_mod_cast he
    subst this
    exact hself hc

theorem RootedTree.validIds {ids : List Int} (h : RootedTree ids) : ValidIds ids := by
  intro i p hp
  have hi : i < ids.length := (List.getElem?_eq_some_iff.mp hp).1
  obtain ⟨l, hl⟩ := h.reaches i hi
  exact hl.validId hp

theorem ValidIds.total {ids : List Int} (h : ValidIds ids) {i : Nat} (hi : i < ids.length) :
    rootAt ids i ∨ ∃ p, parentAt ids i p := by
  have hp : ids[i]? = some ids[i] := List.getElem?_eq_getElem hi
  obtain hr | ⟨h0, hn, -⟩ := h i _ hp
  · left
    rw [rootAt, hp, hr]
  · right
    refine ⟨ids[i].toNat, ?_, by omega⟩
    rw [hp]
    congr 1
    omega

theorem ValidIds.inRange {ids : List Int} (h : ValidIds ids) :
    ∀ p ∈ ids, p = -1 ∨ (0 ≤ p ∧ p < ids.length) := by
  intro p hp
  obtain ⟨i, hi⟩ := List.mem_iff_getElem?.mp hp
  obtain hr | ⟨h0, hn, -⟩ := h i p hi
  · exact .inl hr
  · exact .inr ⟨h0, hn⟩

/-- Valid ids without a parent cycle reach a root from everywhere. -/
theorem ValidIds.reaches {ids : List Int} (h : ValidIds ids)
    (hc : ∀ i, ¬Relation.TransGen (parentAt ids) i i) {i : Nat} (hi : i < ids.length) :
    ∃ l, TreePath ids i l :=
  Lib.exists_path (n := ids.length)
    (fun _ _ hp => ⟨(List.getElem?_eq_some_iff.mp hp.1).1, hp.2⟩)
    (fun _ hk => h.total hk) hc hi

theorem RootedTree.not_cycle {ids : List Int} (h : RootedTree ids) (i : Nat) :
    ¬Relation.TransGen (parentAt ids) i i := by
  intro hc
  obtain ⟨p, hp, -⟩ := Relation.TransGen.head'_iff.mp hc
  obtain ⟨l, hl⟩ := h.reaches i (List.getElem?_eq_some_iff.mp hp.1).1
  exact Lib.Path.not_cycle (fun _ _ => root_no_parent) (fun _ _ _ => parent_functional) hl hc

/-- A root and its children. -/
theorem rootedTree_star {ids : List Int} {r : Nat} (hone : ids.count (-1) = 1) (hr : rootAt ids r)
    (h : ∀ p ∈ ids, p = -1 ∨ p = r) : RootedTree ids := by
  have hlen : r < ids.length := (List.getElem?_eq_some_iff.mp hr).1
  refine ⟨hone, ?_, ?_⟩
  · intro p hp
    obtain rfl | rfl := h p hp
    · exact .inl rfl
    · exact .inr ⟨Int.natCast_nonneg r, by exact_mod_cast hlen⟩
  · intro i hi
    have hget : ids[i]? = some ids[i] := List.getElem?_eq_getElem hi
    obtain he | he := h ids[i] (List.getElem_mem hi)
    · exact ⟨[i], .root (hget.trans (congrArg some he))⟩
    · exact ⟨[r, i], .child ⟨hget.trans (congrArg some he), hlen⟩ (.root hr)⟩

theorem rootAt_single {i : Nat} (h : i < 1) : rootAt [-1] i := by
  obtain rfl := Nat.lt_one_iff.mp h
  rfl

theorem rootedTree_single : RootedTree [-1] :=
  rootedTree_star rfl (rootAt_single Nat.one_pos) (by decide)

/-- The first transform is the root, and each other one comes after its parent. -/
theorem rootedTree_of_lt {ids : List Int} (hne : ids ≠ [])
    (hroot : ∀ i p, ids[i]? = some p → (p = -1 ↔ i = 0))
    (hparent : ∀ (i : Nat) p, ids[i]? = some p → i ≠ 0 → ∃ q : Nat, p = q ∧ q < i) :
    RootedTree ids := by
  have hlen := List.length_pos_of_ne_nil hne
  have hreaches : ∀ i, i < ids.length → ∃ l, TreePath ids i l := by
    intro i
    induction i using Nat.strong_induction_on with
    | _ i ih =>
      intro hi
      have hget : ids[i]? = some ids[i] := List.getElem?_eq_getElem hi
      by_cases h0 : i = 0
      · have hr : rootAt ids i := hget.trans (congrArg some ((hroot i _ hget).mpr h0))
        exact ⟨[i], .root hr⟩
      · obtain ⟨q, hq, hlt⟩ := hparent i _ hget h0
        have hq' : q < ids.length := Nat.lt_trans hlt hi
        obtain ⟨l, hl⟩ := ih q hlt hq'
        exact ⟨l ++ [i], .child ⟨hget.trans (congrArg some hq), hq'⟩ hl⟩
  refine ⟨?_, ?_, hreaches⟩
  · cases ids with
    | nil => exact absurd rfl hne
    | cons p ids =>
      have hp : p = -1 := (hroot 0 p rfl).mpr rfl
      have hrest : -1 ∉ ids := by
        intro hmem
        obtain ⟨i, hi⟩ := List.mem_iff_getElem?.mp hmem
        exact Nat.succ_ne_zero i ((hroot (i + 1) (-1) hi).mp rfl)
      rw [hp, List.count_cons_self, List.count_eq_zero.mpr hrest]
  · intro p hp
    obtain ⟨i, hi⟩ := List.mem_iff_getElem?.mp hp
    by_cases h0 : i = 0
    · exact .inl ((hroot i p hi).mpr h0)
    · obtain ⟨q, rfl, hlt⟩ := hparent i p hi h0
      have hi' := (List.getElem?_eq_some_iff.mp hi).1
      exact .inr ⟨Int.natCast_nonneg q, by exact_mod_cast Nat.lt_trans hlt hi'⟩

/-- Some parent chain comes back to where it started. -/
def HasCycle (ids : List Int) : Prop := ∃ i, Relation.TransGen (parentAt ids) i i

/-- A rooted tree is a single root, valid ids and no cycle. -/
theorem rootedTree_iff (ids : List Int) :
    RootedTree ids ↔ ids.count (-1) = 1 ∧ ValidIds ids ∧ ¬HasCycle ids := by
  refine ⟨?_, ?_⟩
  · intro h
    exact ⟨h.oneRoot, h.validIds, fun ⟨i, hi⟩ => h.not_cycle i hi⟩
  · rintro ⟨hc, hv, hn⟩
    exact ⟨hc, hv.inRange, fun i hi => hv.reaches (fun k hk => hn ⟨k, hk⟩) hi⟩

/-! ### World matrices -/

def parentIds (ts : List (Transform α)) : List Int := ts.map (·.mParentId)

@[simp] theorem parentIds_length (ts : List (Transform α)) : (parentIds ts).length = ts.length := by
  simp [parentIds]

theorem parentIds_get {ts : List (Transform α)} {i : Nat} {t : Transform α} (h : ts[i]? = some t) :
    (parentIds ts)[i]? = some t.mParentId := by
  simp [parentIds, h]

/-- The product of a list of matrices from the left. -/
def pathProduct : List (Matrix α) → Matrix α
  | [] => Matrix.identity
  | m :: ms => ms.foldl (· * ·) m

theorem pathProduct_append {ms : List (Matrix α)} (h : ms ≠ []) (m : Matrix α) :
    pathProduct (ms ++ [m]) = pathProduct ms * m := by
  cases ms with
  | nil => exact absurd rfl h
  | cons a ms => simp [pathProduct]

/-- The matrices `f` of the transforms on a path, in its order. -/
def along (f : Transform α → Matrix α) (ts : List (Transform α)) (l : List Nat) : List (Matrix α) :=
  l.filterMap fun i => ts[i]?.map f

theorem along_append {f : Transform α → Matrix α} {ts : List (Transform α)} {l : List Nat} {i : Nat}
    {t : Transform α} (h : ts[i]? = some t) : along f ts (l ++ [i]) = along f ts l ++ [f t] := by
  simp [along, h]

theorem along_ne_nil {f : Transform α → Matrix α} {ts : List (Transform α)} {i : Nat} {l : List Nat}
    (h : TreePath (parentIds ts) i l) : along f ts l ≠ [] := by
  have key : ∀ j : Nat, (parentIds ts)[j]? ≠ none → ∃ t, ts[j]? = some t := by
    intro j hj
    cases ht : ts[j]? with
    | none => simp [parentIds, ht] at hj
    | some t => exact ⟨t, rfl⟩
  cases h with
  | root hr =>
    obtain ⟨t, ht⟩ := key i (by rw [hr]; simp)
    simp [along, ht]
  | child hc _ =>
    obtain ⟨t, ht⟩ := key i (by rw [hc.1]; simp)
    rw [along_append ht]
    simp

/-- The product from the root down to the end of a path. -/
def worldAlong (f : Transform α → Matrix α) (ts : List (Transform α)) (l : List Nat) : Matrix α :=
  pathProduct (along f ts l)

theorem worldAlong_root {f : Transform α → Matrix α} {ts : List (Transform α)} {i : Nat}
    {t : Transform α} (h : ts[i]? = some t) : worldAlong f ts [i] = f t := by
  simp [worldAlong, along, h, pathProduct]

theorem worldAlong_child {f : Transform α → Matrix α} {ts : List (Transform α)} {i p : Nat}
    {l : List Nat} {t : Transform α} (h : ts[i]? = some t) (hl : TreePath (parentIds ts) p l) :
    worldAlong f ts (l ++ [i]) = worldAlong f ts l * f t := by
  rw [worldAlong, along_append h, pathProduct_append (along_ne_nil hl), worldAlong]

end Open3DStream
