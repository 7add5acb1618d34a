import Open3DStream.Hierarchy
import Open3DStream.Lib.Lists

namespace Open3DStream.Evaluate

open Lib

variable {α β : Type} [Numeric α β]

/-- What the inner loop wants of a parent id before it looks at the parent. -/
def Checked (ts : List (Transform α)) (id : Nat) (t : Transform α) : Prop :=
  (id : Int) ≠ t.mParentId ∧ 0 ≤ t.mParentId ∧ t.mParentId < ts.length

def resolvedBy (p t : Transform α) : Transform α :=
  { t with mWorldMatrix := p.mWorldMatrix * t.mMatrix, bWorldMatrix := true }

theorem visit_done {ts : List (Transform α)} {id : Nat} {t : Transform α} (ht : ts[id]? = some t)
    (hb : t.bWorldMatrix = true) : visit ts id = .skip := by
  simp [visit, ht, hb]

theorem visit_unchecked {ts : List (Transform α)} {id : Nat} {t : Transform α}
    (ht : ts[id]? = some t) (hb : t.bWorldMatrix = false) (hc : ¬Checked ts id t) :
    ∃ e, visit ts id = .fail e ts := by
  by_cases hs : (id : Int) = t.mParentId
  · refine ⟨"ParentId of " ++ t.mName ++ " points to self (" ++ toString id ++ ")", ?_⟩
    simp only [visit, ht, hb, Bool.false_eq_true, if_false, if_pos hs]
  · have hr : t.mParentId < 0 ∨ (ts.length : Int) ≤ t.mParentId := by
      by_contra hr
      exact hc ⟨hs, by omega, by omega⟩
    refine ⟨"Invalid Parent Id", ?_⟩
    simp only [visit, ht, hb, Bool.false_eq_true, if_false, if_neg hs, dif_pos hr]

theorem checked_parent {ts : List (Transform α)} {id : Nat} {t : Transform α} (hc : Checked ts id t) :
    ∃ (p : Nat) (tp : Transform α), t.mParentId = (p : Int) ∧ ts[p]? = some tp := by
  obtain ⟨-, h0, hn⟩ := hc
  have hp : t.mParentId.toNat < ts.length := by omega
  exact ⟨t.mParentId.toNat, ts[t.mParentId.toNat], by omega, List.getElem?_eq_getElem hp⟩

theorem visit_checked {ts : List (Transform α)} {id p : Nat} {t tp : Transform α}
    (ht : ts[id]? = some t) (hb : t.bWorldMatrix = false) (hc : Checked ts id t)
    (hp : t.mParentId = (p : Int)) (htp : ts[p]? = some tp) :
    visit ts id =
      if tp.bWorldMatrix = false then .skip
      else if (resolvedBy tp t).mWorldMatrix.allFinite = true then
        .resolved (ts.set id (resolvedBy tp t))
      else .fail ("WM Error: " ++ t.mName) (ts.set id (resolvedBy tp t)) := by
  obtain ⟨hs, h0, hn⟩ := hc
  have hr : ¬(t.mParentId < 0 ∨ (ts.length : Int) ≤ t.mParentId) := by omega
  have hget (h : t.mParentId.toNat < ts.length) : ts.get ⟨t.mParentId.toNat, h⟩ = tp := by
    apply Option.some.inj
    rw [← htp, List.get_eq_getElem, ← List.getElem?_eq_getElem h, hp, Int.toNat_natCast]
  simp only [visit, ht, hb, Bool.false_eq_true, if_false, if_neg hs, dif_neg hr, hget]
  cases hw : tp.bWorldMatrix with
  | false => simp
  | true =>
    cases hf : (resolvedBy tp t).mWorldMatrix.allFinite with
    | false =>
      rw [resolvedBy] at hf
      simp [hf, resolvedBy]
    | true =>
      rw [resolvedBy] at hf
      simp [hf, resolvedBy]

/-- The ways a visit goes, with what it finds. -/
inductive Visited (ts : List (Transform α)) (id : Nat) : Visit α → Prop
  | absent : ts[id]? = none → Visited ts id .skip
  | done {t : Transform α} : ts[id]? = some t → t.bWorldMatrix = true → Visited ts id .skip
  | unchecked {t : Transform α} (e : String) : ts[id]? = some t → t.bWorldMatrix = false →
      ¬Checked ts id t → Visited ts id (.fail e ts)
  | waits {p : Nat} {t tp : Transform α} : ts[id]? = some t → t.bWorldMatrix = false →
      Checked ts id t → t.mParentId = (p : Int) → ts[p]? = some tp → tp.bWorldMatrix = false →
      Visited ts id .skip
  | overflows {p : Nat} {t tp : Transform α} (e : String) : ts[id]? = some t →
      t.bWorldMatrix = false → Checked ts id t → t.mParentId = (p : Int) → ts[p]? = some tp →
      tp.bWorldMatrix = true → (resolvedBy tp t).mWorldMatrix.allFinite = false →
      Visited ts id (.fail e (ts.set id (resolvedBy tp t)))
  | resolves {p : Nat} {t tp : Transform α} : ts[id]? = some t → t.bWorldMatrix = false →
      Checked ts id t → t.mParentId = (p : Int) → ts[p]? = some tp → tp.bWorldMatrix = true →
      (resolvedBy tp t).mWorldMatrix.allFinite = true →
      Visited ts id (.resolved (ts.set id (resolvedBy tp t)))

theorem visited (ts : List (Transform α)) (id : Nat) : Visited ts id (visit ts id) := by
  cases ht : ts[id]? with
  | none =>
    rw [visit, ht]
    exact .absent ht
  | some t =>
    cases hb : t.bWorldMatrix with
    | true =>
      rw [visit_done ht hb]
      exact .done ht hb
    | false =>
      by_cases hc : Checked ts id t
      · obtain ⟨p, tp, hp, htp⟩ := checked_parent hc
        rw [visit_checked ht hb hc hp htp]
        split
        · exact .waits ht hb hc hp htp ‹_›
        · rename_i hw
          have hw' : tp.bWorldMatrix = true := by simpa using hw
          split
          · exact .resolves ht hb hc hp htp hw' ‹_›
          · rename_i hf
            exact .overflows _ ht hb hc hp htp hw' (by simpa using hf)
      · obtain ⟨e, he⟩ := visit_unchecked ht hb hc
        rw [he]
        exact .unchecked e ht hb hc

/-- A visit skips a resolved transform or one whose parent is not resolved. -/
theorem visit_skip {ts : List (Transform α)} {id : Nat} {t : Transform α} (ht : ts[id]? = some t)
    (h : visit ts id = .skip) : t.bWorldMatrix = true ∨
      (Checked ts id t ∧ ∀ (p : Nat) (tp : Transform α), t.mParentId = (p : Int) → ts[p]? = some tp →
        tp.bWorldMatrix = false) := by
  have hv := visited ts id
  rw [h] at hv
  cases hv with
  | absent hnone =>
    rw [ht] at hnone
    cases hnone
  | done ht' hb =>
    cases ht.symm.trans ht'
    exact .inl hb
  | waits ht' _ hc hp htp hw =>
    cases ht.symm.trans ht'
    refine .inr ⟨hc, ?_⟩
    intro q tq hq htq
    obtain rfl := Int.ofNat.inj (hp.symm.trans hq)
    cases htp.symm.trans htq
    exact hw

theorem visit_resolved {ts ts' : List (Transform α)} {id : Nat} (h : visit ts id = .resolved ts') :
    ∃ (t : Transform α) (p : Nat) (tp : Transform α), ts[id]? = some t ∧ t.bWorldMatrix = false ∧ Checked ts id t ∧
      t.mParentId = (p : Int) ∧ ts[p]? = some tp ∧ tp.bWorldMatrix = true ∧
      (resolvedBy tp t).mWorldMatrix.allFinite = true ∧ ts' = ts.set id (resolvedBy tp t) := by
  have hv := visited ts id
  rw [h] at hv
  cases hv with
  | resolves ht hb hc hp htp hw hf => exact ⟨_, _, _, ht, hb, hc, hp, htp, hw, hf, rfl⟩

theorem visit_fail {ts ts' : List (Transform α)} {id : Nat} {e : String}
    (h : visit ts id = .fail e ts') :
    ∃ t, ts[id]? = some t ∧ t.bWorldMatrix = false ∧
      ((¬Checked ts id t ∧ ts' = ts) ∨ ∃ (p : Nat) (tp : Transform α), Checked ts id t ∧
        t.mParentId = (p : Int) ∧ ts[p]? = some tp ∧ tp.bWorldMatrix = true ∧
        (resolvedBy tp t).mWorldMatrix.allFinite = false ∧ ts' = ts.set id (resolvedBy tp t)) := by
  have hv := visited ts id
  rw [h] at hv
  cases hv with
  | unchecked _ ht hb hc => exact ⟨_, ht, hb, .inl ⟨hc, rfl⟩⟩
  | overflows _ ht hb hc hp htp hw hf => exact ⟨_, ht, hb, .inr ⟨_, _, hc, hp, htp, hw, hf, rfl⟩⟩

/-- What holds of the transforms between two visits, where `base` is the list in
which only the roots have a world matrix. -/
structure Resolving (base ts : List (Transform α)) : Prop where
  length : ts.length = base.length
  frame : ∀ (i : Nat) t b, ts[i]? = some t → base[i]? = some b →
    t = { b with mWorldMatrix := t.mWorldMatrix, bWorldMatrix := t.bWorldMatrix }
  roots : ∀ (i : Nat) t, ts[i]? = some t → t.mParentId = -1 → t.bWorldMatrix = true
  sound : ∀ (i : Nat) t, ts[i]? = some t → t.bWorldMatrix = true →
    ∃ l, TreePath (parentIds base) i l ∧ t.mWorldMatrix = worldAlong (·.mMatrix) base l ∧
      (t.mParentId = -1 ∨ t.mWorldMatrix.allFinite = true)
  kept : ∀ (i : Nat) t b, ts[i]? = some t → base[i]? = some b → t.bWorldMatrix = false →
    t.mWorldMatrix = b.mWorldMatrix

namespace Resolving

variable {base ts : List (Transform α)}

theorem get_base (h : Resolving base ts) {i : Nat} {t : Transform α} (ht : ts[i]? = some t) :
    ∃ b, base[i]? = some b ∧
      t = { b with mWorldMatrix := t.mWorldMatrix, bWorldMatrix := t.bWorldMatrix } := by
  have hi : i < base.length := by
    rw [← h.length]
    exact (List.getElem?_eq_some_iff.mp ht).1
  have hb : base[i]? = some base[i] := List.getElem?_eq_getElem hi
  exact ⟨base[i], hb, h.frame i t _ ht hb⟩

theorem get (h : Resolving base ts) {i : Nat} {b : Transform α} (hb : base[i]? = some b) :
    ∃ t, ts[i]? = some t ∧
      t = { b with mWorldMatrix := t.mWorldMatrix, bWorldMatrix := t.bWorldMatrix } := by
  have hi : i < ts.length := by
    rw [h.length]
    exact (List.getElem?_eq_some_iff.mp hb).1
  have ht : ts[i]? = some ts[i] := List.getElem?_eq_getElem hi
  exact ⟨ts[i], ht, h.frame i _ b ht hb⟩

theorem parentId (h : Resolving base ts) {i : Nat} {t : Transform α} (ht : ts[i]? = some t) :
    (parentIds base)[i]? = some t.mParentId := by
  obtain ⟨b, hb, he⟩ := h.get_base ht
  rw [parentIds_get hb, he]

theorem get_of_id (h : Resolving base ts) {i : Nat} {q : Int} (hq : (parentIds base)[i]? = some q) :
    ∃ t, ts[i]? = some t ∧ t.mParentId = q := by
  have hi : i < base.length := by
    have := (List.getElem?_eq_some_iff.mp hq).1
    simpa using this
  obtain ⟨t, ht, -⟩ := h.get (List.getElem?_eq_getElem hi)
  exact ⟨t, ht, Option.some.inj ((h.parentId ht).symm.trans hq)⟩

theorem validId_iff (h : Resolving base ts) {i : Nat} {t : Transform α} (ht : ts[i]? = some t)
    (hb : t.bWorldMatrix = false) : Checked ts i t ↔ ValidId (parentIds base) i t.mParentId := by
  have hr : t.mParentId ≠ -1 := by
    intro hr
    rw [h.roots i t ht hr] at hb
    cases hb
  simp only [Checked, ValidId]
  rw [parentIds_length, h.length]
  refine ⟨?_, ?_⟩
  · rintro ⟨hs, h0, hn⟩
    exact .inr ⟨h0, hn, Ne.symm hs⟩
  · rintro (hm | ⟨h0, hn, hs⟩)
    · exact absurd hm hr
    · exact ⟨Ne.symm hs, h0, hn⟩

/-- Where a visit finds nothing wrong with the parent id, it is valid. -/
theorem validId (h : Resolving base ts) {i : Nat} {t : Transform α} (ht : ts[i]? = some t)
    (hc : t.bWorldMatrix = true ∨ Checked ts i t) :
    ValidId (parentIds base) i t.mParentId := by
  cases hb : t.bWorldMatrix with
  | true =>
    obtain ⟨l, hl, -⟩ := h.sound i t ht hb
    exact hl.validId (h.parentId ht)
  | false => exact (h.validId_iff ht hb).mp (hc.resolve_left (by simp [hb]))

theorem parentAt_of (h : Resolving base ts) {i p : Nat} {t tp : Transform α}
    (ht : ts[i]? = some t) (hp : t.mParentId = (p : Int)) (htp : ts[p]? = some tp) :
    parentAt (parentIds base) i p := by
  refine ⟨by rw [h.parentId ht, hp], ?_⟩
  rw [parentIds_length, ← h.length]
  exact (List.getElem?_eq_some_iff.mp htp).1

/-- The world matrix computed from a resolved parent is the product along the path. -/
theorem world_of_parent (h : Resolving base ts) {i p : Nat} {t tp : Transform α}
    (ht : ts[i]? = some t) (hp : t.mParentId = (p : Int)) (htp : ts[p]? = some tp)
    (hw : tp.bWorldMatrix = true) :
    ∃ l, TreePath (parentIds base) i l ∧
      (resolvedBy tp t).mWorldMatrix = worldAlong (·.mMatrix) base l := by
  obtain ⟨l, hl, hwl, -⟩ := h.sound p tp htp hw
  obtain ⟨b, hb, he⟩ := h.get_base ht
  refine ⟨l ++ [i], .child (h.parentAt_of ht hp htp) hl, ?_⟩
  rw [worldAlong_child hb hl, ← hwl, resolvedBy, he]

theorem step (h : Resolving base ts) {id : Nat} {ts' : List (Transform α)}
    (hv : visit ts id = .resolved ts') : Resolving base ts' := by
  obtain ⟨t, p, tp, ht, hb, hc, hp, htp, hw, hf, rfl⟩ := visit_resolved hv
  -- the entry at `id` is the new one, every other entry is the old one
  refine ⟨?_, ?_, ?_, ?_, ?_⟩
  · rw [List.length_set, h.length]
  · intro i u b hu hbase
    obtain ⟨rfl, rfl⟩ | ⟨-, hu⟩ := getElem?_set_cases hu
    · have he := h.frame i t b ht hbase
      rw [resolvedBy, he]
    · exact h.frame i u b hu hbase
  · intro i u hu hr
    obtain ⟨rfl, rfl⟩ | ⟨-, hu⟩ := getElem?_set_cases hu
    · rfl
    · exact h.roots i u hu hr
  · intro i u hu hub
    obtain ⟨rfl, rfl⟩ | ⟨-, hu⟩ := getElem?_set_cases hu
    · obtain ⟨l, hl, hwl⟩ := h.world_of_parent ht hp htp hw
      exact ⟨l, hl, hwl, .inr hf⟩
    · exact h.sound i u hu hub
  · intro i u b hu hbase hub
    obtain ⟨rfl, rfl⟩ | ⟨-, hu⟩ := getElem?_set_cases hu
    · cases hub
    · exact h.kept i u b hu hbase hub

end Resolving

end Open3DStream.Evaluate
