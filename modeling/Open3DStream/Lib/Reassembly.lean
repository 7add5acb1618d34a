import Mathlib.Data.Finset.Card
import Mathlib.Data.Finset.Range
import Mathlib.Order.Defs.LinearOrder
import Open3DStream.Lib.Lists

/-! Messages put together from numbered parts, the newer ones outdating the older. -/

namespace Open3DStream.Lib.Reassembly

variable {ι κ : Type} [LinearOrder κ]

/-! ### What a receiver may know -/

/-- Part `i` of `k` has been delivered, and no message with as great a key given out since. -/
def Outstanding (key : ι → κ) (xs : List (ι × ℕ)) (os : List (Option ι)) (k : ι) (i : ℕ) : Prop :=
  ∃ n : ℕ, xs[n]? = some (k, i) ∧ ∀ m, n ≤ m → ∀ j, os[m]? = some (some j) → key j < key k

theorem outstanding_append_iff {key : ι → κ} {xs : List (ι × ℕ)} {os : List (Option ι)}
    (h : os.length = xs.length) {x : ι × ℕ} {o : Option ι} {k : ι} {i : ℕ} :
    Outstanding key (xs ++ [x]) (os ++ [o]) k i ↔
      (∀ j, o = some j → key j < key k) ∧ (Outstanding key xs os k i ∨ x = (k, i)) := by
  simp only [Outstanding, getElem?_concat_iff]
  refine ⟨?_, ?_⟩
  · rintro ⟨n, hn, hout⟩
    have hle : n ≤ os.length := by
      obtain hn | ⟨rfl, -⟩ := hn
      · obtain ⟨hlt, -⟩ := List.getElem?_eq_some_iff.mp hn
        omega
      · omega
    refine ⟨fun j hj => hout _ hle j (.inr ⟨rfl, hj⟩), hn.imp (fun hn => ?_) And.right⟩
    exact ⟨n, hn, fun m hm j hj => hout m hm j (.inl hj)⟩
  · rintro ⟨ho, ⟨n, hn, hout⟩ | rfl⟩
    · exact ⟨n, .inl hn, fun m hm j hj => hj.elim (hout m hm j) fun hj => ho j hj.2⟩
    · refine ⟨xs.length, .inr ⟨rfl, rfl⟩, fun m hm j hj => hj.elim (fun hj => ?_) fun hj => ho j hj.2⟩
      obtain ⟨hlt, -⟩ := List.getElem?_eq_some_iff.mp hj
      omega

/-! ### The receiver -/

variable [DecidableEq ι]

/-- The parts at hand of each message. -/
abbrev Pending (ι : Type) := ι → Finset ℕ

/-- A message is given out with its last missing part, and all that is at hand of messages
with no greater key is dropped. -/
def deliver (key : ι → κ) (parts : ι → ℕ) (p : Pending ι) (x : ι × ℕ) : Option ι × Pending ι :=
  if insert x.2 (p x.1) = Finset.range (parts x.1) then
    (some x.1, fun k => if key k ≤ key x.1 then ∅ else p k)
  else (none, Function.update p x.1 (insert x.2 (p x.1)))

variable {key : ι → κ} {parts : ι → ℕ}

/-- What is at hand of the message that is given out does not matter. -/
theorem dropped_update {p : Pending ι} {k : ι} {s : Finset ℕ} :
    (fun j => if key j ≤ key k then ∅ else Function.update p k s j) =
      fun j => if key j ≤ key k then ∅ else p j := by
  funext j
  split
  · rfl
  · have hj : j ≠ k := by
      rintro rfl
      exact absurd (le_refl _) ‹_›
    rw [Function.update_of_ne hj]

theorem deliver_eq_some_iff {p : Pending ι} {x : ι × ℕ} {k : ι} :
    (deliver key parts p x).1 = some k ↔
      x.1 = k ∧ insert x.2 (p k) = Finset.range (parts k) := by
  rw [deliver]
  split
  · simp only [Option.some.injEq]
    refine ⟨fun h => ⟨h, h ▸ ‹_›⟩, fun h => h.1⟩
  · simp only [reduceCtorEq, false_iff]
    rintro ⟨rfl, h⟩
    exact absurd h ‹_›

/-- What is at hand afterwards was at hand or is delivered, and is not outdated. -/
theorem mem_deliver_iff {p : Pending ι} {x : ι × ℕ} {k : ι} {i : ℕ} :
    i ∈ (deliver key parts p x).2 k ↔
      (∀ j, (deliver key parts p x).1 = some j → key j < key k) ∧ (i ∈ p k ∨ x = (k, i)) := by
  obtain ⟨m, s⟩ := x
  rw [deliver]
  split
  · simp only [Option.some.injEq, forall_eq']
    by_cases hle : key k ≤ key m
    · simp [hle, not_lt.mpr hle]
    · have hne : m ≠ k := fun h => hle (h ▸ le_refl _)
      simp [hle, not_le.mp hle, hne]
  · by_cases hk : k = m
    · subst hk
      simp [or_comm, eq_comm]
    · simp [hk, Ne.symm hk]

/-- No message that is complete is kept back. -/
theorem deliver_ssubset {p : Pending ι} (hp : ∀ k, p k ⊂ Finset.range (parts k)) {x : ι × ℕ}
    (hx : x.2 < parts x.1) (k : ι) :
    (deliver key parts p x).2 k ⊂ Finset.range (parts k) := by
  rw [deliver]
  split <;> dsimp only
  · split
    · exact lt_of_le_of_lt (Finset.empty_subset _) (hp k)
    · exact hp k
  · by_cases hk : k = x.1
    · subst hk
      rw [Function.update_self]
      apply lt_of_le_of_ne _ ‹_›
      exact Finset.insert_subset (Finset.mem_range.mpr hx) (hp x.1).1
    · rw [Function.update_of_ne hk]
      exact hp k

/-! ### Histories -/

/-- Parts that are delivered one after the other, the messages given out for them, and what is
at hand in the end. -/
inductive History (key : ι → κ) (parts : ι → ℕ) :
    List (ι × ℕ) → List (Option ι) → Pending ι → Prop
  | nil : History key parts [] [] fun _ => ∅
  | deliver {xs : List (ι × ℕ)} {os : List (Option ι)} {p : Pending ι} (x : ι × ℕ) :
    History key parts xs os p →
      History key parts (xs ++ [x]) (os ++ [(deliver key parts p x).1]) (deliver key parts p x).2

namespace History

variable {xs : List (ι × ℕ)} {os : List (Option ι)} {p : Pending ι}

theorem length_eq (h : History key parts xs os p) : os.length = xs.length := by
  induction h with
  | nil => rfl
  | deliver x _ ih => rw [List.length_append, List.length_append, ih]; rfl

/-- At hand is what is outstanding. -/
theorem mem_iff (h : History key parts xs os p) {k : ι} {i : ℕ} :
    i ∈ p k ↔ Outstanding key xs os k i := by
  induction h with
  | nil => exact iff_of_false (Finset.notMem_empty i) fun ⟨_, hn, _⟩ => nomatch hn
  | deliver x h ih => rw [mem_deliver_iff, outstanding_append_iff h.length_eq, ih]

theorem ssubset (h : History key parts xs os p) (hparts : ∀ k, 0 < parts k)
    (hx : ∀ x ∈ xs, x.2 < parts x.1) : ∀ k, p k ⊂ Finset.range (parts k) := by
  induction h with
  | nil => exact fun k => Finset.empty_ssubset.mpr (Finset.nonempty_range_iff.mpr (hparts k).ne')
  | deliver x h ih =>
    exact deliver_ssubset (ih fun y hy => hx y (List.mem_append_left _ hy))
      (hx x (List.mem_append_right _ (List.mem_singleton.mpr rfl)))

/-- The history up to one of the deliveries. -/
theorem take (h : History key parts xs os p) {b : ℕ} (hb : b < xs.length) :
    ∃ q x, History key parts (xs.take b) (os.take b) q ∧ xs[b]? = some x ∧
      os[b]? = some (Reassembly.deliver key parts q x).1 := by
  induction h with
  | nil => exact absurd hb (Nat.not_lt_zero b)
  | @deliver xs os p x h ih =>
    have hlen := h.length_eq
    rw [List.length_append, List.length_singleton, Nat.lt_succ_iff] at hb
    rw [List.take_append_of_le_length hb, List.take_append_of_le_length (hlen ▸ hb)]
    obtain hlt | rfl := Nat.lt_or_eq_of_le hb
    · obtain ⟨q, y, hq, hy, ho⟩ := ih hlt
      exact ⟨q, y, hq, getElem?_concat_iff.mpr (.inl hy), getElem?_concat_iff.mpr (.inl ho)⟩
    · rw [List.take_length, ← hlen, List.take_length]
      exact ⟨p, x, h, getElem?_concat_iff.mpr (.inr ⟨hlen, rfl⟩),
        getElem?_concat_iff.mpr (.inr ⟨rfl, rfl⟩)⟩

/-- A message all of whose parts are delivered while nothing outdates it is given out with the
last of them. -/
theorem complete (h : History key parts xs os p) (hparts : ∀ k, 0 < parts k)
    (hx : ∀ x ∈ xs, x.2 < parts x.1) {k : ι} {a b : ℕ} (hb : b < xs.length)
    (hall : ∀ i < parts k, ∃ n, a ≤ n ∧ n ≤ b ∧ xs[n]? = some (k, i))
    (hout : ∀ n, a ≤ n → n < b → ∀ j, os[n]? = some (some j) → key j < key k) :
    os[b]? = some (some k) := by
  obtain ⟨q, x, hq, hxb, ho⟩ := h.take hb
  have hproper := hq.ssubset hparts (fun y hy => hx y (List.mem_of_mem_take hy)) k
  have hcases : ∀ i < parts k, i ∈ q k ∨ x = (k, i) := by
    intro i hi
    obtain ⟨n, han, hnb, hn⟩ := hall i hi
    obtain hlt | rfl := Nat.lt_or_eq_of_le hnb
    · refine .inl (hq.mem_iff.mpr ⟨n, ?_, fun m hm j hj => ?_⟩)
      · rwa [List.getElem?_take, if_pos hlt]
      · rw [List.getElem?_take] at hj
        split at hj
        · exact hout m (han.trans hm) ‹_› j hj
        · cases hj
    · exact .inr (Option.some.inj (hxb.symm.trans hn))
  -- the part that is still missing before is the one that comes now
  obtain ⟨i, hi, hmissing⟩ := Finset.exists_of_ssubset hproper
  have hi := Finset.mem_range.mp hi
  have heq := (hcases i hi).resolve_left hmissing
  subst heq
  rw [ho, Option.some.injEq, deliver_eq_some_iff]
  refine ⟨rfl, Finset.Subset.antisymm ?_ fun j hj => ?_⟩
  · exact Finset.insert_subset (Finset.mem_range.mpr hi) hproper.1
  · obtain hj | hj := hcases j (Finset.mem_range.mp hj)
    · exact Finset.mem_insert_of_mem hj
    · exact Finset.mem_insert.mpr (.inl (Prod.mk.inj hj).2.symm)

/-- A message is given out once all of its parts are delivered, again if one with as great a key
was given out before. -/
theorem not_early (h : History key parts xs os p) {k : ι} {b : ℕ} (hb : os[b]? = some (some k))
    {a : ℕ} (hab : a ≤ b)
    (ha : a = 0 ∨ ∃ j, os[a - 1]? = some (some j) ∧ key k ≤ key j) :
    ∀ i < parts k, ∃ n, a ≤ n ∧ n ≤ b ∧ xs[n]? = some (k, i) := by
  intro i hi
  obtain ⟨hlt, -⟩ := List.getElem?_eq_some_iff.mp hb
  obtain ⟨q, x, hq, hxb, ho⟩ := h.take (h.length_eq ▸ hlt)
  rw [hb, Option.some.injEq, eq_comm, deliver_eq_some_iff] at ho
  obtain ⟨rfl, hfull⟩ := ho
  have hmem : i ∈ insert x.2 (q x.1) := hfull ▸ Finset.mem_range.mpr hi
  obtain rfl | hmem := Finset.mem_insert.mp hmem
  · exact ⟨b, hab, le_refl b, hxb⟩
  · obtain ⟨n, hn, hout⟩ := hq.mem_iff.mp hmem
    rw [List.getElem?_take] at hn
    split at hn
    · refine ⟨n, ?_, le_of_lt ‹_›, hn⟩
      by_contra hna
      obtain rfl | ⟨j, hj, hle⟩ := ha
      · omega
      · have hlast : (os.take b)[a - 1]? = some (some j) := by
          rw [List.getElem?_take, if_pos (by omega), hj]
        exact absurd (hout (a - 1) (by omega) j hlast) (not_lt.mpr hle)
    · cases hn

end History

/-! ### One message alone -/

/-- How often the parts have all arrived, when they are gathered anew each time. -/
def rounds (parts : ℕ) : Finset ℕ → List ℕ → ℕ
  | _, [] => 0
  | S, i :: arrivals =>
    if i < parts then
      if insert i S = Finset.range parts then rounds parts ∅ arrivals + 1
      else rounds parts (insert i S) arrivals
    else rounds parts S arrivals

theorem rounds_pos_iff {parts : ℕ} {S : Finset ℕ} (hS : S ⊂ Finset.range parts) (arrivals : List ℕ) :
    0 < rounds parts S arrivals ↔ ∀ i < parts, i ∈ S ∨ i ∈ arrivals := by
  induction arrivals generalizing S with
  | nil =>
    refine iff_of_false (Nat.lt_irrefl 0) ?_
    intro hall
    apply hS.2
    intro i hi
    exact (hall i (Finset.mem_range.mp hi)).resolve_right List.not_mem_nil
  | cons a arrivals ih =>
    rw [rounds]
    by_cases ha : a < parts
    · rw [if_pos ha]
      by_cases hfull : insert a S = Finset.range parts
      · rw [if_pos hfull]
        refine iff_of_true (Nat.succ_pos _) ?_
        intro i hi
        have hmem : i ∈ insert a S := hfull ▸ Finset.mem_range.mpr hi
        obtain rfl | hmem := Finset.mem_insert.mp hmem
        · exact .inr List.mem_cons_self
        · exact .inl hmem
      · have hsub : insert a S ⊆ Finset.range parts :=
          Finset.insert_subset (Finset.mem_range.mpr ha) hS.1
        rw [if_neg hfull, ih (hsub.ssubset_of_ne hfull)]
        refine forall₂_congr fun i _ => ?_
        rw [Finset.mem_insert, List.mem_cons]
        tauto
    · rw [if_neg ha, ih hS]
      refine forall₂_congr fun i hi => ?_
      have hne : i ≠ a := by
        rintro rfl
        exact ha hi
      rw [List.mem_cons, or_iff_right hne]

end Open3DStream.Lib.Reassembly
