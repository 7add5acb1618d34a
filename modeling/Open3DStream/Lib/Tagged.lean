import Mathlib.Data.List.Induction
import Mathlib.Data.List.Nodup

/-! Lists of elements of several types that are searched by a key. The search stops at the
first element with the key, whatever its type. -/

namespace Open3DStream.Lib

variable {ι κ τ : Type}

section separated

variable (tag : ι → τ) (key : ι → κ)

/-- The type and the key of an element. -/
def ident (x : ι) : τ × κ := (tag x, key x)

/-- Elements with one key are of one type. -/
def Separated (xs : List ι) : Prop := ∀ a ∈ xs, ∀ b ∈ xs, key a = key b → tag a = tag b

instance instDecidableSeparated [DecidableEq κ] [DecidableEq τ] (xs : List ι) :
    Decidable (Separated tag key xs) :=
  inferInstanceAs (Decidable (∀ a ∈ xs, ∀ b ∈ xs, key a = key b → tag a = tag b))

variable {tag key}

theorem separated_congr {xs ys : List ι}
    (h : ∀ e, e ∈ xs.map (ident tag key) ↔ e ∈ ys.map (ident tag key)) :
    Separated tag key xs ↔ Separated tag key ys := by
  have transfer (us vs : List ι) (hv : ∀ e, e ∈ vs.map (ident tag key) → e ∈ us.map (ident tag key))
      (hs : Separated tag key us) : Separated tag key vs := by
    intro a ha b hb hk
    obtain ⟨a', ha', hea⟩ := List.mem_map.mp (hv _ (List.mem_map_of_mem ha))
    obtain ⟨b', hb', heb⟩ := List.mem_map.mp (hv _ (List.mem_map_of_mem hb))
    obtain ⟨hta, hka⟩ := Prod.ext_iff.mp hea
    obtain ⟨htb, hkb⟩ := Prod.ext_iff.mp heb
    exact hta.symm.trans ((hs a' ha' b' hb' (hka.trans (hk.trans hkb.symm))).trans htb)
  exact ⟨transfer xs ys fun e => (h e).mpr, transfer ys xs fun e => (h e).mp⟩

theorem separated_of_subset {xs ys : List ι} (h : ∀ x, x ∈ ys → x ∈ xs)
    (hs : Separated tag key xs) : Separated tag key ys :=
  fun a ha b hb => hs a (h a ha) b (h b hb)

theorem nodup_keys {xs : List ι} (hs : Separated tag key xs) (hn : (xs.map (ident tag key)).Nodup) :
    (xs.map key).Nodup := by
  have hkeys : xs.map key = (xs.map (ident tag key)).map Prod.snd := by
    rw [List.map_map]
    rfl
  rw [hkeys]
  refine hn.map_on ?_
  intro e he e' he' hk
  obtain ⟨x, hx, rfl⟩ := List.mem_map.mp he
  obtain ⟨y, hy, rfl⟩ := List.mem_map.mp he'
  exact Prod.ext (hs x hx y hy hk) hk

end separated

variable [DecidableEq κ] [DecidableEq τ]

section search

variable (tag : ι → τ) (key : ι → κ)

def findTagged (T : τ) (k : κ) : List ι → Option Nat
  | [] => none
  | x :: xs =>
    if key x = k then (if tag x = T then some 0 else none)
    else (findTagged T k xs).map (· + 1)

variable {tag key}

theorem findTagged_get {T : τ} {k : κ} {xs : List ι} {i : Nat}
    (h : findTagged tag key T k xs = some i) : ∃ x, xs[i]? = some x ∧ tag x = T ∧ key x = k := by
  induction xs generalizing i with
  | nil => cases h
  | cons x xs ih =>
    rw [findTagged] at h
    split at h
    · split at h
      · cases h
        exact ⟨x, rfl, ‹_›, ‹_›⟩
      · cases h
    · obtain ⟨j, hj, rfl⟩ := Option.map_eq_some_iff.mp h
      exact ih hj

/-- The search succeeds when the first element with the key is of the type. -/
theorem findTagged_isSome_iff (T : τ) (k : κ) (xs : List ι) :
    (findTagged tag key T k xs).isSome ↔
      (xs.find? fun x => decide (key x = k)).map tag = some T := by
  induction xs with
  | nil => simp [findTagged]
  | cons x xs ih =>
    rw [findTagged]
    by_cases hk : key x = k
    · by_cases hT : tag x = T <;> simp [hk, hT]
    · simp [hk, ih]

/-- Every element is found under its type and key exactly when no key is shared. -/
theorem separated_iff (xs : List ι) : Separated tag key xs ↔
    ∀ T k, (∃ x ∈ xs, tag x = T ∧ key x = k) → (findTagged tag key T k xs).isSome := by
  refine ⟨?_, ?_⟩
  · rintro h T k ⟨x, hx, hT, hk⟩
    rw [findTagged_isSome_iff]
    cases hf : xs.find? fun x => decide (key x = k) with
    | none => simpa [hk] using List.find?_eq_none.mp hf x hx
    | some y =>
      have hy : key y = k := by simpa using List.find?_some hf
      have := h y (List.mem_of_find?_eq_some hf) x hx (hy.trans hk.symm)
      rw [Option.map_some, this, hT]
  · intro h a ha b hb hk
    have hfa := (findTagged_isSome_iff _ _ xs).mp (h (tag a) (key a) ⟨a, ha, rfl, rfl⟩)
    have hfb := (findTagged_isSome_iff _ _ xs).mp (h (tag b) (key b) ⟨b, hb, rfl, rfl⟩)
    rw [← hk] at hfb
    exact Option.some.inj (hfa.symm.trans hfb)

/-- Without repetitions the search leads to the element itself. -/
theorem findTagged_self {xs : List ι} (h : Separated tag key xs)
    (hn : (xs.map (ident tag key)).Nodup) {i : Nat} {x : ι} (hx : xs[i]? = some x) :
    findTagged tag key (tag x) (key x) xs = some i := by
  have hs := (separated_iff xs).mp h (tag x) (key x) ⟨x, List.mem_of_getElem? hx, rfl, rfl⟩
  obtain ⟨j, hj⟩ := Option.isSome_iff_exists.mp hs
  obtain ⟨y, hy, hT, hk⟩ := findTagged_get hj
  have hget (n : Nat) (z : ι) (hz : xs[n]? = some z) :
      (xs.map (ident tag key))[n]? = some (ident tag key z) := by
    rw [List.getElem?_map, hz, Option.map_some]
  have heq : ident tag key y = ident tag key x := Prod.ext hT hk
  have hlt := (List.getElem?_eq_some_iff.mp (hget j y hy)).1
  have hji : j = i :=
    (List.getElem?_inj hlt hn).mp ((hget j y hy).trans (heq ▸ (hget i x hx).symm))
  rw [hj, hji]

end search

/-! ### Registering -/

section register

variable (tag : ι → τ) (key : ι → κ)

/-- Put an element in the place of the first one with its key if that is of its type. -/
def replaceTagged (d : ι) : List ι → List ι
  | [] => []
  | x :: xs =>
    if key x = key d then (if tag x = tag d then d else x) :: xs else x :: replaceTagged d xs

/-- Replace the element that is found under a type and a key, or add one. -/
def register (xs : List ι) (d : ι) : List ι :=
  if (findTagged tag key (tag d) (key d) xs).isSome then replaceTagged tag key d xs else xs ++ [d]

/-- The last element of each type and key. -/
def latest : List ι → List ι
  | [] => []
  | x :: xs => if ident tag key x ∈ xs.map (ident tag key) then latest xs else x :: latest xs

variable {tag key}

theorem replaceTagged_ident (d : ι) (xs : List ι) :
    (replaceTagged tag key d xs).map (ident tag key) = xs.map (ident tag key) := by
  induction xs with
  | nil => rfl
  | cons x xs ih =>
    rw [replaceTagged]
    split
    · split
      · rw [List.map_cons, List.map_cons]
        congr 1
        exact Prod.ext (Eq.symm ‹_›) (Eq.symm ‹_›)
      · rfl
    · rw [List.map_cons, List.map_cons, ih]

theorem mem_of_findTagged {d : ι} {xs : List ι}
    (h : (findTagged tag key (tag d) (key d) xs).isSome) :
    ident tag key d ∈ xs.map (ident tag key) := by
  obtain ⟨i, hi⟩ := Option.isSome_iff_exists.mp h
  obtain ⟨x, hx, hT, hk⟩ := findTagged_get hi
  exact List.mem_map.mpr ⟨x, List.mem_of_getElem? hx, Prod.ext hT hk⟩

/-- Registering adds the type and key of the element and loses none. -/
theorem mem_register_ident (xs : List ι) (d : ι) (e : τ × κ) :
    e ∈ (register tag key xs d).map (ident tag key) ↔ e ∈ (xs ++ [d]).map (ident tag key) := by
  rw [register, List.map_append, List.mem_append]
  split
  · rw [replaceTagged_ident]
    refine ⟨.inl, ?_⟩
    rintro (he | he)
    · exact he
    · rw [List.map_singleton, List.mem_singleton] at he
      exact he ▸ mem_of_findTagged ‹_›
  · rw [List.map_append, List.mem_append]

theorem mem_registered_ident (xs ds : List ι) (e : τ × κ) :
    e ∈ (ds.foldl (register tag key) xs).map (ident tag key) ↔
      e ∈ (xs ++ ds).map (ident tag key) := by
  induction ds generalizing xs with
  | nil => rw [List.foldl_nil, List.append_nil]
  | cons d ds ih =>
    rw [List.foldl_cons, ih, List.map_append, List.mem_append, mem_register_ident,
      ← List.mem_append, ← List.map_append, List.append_assoc, List.singleton_append]

theorem mem_replaceTagged {d : ι} {xs : List ι}
    (h : (findTagged tag key (tag d) (key d) xs).isSome) (hn : (xs.map (ident tag key)).Nodup)
    (x : ι) : x ∈ replaceTagged tag key d xs ↔
      (x ∈ xs ∧ ident tag key x ≠ ident tag key d) ∨ x = d := by
  induction xs with
  | nil => cases h
  | cons y xs ih =>
    rw [List.map_cons, List.nodup_cons] at hn
    rw [findTagged] at h
    rw [replaceTagged, List.mem_cons]
    by_cases hk : key y = key d
    · rw [if_pos hk] at h ⊢
      by_cases hT : tag y = tag d
      · have hy : ident tag key y = ident tag key d := Prod.ext hT hk
        have hrest (hx : x ∈ xs) : ident tag key x ≠ ident tag key d :=
          fun he => hn.1 (hy ▸ he ▸ List.mem_map_of_mem hx)
        rw [if_pos hT, List.mem_cons]
        refine ⟨?_, ?_⟩
        · rintro (rfl | hx)
          · exact .inr rfl
          · exact .inl ⟨.inr hx, hrest hx⟩
        · rintro (⟨rfl | hx, he⟩ | rfl)
          · exact absurd hy he
          · exact .inr hx
          · exact .inl rfl
      · rw [if_neg hT] at h
        cases h
    · rw [if_neg hk, Option.isSome_map] at h
      have hy : ident tag key y ≠ ident tag key d := fun he => hk (congrArg Prod.snd he)
      rw [if_neg hk, List.mem_cons, ih h hn.2]
      refine ⟨?_, ?_⟩
      · rintro (rfl | ⟨hx, he⟩ | rfl)
        · exact .inl ⟨.inl rfl, hy⟩
        · exact .inl ⟨.inr hx, he⟩
        · exact .inr rfl
      · rintro (⟨rfl | hx, he⟩ | rfl)
        · exact .inl rfl
        · exact .inr (.inl ⟨hx, he⟩)
        · exact .inr (.inr rfl)

theorem mem_latest_concat (xs : List ι) (d x : ι) :
    x ∈ latest tag key (xs ++ [d]) ↔
      (x ∈ latest tag key xs ∧ ident tag key x ≠ ident tag key d) ∨ x = d := by
  induction xs with
  | nil => simp [latest]
  | cons y xs ih =>
    have hmem : ident tag key y ∈ (xs ++ [d]).map (ident tag key) ↔
        ident tag key y ∈ xs.map (ident tag key) ∨ ident tag key y = ident tag key d := by
      rw [List.map_append, List.map_singleton, List.mem_append, List.mem_singleton]
    rw [List.cons_append, latest, latest]
    by_cases hy : ident tag key y ∈ xs.map (ident tag key)
    · rw [if_pos (hmem.mpr (.inl hy)), if_pos hy, ih]
    · by_cases hd : ident tag key y = ident tag key d
      · rw [if_pos (hmem.mpr (.inr hd)), if_neg hy, ih, List.mem_cons]
        refine ⟨?_, ?_⟩
        · rintro (⟨hx, he⟩ | rfl)
          · exact .inl ⟨.inr hx, he⟩
          · exact .inr rfl
        · rintro (⟨rfl | hx, he⟩ | rfl)
          · exact absurd hd he
          · exact .inl ⟨hx, he⟩
          · exact .inr rfl
      · rw [if_neg (mt hmem.mp (not_or.mpr ⟨hy, hd⟩)), if_neg hy, List.mem_cons, ih, List.mem_cons]
        refine ⟨?_, ?_⟩
        · rintro (rfl | ⟨hx, he⟩ | rfl)
          · exact .inl ⟨.inl rfl, hd⟩
          · exact .inl ⟨.inr hx, he⟩
          · exact .inr rfl
        · rintro (⟨rfl | hx, he⟩ | rfl)
          · exact .inl rfl
          · exact .inr (.inl ⟨hx, he⟩)
          · exact .inr (.inr rfl)

theorem latest_of_nodup {xs : List ι} (h : (xs.map (ident tag key)).Nodup) :
    latest tag key xs = xs := by
  induction xs with
  | nil => rfl
  | cons x xs ih =>
    obtain ⟨hx, hxs⟩ := List.nodup_cons.mp h
    rw [latest, if_neg hx, ih hxs]

theorem mem_latest_ident (xs : List ι) (e : τ × κ) :
    e ∈ (latest tag key xs).map (ident tag key) ↔ e ∈ xs.map (ident tag key) := by
  induction xs with
  | nil => exact Iff.rfl
  | cons x xs ih =>
    rw [latest, List.map_cons, List.mem_cons]
    split
    · rw [ih]
      refine ⟨.inr, ?_⟩
      rintro (rfl | he)
      · assumption
      · exact he
    · rw [List.map_cons, List.mem_cons, ih]

theorem register_spec {xs : List ι} {d : ι} (hs : Separated tag key (xs ++ [d]))
    (hn : (xs.map (ident tag key)).Nodup) :
    ((register tag key xs d).map (ident tag key)).Nodup ∧
      ∀ x, x ∈ register tag key xs d ↔
        (x ∈ xs ∧ ident tag key x ≠ ident tag key d) ∨ x = d := by
  rw [register]
  split
  · rw [replaceTagged_ident]
    exact ⟨hn, mem_replaceTagged ‹_› hn⟩
  · rename_i hf
    have hnew (x : ι) (hx : x ∈ xs) : ident tag key x ≠ ident tag key d := by
      intro he
      obtain ⟨hT, hk⟩ := Prod.ext_iff.mp he
      have hxs := separated_of_subset (fun y hy => List.mem_append_left [d] hy) hs
      exact hf ((separated_iff xs).mp hxs (tag d) (key d) ⟨x, hx, hT, hk⟩)
    refine ⟨?_, ?_⟩
    · rw [List.map_append, List.map_singleton, List.nodup_append]
      refine ⟨hn, List.nodup_singleton _, ?_⟩
      intro a ha b hb hab
      obtain ⟨x, hx, rfl⟩ := List.mem_map.mp ha
      exact hnew x hx (hab.trans (List.mem_singleton.mp hb))
    · intro x
      rw [List.mem_append, List.mem_singleton]
      exact or_congr_left ⟨fun hx => ⟨hx, hnew x hx⟩, And.left⟩

/-- Where no key is shared, registering leaves the last element of each type and key. -/
theorem registered_spec {xs ds : List ι} (hs : Separated tag key (xs ++ ds))
    (hn : (xs.map (ident tag key)).Nodup) :
    ((ds.foldl (register tag key) xs).map (ident tag key)).Nodup ∧
      ∀ x, x ∈ ds.foldl (register tag key) xs ↔ x ∈ latest tag key (xs ++ ds) := by
  induction ds using List.reverseRecOn with
  | nil =>
    rw [List.append_nil, latest_of_nodup hn]
    exact ⟨hn, fun x => Iff.rfl⟩
  | append_singleton ds d ih =>
    rw [← List.append_assoc] at hs ⊢
    obtain ⟨hn', hmem⟩ := ih (separated_of_subset (fun y hy => List.mem_append_left [d] hy) hs)
    have hs' : Separated tag key (ds.foldl (register tag key) xs ++ [d]) := by
      refine (separated_congr ?_).mpr hs
      intro e
      rw [List.map_append, List.mem_append, mem_registered_ident, ← List.mem_append,
        ← List.map_append]
    obtain ⟨hnodup, hreg⟩ := register_spec hs' hn'
    rw [List.foldl_append, List.foldl_cons, List.foldl_nil]
    refine ⟨hnodup, ?_⟩
    intro x
    rw [hreg, mem_latest_concat, hmem]

/-- Registering keeps keys apart exactly when no two elements, old or new, share one. -/
theorem separated_registered_iff (xs ds : List ι) :
    Separated tag key (ds.foldl (register tag key) xs) ↔
      Separated tag key (latest tag key (xs ++ ds)) := by
  apply separated_congr
  intro e
  rw [mem_registered_ident, mem_latest_ident]

end register

end Open3DStream.Lib
