import Mathlib.Data.List.Induction
import Mathlib.Data.List.ReduceOption
import Open3DStream.Lib.Machine

/-! Parts collected under keys: what is whole is given out, and outdates the smaller keys. -/

namespace Open3DStream.Lib

/-- How the parts of one key are put together. A part may be ignored, and `none` from `add` is
undefined. -/
structure Collector (ι κ σ : Type) where
  key : ι → Option κ
  init : σ
  add : σ → ι → Option σ
  whole : σ → Bool

namespace Collector

section Ascending

variable {κ : Type} [LT κ]

/-- The keys that are given out, in their order. -/
def Ascending (os : List (Option κ)) : Prop := os.reduceOption.Pairwise (· < ·)

theorem ascending_concat_iff {os : List (Option κ)} {o : Option κ} :
    Ascending (os ++ [o]) ↔ Ascending os ∧ ∀ k ∈ o, ∀ j, some j ∈ os → j < k := by
  rw [Ascending, List.reduceOption_append, List.pairwise_append]
  cases o with
  | none => simp [Ascending]
  | some k => simp [Ascending, List.reduceOption_mem_iff]

end Ascending

variable {ι κ σ : Type} [DecidableEq κ]

/-- One part more, when nothing is ever given out. -/
def put (C : Collector ι κ σ) (k : κ) (o : Option σ) (x : ι) : Option (Option σ) :=
  if C.key x = some k then (C.add (o.getD C.init) x).map some else some o

/-- What the parts come to under one key, when nothing is ever given out. -/
def alone (C : Collector ι κ σ) (k : κ) (xs : List ι) : Option (Option σ) :=
  xs.foldlM (C.put k) none

/-- The parts make the key whole. -/
def Whole (C : Collector ι κ σ) (k : κ) (xs : List ι) : Prop :=
  ∃ s, C.alone k xs = some (some s) ∧ C.whole s = true

/-- The parts made the key whole at some point. -/
def Reached (C : Collector ι κ σ) (k : κ) (xs : List ι) : Prop := ∃ ys, ys <+: xs ∧ C.Whole k ys

/-- The parts make the key whole for the first time. -/
def First (C : Collector ι κ σ) (k : κ) (xs : List ι) : Prop :=
  C.Whole k xs ∧ ∀ ys, ys <+: xs → C.Whole k ys → ys = xs

variable {C : Collector ι κ σ} {k : κ} {xs ys : List ι} {x : ι}

theorem alone_concat : C.alone k (xs ++ [x]) = (C.alone k xs).bind fun o => C.put k o x := by
  rw [alone, List.foldlM_append]
  simp [alone]

theorem alone_concat_of_ne (h : C.key x ≠ some k) : C.alone k (xs ++ [x]) = C.alone k xs := by
  rw [alone_concat]
  cases C.alone k xs with
  | none => rfl
  | some o => exact if_neg h

theorem alone_concat_of_key (h : C.key x = some k) {o : Option σ} (hxs : C.alone k xs = some o) :
    C.alone k (xs ++ [x]) = (C.add (o.getD C.init) x).map some := by
  rw [alone_concat, hxs]
  exact if_pos h

theorem Reached.mono (h : C.Reached k ys) (hp : ys <+: xs) : C.Reached k xs := by
  obtain ⟨zs, hz, hw⟩ := h
  exact ⟨zs, hz.trans hp, hw⟩

theorem Whole.reached (h : C.Whole k xs) : C.Reached k xs := ⟨xs, List.prefix_rfl, h⟩

theorem reached_concat_iff : C.Reached k (xs ++ [x]) ↔ C.Whole k (xs ++ [x]) ∨ C.Reached k xs := by
  refine ⟨fun ⟨ys, hy, hw⟩ => ?_, fun h => ?_⟩
  · obtain rfl | hy := List.prefix_concat_iff.mp hy
    · exact .inl hw
    · exact .inr ⟨ys, hy, hw⟩
  · cases h with
    | inl h => exact h.reached
    | inr h => exact h.mono (List.prefix_append _ _)

theorem not_reached_concat_of_ne (h : C.key x ≠ some k) (hn : ¬C.Reached k xs) :
    ¬C.Reached k (xs ++ [x]) := by
  rw [reached_concat_iff, Whole, alone_concat_of_ne h]
  rintro (hw | hr)
  · exact hn (Whole.reached hw)
  · exact hn hr

/-- A key is made whole for the first time in one way only. -/
theorem First.eq (hx : C.First k xs) (hy : C.First k ys) {zs : List ι} (hxz : xs <+: zs)
    (hyz : ys <+: zs) : xs = ys := by
  obtain h | h := List.prefix_or_prefix_of_prefix hxz hyz
  · exact hy.2 xs h hx.1
  · exact (hx.2 ys h hy.1).symm

section Deliver

variable [LE κ] [DecidableLE κ]

/-- Nothing is remembered of the keys that are given out. -/
def deliver (C : Collector ι κ σ) (m : κ → Option σ) (x : ι) : Option (Option κ × (κ → Option σ)) :=
  match C.key x with
  | none => some (none, m)
  | some k => do
    let s ← C.add ((m k).getD C.init) x
    if C.whole s then some (some k, fun j => if j ≤ k then none else m j)
    else some (none, fun j => if j = k then some s else m j)

/-- The three ways to leave `deliver`. -/
theorem deliver_cases {m : κ → Option σ} {r : Option κ × (κ → Option σ)}
    (h : C.deliver m x = some r) :
    (C.key x = none ∧ r = (none, m)) ∨
      ∃ k s, C.key x = some k ∧ C.add ((m k).getD C.init) x = some s ∧
        ((C.whole s = true ∧ r = (some k, fun j => if j ≤ k then none else m j)) ∨
          (C.whole s = false ∧ r = (none, fun j => if j = k then some s else m j))) := by
  rw [deliver] at h
  cases hk : C.key x with
  | none =>
    rw [hk] at h
    exact .inl ⟨rfl, (Option.some.inj h).symm⟩
  | some k =>
    rw [hk] at h
    dsimp only at h
    rw [Option.bind_eq_bind, Option.bind_eq_some_iff] at h
    obtain ⟨s, hs, h⟩ := h
    refine .inr ⟨k, s, rfl, hs, ?_⟩
    split at h
    · exact .inl ⟨‹_›, (Option.some.inj h).symm⟩
    · exact .inr ⟨Bool.eq_false_iff.mpr ‹_›, (Option.some.inj h).symm⟩

end Deliver

/-! ### Runs -/

variable [LE κ] [LT κ]

/-- After a key is whole for the first time, one that is not greater is made whole by the parts
that follow, and no greater one is by all of them. -/
def Again (C : Collector ι κ σ) (xs : List ι) : Prop :=
  ∃ a b L i, a ++ b <+: xs ∧ i ≤ L ∧ C.First L a ∧ C.Whole i b ∧ ∀ j, L < j → ¬C.Reached j (a ++ b)

theorem Again.mono (h : C.Again ys) (hp : ys <+: xs) : C.Again xs := by
  obtain ⟨a, b, L, i, hab, hrest⟩ := h
  exact ⟨a, b, L, i, hab.trans hp, hrest⟩

/-- What is known after a run: `last` is the key that was given out last, and `recent` are
the parts that came after it. -/
structure Follows (C : Collector ι κ σ) (xs : List ι) (os : List (Option κ)) (m : κ → Option σ)
    (last : Option κ) (recent : List ι) : Prop where
  waiting : ∀ k s, m k = some s → C.whole s = false
  ascending : Ascending os
  given : ∀ k, some k ∈ os → ∃ L ∈ last, k ≤ L
  first : ∀ L ∈ last, some L ∈ os ∧ ∃ a, xs = a ++ recent ∧ C.First L a
  old : ∀ L ∈ last, ∀ k, k ≤ L → C.alone k recent = some (m k)
  young : ∀ k, (∀ L ∈ last, L < k) → C.alone k xs = some (m k) ∧ ¬C.Reached k xs

namespace Follows

variable {os : List (Option κ)} {m : κ → Option σ} {last : Option κ} {recent : List ι}

theorem nil (C : Collector ι κ σ) : C.Follows [] [] (fun _ => none) none [] := by
  refine ⟨fun k s h => ?_, List.Pairwise.nil, fun k h => ?_, fun L h => ?_, fun L h => ?_,
    fun k _ => ⟨rfl, ?_⟩⟩
  · cases h
  · cases h
  · cases h
  · cases h
  · rintro ⟨ys, hy, s, hs, -⟩
    rw [List.prefix_nil.mp hy] at hs
    cases hs

variable [Std.IsLinearOrder κ] [Std.LawfulOrderLT κ]

/-- An answer keeps the order when it is a key greater than the last one. -/
theorem ascending_concat_iff (h : C.Follows xs os m last recent) {o : Option κ} :
    Ascending (os ++ [o]) ↔ ∀ k ∈ o, ∀ L ∈ last, L < k := by
  rw [Collector.ascending_concat_iff, and_iff_right h.ascending]
  refine ⟨fun ho k hk L hL => ho k hk L (h.first L hL).1, fun ho k hk j hj => ?_⟩
  obtain ⟨L, hL, hle⟩ := h.given j hj
  exact Std.lt_of_le_of_lt hle (ho k hk L hL)

/-- A part that makes nothing whole. -/
theorem keep (h : C.Follows xs os m last recent) {m' : κ → Option σ}
    (hput : ∀ j ys, C.alone j ys = some (m j) → C.alone j (ys ++ [x]) = some (m' j))
    (hw : ∀ k s, m' k = some s → C.whole s = false) :
    C.Follows (xs ++ [x]) (os ++ [none]) m' last (recent ++ [x]) := by
  refine ⟨hw, ?_, fun k hk => ?_, fun L hL => ?_, fun L hL k hle => ?_, fun k hk => ?_⟩
  · rw [h.ascending_concat_iff]
    intro k hk
    cases hk
  · obtain hk | hk := List.mem_append.mp hk
    · exact h.given k hk
    · cases List.mem_singleton.mp hk
  · obtain ⟨hmem, a, rfl, hfirst⟩ := h.first L hL
    exact ⟨List.mem_append_left _ hmem, a, List.append_assoc a recent [x], hfirst⟩
  · exact hput k recent (h.old L hL k hle)
  · obtain ⟨halone, hreached⟩ := h.young k hk
    have hnew := hput k xs halone
    refine ⟨hnew, ?_⟩
    rw [reached_concat_iff]
    rintro (⟨s, hs, hwhole⟩ | hr)
    · rw [hnew] at hs
      rw [hw k s (Option.some.inj hs)] at hwhole
      cases hwhole
    · exact hreached hr

/-- While the keys ascend, no greater one is made whole again. -/
theorem not_again (h : C.Follows xs os m last recent) {a b : List ι} {L i : κ} (hab : xs = a ++ b)
    (hle : i ≤ L) (hfirst : C.First L a) (hwhole : C.Whole i b)
    (hgreater : ∀ j, L < j → ¬C.Reached j xs) : False := by
  have hreached : C.Reached L xs := hfirst.1.reached.mono ⟨b, hab.symm⟩
  have hlast : L ∈ last := by
    by_contra hn
    have hyoung := fun hy => (h.young L hy).2 hreached
    obtain ⟨K, hK⟩ := not_forall.mp hyoung
    obtain ⟨hK, hKL⟩ := Classical.not_imp.mp hK
    obtain ⟨-, c, hc, hKc⟩ := h.first K hK
    have hKr : C.Reached K xs := hKc.1.reached.mono ⟨recent, hc.symm⟩
    have hKle : K ≤ L := Std.not_lt.mp fun hlt => hgreater K hlt hKr
    have heq : K = L := Std.le_antisymm hKle (Std.not_lt.mp hKL)
    exact hn (heq ▸ hK)
  obtain ⟨-, c, hc, hLc⟩ := h.first L hlast
  have hca := hLc.eq hfirst ⟨recent, hc.symm⟩ ⟨b, hab.symm⟩
  subst hca
  have hb : b = recent := List.append_cancel_left (hab.symm.trans hc)
  subst hb
  obtain ⟨s, hs, hw⟩ := hwhole
  rw [h.old L hlast i hle] at hs
  rw [h.waiting i s (Option.some.inj hs)] at hw
  cases hw

variable [DecidableLE κ]

/-- A part that makes a key whole that is greater than the last one. -/
theorem give (h : C.Follows xs os m last recent) {s : σ} (hx : C.key x = some k)
    (hadd : C.add ((m k).getD C.init) x = some s) (hs : C.whole s = true)
    (hk : ∀ L ∈ last, L < k) :
    C.Follows (xs ++ [x]) (os ++ [some k]) (fun j => if j ≤ k then none else m j) (some k) [] := by
  obtain ⟨halone, hreached⟩ := h.young k hk
  have hwhole : C.Whole k (xs ++ [x]) := by
    refine ⟨s, ?_, hs⟩
    rw [alone_concat_of_key hx halone, hadd]
    rfl
  have hlast (P : κ → Prop) (hP : P k) : ∀ L ∈ some k, P L := by
    intro L hL
    cases hL
    exact hP
  refine ⟨fun j t ht => ?_, ?_, fun j hj => ⟨k, rfl, ?_⟩, hlast _ ⟨?_, xs ++ [x], ?_, hwhole, ?_⟩,
    hlast _ fun j hle => ?_, fun j hj => ?_⟩
  · split at ht
    · cases ht
    · exact h.waiting j t ht
  · exact h.ascending_concat_iff.mpr (hlast _ hk)
  · obtain hj | hj := List.mem_append.mp hj
    · obtain ⟨L, hL, hle⟩ := h.given j hj
      exact Std.le_trans hle (Std.le_of_lt (hk L hL))
    · cases List.mem_singleton.mp hj
      exact Std.le_refl k
  · exact List.mem_append_right _ (List.mem_singleton.mpr rfl)
  · rw [List.append_nil]
  · intro ys hys hw
    exact (List.prefix_concat_iff.mp hys).resolve_right fun hp => hreached ⟨ys, hp, hw⟩
  · rw [if_pos hle]
    rfl
  · have hlt : k < j := hj k rfl
    have hne : C.key x ≠ some j := by
      rw [hx]
      rintro ⟨⟩
      exact Std.lt_irrefl hlt
    obtain ⟨hj, hjr⟩ := h.young j fun L hL => Std.lt_trans (hk L hL) hlt
    rw [alone_concat_of_ne hne, if_neg (Std.not_le.mpr hlt)]
    exact ⟨hj, not_reached_concat_of_ne hne hjr⟩

/-- One part more, as long as the keys that are given out ascend. -/
theorem deliver (h : C.Follows xs os m last recent) {r : Option κ × (κ → Option σ)}
    (hd : C.deliver m x = some r) (hasc : Ascending (os ++ [r.1])) :
    ∃ last recent, C.Follows (xs ++ [x]) (os ++ [r.1]) r.2 last recent := by
  obtain ⟨hx, rfl⟩ | ⟨k, s, hx, hadd, ⟨hs, rfl⟩ | ⟨hs, rfl⟩⟩ := deliver_cases hd
  · refine ⟨last, recent ++ [x], h.keep (fun j ys hys => ?_) h.waiting⟩
    rw [alone_concat_of_ne (by rw [hx]; exact Option.some_ne_none j |>.symm), hys]
  · exact ⟨some k, [], h.give hx hadd hs (h.ascending_concat_iff.mp hasc k rfl)⟩
  · refine ⟨last, recent ++ [x], h.keep (fun j ys hys => ?_) fun j t ht => ?_⟩
    · by_cases hj : j = k
      · subst hj
        rw [alone_concat_of_key hx hys, hadd]
        exact congrArg some (if_pos rfl).symm
      · rw [alone_concat_of_ne (by rw [hx]; exact fun he => hj (Option.some.inj he).symm), hys]
        exact congrArg some (if_neg hj).symm
    · dsimp only at ht
      split at ht
      · cases ht
        exact hs
      · exact h.waiting j t ht

/-- A key that is given out of order was made whole by parts that came after a greater one. -/
theorem again (h : C.Follows xs os m last recent) {r : Option κ × (κ → Option σ)}
    (hd : C.deliver m x = some r) (hasc : ¬Ascending (os ++ [r.1])) : C.Again (xs ++ [x]) := by
  rw [h.ascending_concat_iff] at hasc
  obtain ⟨hx, rfl⟩ | ⟨k, s, hx, hadd, ⟨hs, rfl⟩ | ⟨hs, rfl⟩⟩ := deliver_cases hd
  · exact absurd (fun k hk => nomatch hk) hasc
  · have hold : ∃ L ∈ last, k ≤ L := by
      by_contra hn
      refine hasc fun j hj L hL => ?_
      cases hj
      exact Std.not_le.mp fun hle => hn ⟨L, hL, hle⟩
    obtain ⟨L, hL, hle⟩ := hold
    obtain ⟨-, a, rfl, hfirst⟩ := h.first L hL
    refine ⟨a, recent ++ [x], L, k, ?_, hle, hfirst, ⟨s, ?_, hs⟩, fun j hj => ?_⟩
    · exact ⟨[], by rw [List.append_nil, List.append_assoc]⟩
    · rw [alone_concat_of_key hx (h.old L hL k hle), hadd]
      rfl
    · have hne : C.key x ≠ some j := by
        rw [hx]
        rintro ⟨⟩
        exact Std.lt_irrefl (Std.lt_of_le_of_lt hle hj)
      rw [← List.append_assoc]
      refine not_reached_concat_of_ne hne (h.young j fun K hK => ?_).2
      rwa [Option.mem_unique hK hL]
  · exact absurd (fun k hk => nomatch hk) hasc

end Follows

variable [DecidableLE κ] [Std.IsLinearOrder κ] [Std.LawfulOrderLT κ] {os : List (Option κ)}
  {m : κ → Option σ}

theorem run_follows (h : run C.deliver (fun _ => none) xs = some (os, m))
    (hor : Ascending os ∨ ¬C.Again xs) : ∃ last recent, C.Follows xs os m last recent := by
  induction xs using List.reverseRecOn generalizing os m with
  | nil =>
    cases h
    exact ⟨none, [], Follows.nil C⟩
  | append_singleton xs x ih =>
    obtain ⟨os, n, o, hrun, hd, rfl⟩ := run_concat_eq_some_iff.mp h
    obtain ⟨last, recent, hf⟩ := ih hrun (hor.imp (fun ha => (ascending_concat_iff.mp ha).1)
      fun hn ha => hn (ha.mono (List.prefix_append _ _)))
    refine hf.deliver hd (hor.elim id fun hn => ?_)
    by_contra hasc
    exact hn (hf.again hd hasc)

/-- The keys ascend exactly when none is made whole again. -/
theorem ascending_iff (h : run C.deliver (fun _ => none) xs = some (os, m)) :
    Ascending os ↔ ¬C.Again xs := by
  refine ⟨fun hasc => ?_, fun hn => ?_⟩
  · rintro ⟨a, b, L, i, ⟨c, rfl⟩, hle, hfirst, hwhole, hgreater⟩
    obtain ⟨os, n, os', hrun, -, rfl⟩ := run_append_eq_some_iff.mp h
    have hos : Ascending os := by
      rw [Ascending, List.reduceOption_append] at hasc
      exact hasc.sublist (List.sublist_append_left _ _)
    obtain ⟨last, recent, hf⟩ := run_follows hrun (.inl hos)
    exact hf.not_again rfl hle hfirst hwhole hgreater
  · obtain ⟨last, recent, hf⟩ := run_follows h (.inr hn)
    exact hf.ascending

end Collector

end Open3DStream.Lib
