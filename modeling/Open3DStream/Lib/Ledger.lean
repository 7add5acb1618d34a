import Mathlib.Data.List.Basic
import Mathlib.Data.List.Induction
import Mathlib.Data.List.Nodup

/-! Logs of which every entry suits what was logged before it, and what they say of resources
that are acquired, used and released. -/

namespace Open3DStream.Lib

/-! ### Logs -/

section log

variable {ω : Type} {P : List ω → ω → Prop} {log : List ω} {w : ω}

/-- Every entry suits those before it. -/
def Throughout (P : List ω → ω → Prop) (log : List ω) : Prop :=
  ∀ past w later, log = past ++ w :: later → P past w

theorem throughout_nil (P : List ω → ω → Prop) : Throughout P [] := by
  intro past w later h
  exact absurd h.symm (List.append_ne_nil_of_right_ne_nil past (List.cons_ne_nil w later))

theorem throughout_concat_iff : Throughout P (log ++ [w]) ↔ Throughout P log ∧ P log w := by
  refine ⟨fun h => ⟨?_, h log w [] rfl⟩, ?_⟩
  · rintro past v later rfl
    exact h past v (later ++ [w]) (by simp)
  · rintro ⟨ho, hw⟩ past v later h
    obtain rfl | ⟨rest, x, rfl⟩ := later.eq_nil_or_concat'
    · obtain ⟨rfl, hv⟩ := List.append_inj' h rfl
      cases hv
      exact hw
    · have heq : log ++ [w] = (past ++ v :: rest) ++ [x] := by simpa using h
      exact ho past v rest (List.append_inj' heq rfl).1

end log

/-! ### Resources -/

/-- What is done with resources, each of which has a number. -/
inductive Dealing (ρ υ : Type) where
  | acquired (k : Nat) (r : ρ)
  | used (k : Nat) (u : υ)
  | released (k : Nat)
deriving DecidableEq

variable {ρ υ : Type} {k : Nat} {r : ρ} {log : List (Dealing ρ υ)} {d : Dealing ρ υ}

def Dealing.hold (holdings : List (Nat × ρ)) : Dealing ρ υ → List (Nat × ρ)
  | .acquired k r => holdings ++ [(k, r)]
  | .used _ _ => holdings
  | .released k => holdings.filter (·.1 ≠ k)

/-- What has been acquired and not released, in that order. -/
def holdings (log : List (Dealing ρ υ)) : List (Nat × ρ) := log.foldl Dealing.hold []

theorem holdings_concat (log : List (Dealing ρ υ)) (d : Dealing ρ υ) :
    holdings (log ++ [d]) = d.hold (holdings log) := by
  rw [holdings, List.foldl_append]
  rfl

def held (log : List (Dealing ρ υ)) : List Nat := (holdings log).map Prod.fst

/-- What is acquired has a number of its own, and only what is held is used and released. -/
def Dealing.Permitted (log : List (Dealing ρ υ)) : Dealing ρ υ → Prop
  | .acquired k _ => ∀ r, .acquired k r ∉ log
  | .used k _ | .released k => k ∈ held log

/-- Nothing is used or released before it is acquired or after it is released. -/
def Proper (log : List (Dealing ρ υ)) : Prop := Throughout Dealing.Permitted log

theorem proper_concat_iff : Proper (log ++ [d]) ↔ Proper log ∧ d.Permitted log :=
  throughout_concat_iff

theorem acquired_of_holds (h : (k, r) ∈ holdings log) : .acquired k r ∈ log := by
  induction log using List.reverseRecOn with
  | nil => cases h
  | append_singleton log d ih =>
    rw [holdings_concat] at h
    cases d with
    | acquired j r' =>
      obtain h | h := List.mem_append.mp h
      · exact List.mem_append_left _ (ih h)
      · cases List.mem_singleton.mp h
        exact List.mem_append_right _ (List.mem_singleton_self _)
    | used j u => exact List.mem_append_left _ (ih h)
    | released j => exact List.mem_append_left _ (ih (List.mem_filter.mp h).1)

theorem acquired_of_held (h : k ∈ held log) : ∃ r, .acquired k r ∈ log := by
  obtain ⟨⟨j, r⟩, hr, rfl⟩ := List.mem_map.mp h
  exact ⟨r, acquired_of_holds hr⟩

theorem acquired_of_released (h : Proper log) (hr : .released k ∈ log) : ∃ r, .acquired k r ∈ log := by
  obtain ⟨past, later, rfl⟩ := List.append_of_mem hr
  obtain ⟨r, hr⟩ := acquired_of_held (h past _ later rfl)
  exact ⟨r, List.mem_append_left _ hr⟩

/-- What is held is what has been acquired and not released. -/
theorem holds_iff (h : Proper log) :
    (k, r) ∈ holdings log ↔ .acquired k r ∈ log ∧ .released k ∉ log := by
  induction log using List.reverseRecOn with
  | nil => exact iff_of_false List.not_mem_nil fun h => List.not_mem_nil h.1
  | append_singleton log d ih =>
    obtain ⟨hlog, hd⟩ := proper_concat_iff.mp h
    rw [holdings_concat]
    simp only [List.mem_append, List.mem_singleton, not_or]
    cases d with
    | acquired j r' =>
      have hnew : k = j → .released k ∉ log := by
        rintro rfl hr
        obtain ⟨r'', hr''⟩ := acquired_of_released hlog hr
        exact hd r'' hr''
      simp only [Dealing.hold, List.mem_append, List.mem_singleton, ih hlog, Prod.mk.injEq,
        Dealing.acquired.injEq, reduceCtorEq, not_false_eq_true, and_true]
      rw [or_and_right]
      exact or_congr_right (iff_self_and.mpr fun hk => hnew hk.1)
    | used j u =>
      simp only [Dealing.hold, ih hlog, reduceCtorEq, or_false, not_false_eq_true, and_true]
    | released j =>
      simp only [Dealing.hold, List.mem_filter, ih hlog, decide_eq_true_eq, reduceCtorEq, or_false,
        Dealing.released.injEq, and_assoc]

theorem held_iff (h : Proper log) :
    k ∈ held log ↔ (∃ r, .acquired k r ∈ log) ∧ .released k ∉ log := by
  simp only [held, List.mem_map, Prod.exists, exists_and_right, exists_eq_right, holds_iff h]

theorem nodup_held (h : Proper log) : (held log).Nodup := by
  induction log using List.reverseRecOn with
  | nil => exact List.nodup_nil
  | append_singleton log d ih =>
    obtain ⟨hlog, hd⟩ := proper_concat_iff.mp h
    rw [held, holdings_concat]
    cases d with
    | acquired j r =>
      rw [Dealing.hold, List.map_append, ← held, List.map_singleton, ← List.concat_eq_append,
        List.nodup_concat]
      refine ⟨?_, ih hlog⟩
      intro hj
      obtain ⟨r', hr'⟩ := acquired_of_held hj
      exact hd r' hr'
    | used j u => exact ih hlog
    | released j => exact (ih hlog).sublist (List.filter_sublist.map _)

/-! ### Books -/

/-- A log whose resources are numbered by their place in it, and in which `hs` are held. -/
structure Balanced (log : List (Dealing ρ υ)) (hs : List (Nat × ρ)) : Prop where
  proper : Proper log
  numbers : ∀ k r, .acquired k r ∈ log → k < log.length
  holdings : holdings log = hs

variable {hs : List (Nat × ρ)}

theorem balanced_nil : Balanced ([] : List (Dealing ρ υ)) [] :=
  ⟨throughout_nil _, fun _ _ h => absurd h List.not_mem_nil, rfl⟩

theorem Balanced.nodup (h : Balanced log hs) : (hs.map Prod.fst).Nodup :=
  h.holdings ▸ nodup_held h.proper

theorem Balanced.unique (h : Balanced log hs) {r r' : ρ} (hr : (k, r) ∈ hs) (hr' : (k, r') ∈ hs) :
    r = r' :=
  congrArg Prod.snd (List.inj_on_of_nodup_map h.nodup hr hr' rfl)

theorem Balanced.lt (h : Balanced log hs) {x : Nat × ρ} (hx : x ∈ hs) : x.1 < log.length :=
  h.numbers x.1 x.2 (acquired_of_holds (h.holdings ▸ hx))

theorem Balanced.concat (h : Balanced log hs) (hd : d.Permitted log)
    (hk : ∀ k r, d = .acquired k r → k = log.length) : Balanced (log ++ [d]) (d.hold hs) := by
  refine ⟨proper_concat_iff.mpr ⟨h.proper, hd⟩, ?_, ?_⟩
  · intro k r hr
    rw [List.length_append, List.length_singleton]
    obtain hr | hr := List.mem_append.mp hr
    · have hlt := h.numbers k r hr
      omega
    · rw [hk k r (List.mem_singleton.mp hr).symm]
      exact Nat.lt_succ_self _
  · rw [holdings_concat, h.holdings]

theorem Balanced.acquire (h : Balanced log hs) (r : ρ) :
    Balanced (log ++ [.acquired log.length r]) (hs ++ [(log.length, r)]) := by
  refine h.concat (d := .acquired log.length r) ?_ ?_
  · intro r' hr'
    exact Nat.lt_irrefl _ (h.numbers _ r' hr')
  · intro k r' hk
    cases hk
    rfl

theorem Balanced.mem_held (h : Balanced log hs) (hk : k ∈ hs.map Prod.fst) : k ∈ held log := by
  rw [held, h.holdings]
  exact hk

theorem Balanced.use (h : Balanced log hs) (hk : k ∈ hs.map Prod.fst) (u : υ) :
    Balanced (log ++ [.used k u]) hs :=
  h.concat (d := .used k u) (h.mem_held hk) fun _ _ hd => by cases hd

theorem Balanced.release (h : Balanced log hs) (hk : k ∈ hs.map Prod.fst) :
    Balanced (log ++ [.released k]) (hs.filter (·.1 ≠ k)) :=
  h.concat (d := .released k) (h.mem_held hk) fun _ _ hd => by cases hd

/-- Something is released that was the last to be acquired. -/
theorem Balanced.giveBack (h : Balanced log (hs ++ [(k, r)])) : Balanced (log ++ [.released k]) hs := by
  have hnodup := h.nodup
  rw [List.map_append, List.map_singleton, ← List.concat_eq_append, List.nodup_concat] at hnodup
  have hrest : hs.filter (·.1 ≠ k) = hs := by
    rw [List.filter_eq_self]
    intro x hx
    refine decide_eq_true ?_
    rintro rfl
    have hmem : x.1 ∈ hs.map Prod.fst := List.mem_map_of_mem hx
    exact hnodup.1 hmem
  have hrelease := h.release (k := k) (by simp)
  rw [List.filter_append, hrest] at hrelease
  simpa using hrelease

theorem Balanced.releaseAll {ks : List Nat} (h : Balanced log hs) (hn : ks.Nodup)
    (hk : ∀ k ∈ ks, k ∈ hs.map Prod.fst) :
    Balanced (log ++ ks.map .released) (hs.filter (·.1 ∉ ks)) := by
  induction ks generalizing log hs with
  | nil => simpa using h
  | cons k ks ih =>
    obtain ⟨hnot, hn⟩ := List.nodup_cons.mp hn
    have hrelease := h.release (hk k List.mem_cons_self)
    have hrest := ih hrelease hn ?_
    · rw [List.filter_filter] at hrest
      simpa [not_or, Bool.and_comm] using hrest
    · intro j hj
      obtain ⟨x, hx, rfl⟩ := List.mem_map.mp (hk j (List.mem_cons_of_mem k hj))
      refine List.mem_map_of_mem (List.mem_filter.mpr ⟨hx, decide_eq_true ?_⟩)
      rintro rfl
      exact hnot hj

/-! ### Amounts -/

section amount

variable [DecidableEq ρ]

/-- How much is held of a kind. -/
def amount (r : ρ) (hs : List (Nat × ρ)) : Nat := hs.countP (·.2 = r)

theorem amount_concat (r : ρ) (hs : List (Nat × ρ)) (x : Nat × ρ) :
    amount r (hs ++ [x]) = amount r hs + if x.2 = r then 1 else 0 := by
  rw [amount, List.countP_append, List.countP_singleton]
  simp only [decide_eq_true_eq]
  rfl

/-- What is of another kind does not count. -/
theorem amount_filter_of_ne {p : Nat × ρ → Bool} (h : ∀ x ∈ hs, x.2 = r → p x = true) :
    amount r (hs.filter p) = amount r hs := by
  rw [amount, List.countP_filter]
  apply List.countP_congr
  intro x hx
  by_cases hr : x.2 = r
  · simp [hr, h x hx hr]
  · simp [hr]

theorem amount_release (hn : (hs.map Prod.fst).Nodup) (h : (k, r) ∈ hs) :
    amount r (hs.filter (·.1 ≠ k)) + 1 = amount r hs := by
  obtain ⟨before, after, rfl⟩ := List.append_of_mem h
  have hne : ∀ x ∈ before ++ after, x.1 ≠ k := by
    rw [List.map_append, List.map_cons, List.nodup_middle, List.nodup_cons, ← List.map_append] at hn
    rintro x hx rfl
    have hmem : x.1 ∈ (before ++ after).map Prod.fst := List.mem_map_of_mem hx
    exact hn.1 hmem
  have hrest : (before ++ (k, r) :: after).filter (·.1 ≠ k) = before ++ after := by
    rw [List.filter_append, List.filter_cons_of_neg (by simp), ← List.filter_append, List.filter_eq_self]
    exact fun x hx => decide_eq_true (hne x hx)
  rw [hrest, amount, amount, List.countP_append, List.countP_append, List.countP_cons]
  simp only [decide_true, if_true]
  omega

end amount

end Open3DStream.Lib
