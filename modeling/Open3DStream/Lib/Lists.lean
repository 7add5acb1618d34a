import Mathlib.Data.List.Forall2
import Mathlib.Data.List.Zip

/-! Lists read and changed position by position, and lists that run side by side. -/

namespace Open3DStream.Lib

variable {γ δ ε : Type}

/-! ### Positions -/

theorem getElem?_concat_iff {l : List γ} {x y : γ} {n : ℕ} :
    (l ++ [x])[n]? = some y ↔ l[n]? = some y ∨ n = l.length ∧ x = y := by
  rw [List.getElem?_append]
  split
  · have hne : n ≠ l.length := by omega
    simp [hne]
  · by_cases hn : n = l.length
    · simp [hn]
    · have hne : n - l.length ≠ 0 := by omega
      have hlt : ¬n < l.length := by omega
      simp [hn, hne, hlt]

theorem getElem?_set_cases {l : List γ} {i k : ℕ} {x y : γ} (h : (l.set i x)[k]? = some y) :
    (k = i ∧ y = x) ∨ (k ≠ i ∧ l[k]? = some y) := by
  rw [List.getElem?_set] at h
  split at h
  · split at h
    · exact .inl ⟨‹i = k›.symm, (Option.some.inj h).symm⟩
    · cases h
  · exact .inr ⟨Ne.symm ‹_›, h⟩

theorem getElem?_modify_cases {l : List γ} {f : γ → γ} {i k : ℕ} {y : γ}
    (h : (l.modify i f)[k]? = some y) : ∃ x, l[k]? = some x ∧ (y = x ∨ y = f x) := by
  rw [List.getElem?_modify] at h
  cases hx : l[k]? with
  | none => simp [hx] at h
  | some x =>
    refine ⟨x, rfl, ?_⟩
    rw [hx, Option.map_eq_map, Option.map_some, Option.some.injEq] at h
    split at h
    · exact .inr h.symm
    · exact .inl h.symm

theorem modify_length (pre : List γ) (x : γ) (post : List γ) (f : γ → γ) :
    (pre ++ x :: post).modify pre.length f = pre ++ f x :: post := by
  induction pre with
  | nil => rfl
  | cons y pre ih => simp [ih]

/-- Lists of one length agree under a map when they do at every position. -/
theorem map_eq_iff_get {l m : List γ} (h : l.length = m.length) {f : γ → δ} :
    l.map f = m.map f ↔ ∀ (i : ℕ) x, m[i]? = some x → ∃ y, l[i]? = some y ∧ f y = f x := by
  refine ⟨?_, ?_⟩
  · intro he i x hx
    have hi := congrArg (·[i]?) he
    simp only [List.getElem?_map, hx, Option.map_some] at hi
    exact Option.map_eq_some_iff.mp hi
  · intro hall
    apply List.ext_getElem?
    intro i
    rw [List.getElem?_map, List.getElem?_map]
    cases hx : m[i]? with
    | none =>
      have hi := List.getElem?_eq_none_iff.mp hx
      rw [List.getElem?_eq_none (h ▸ hi)]
    | some x =>
      obtain ⟨y, hy, he⟩ := hall i x hx
      rw [hy, Option.map_some, Option.map_some, he]

/-- What a change does not touch reads the same. -/
theorem map_modify_eq_of_get {f : γ → γ} {g : γ → δ} {l : List γ} {i : ℕ}
    (h : ∀ x, l[i]? = some x → g (f x) = g x) : (l.modify i f).map g = l.map g := by
  apply List.ext_getElem?
  intro k
  rw [List.getElem?_map, List.getElem?_map, List.getElem?_modify]
  cases hx : l[k]? with
  | none => simp
  | some x =>
    by_cases hk : i = k
    · subst hk
      simp [h x hx]
    · simp [hk]

theorem map_modify_eq {f : γ → γ} {g : γ → δ} (h : ∀ x, g (f x) = g x) (l : List γ) (i : ℕ) :
    (l.modify i f).map g = l.map g :=
  map_modify_eq_of_get fun x _ => h x

/-- Steps that leave the first entry alone go by it. -/
theorem foldl_cons_fixed {f : List γ → δ → List γ} {x : γ} {ds : List δ}
    (h : ∀ d ∈ ds, ∀ l, f (x :: l) d = x :: f l d) (l : List γ) :
    ds.foldl f (x :: l) = x :: ds.foldl f l := by
  induction ds generalizing l with
  | nil => rfl
  | cons d ds ih =>
    obtain ⟨hd, hds⟩ := List.forall_mem_cons.mp h
    rw [List.foldl_cons, hd, ih hds, List.foldl_cons]

theorem zipWith_zipWith (f g : γ → δ → δ) (xs : List γ) (ys : List δ) :
    List.zipWith g xs (List.zipWith f xs ys) = List.zipWith (fun x y => g x (f x y)) xs ys := by
  induction xs generalizing ys with
  | nil => rfl
  | cons x xs ih =>
    cases ys with
    | nil => rfl
    | cons y ys => simp [ih]

/-! ### Side by side -/

section forall₂

variable {R : γ → δ → Prop} {l : List γ} {l' : List δ}

theorem forall₂_getElem? (h : List.Forall₂ R l l') {k : ℕ} {x : γ} (hx : l[k]? = some x) :
    ∃ y, l'[k]? = some y ∧ R x y := by
  induction h generalizing k with
  | nil => cases hx
  | @cons a b l l' hab _ ih =>
    cases k with
    | zero =>
      cases hx
      exact ⟨b, rfl, hab⟩
    | succ k => exact ih hx

theorem forall₂_right (h : List.Forall₂ R l l') {P : δ → Prop} (hP : ∀ a b, R a b → P b) :
    ∀ b ∈ l', P b := by
  induction h with
  | nil => exact fun b hb => absurd hb List.not_mem_nil
  | cons hab _ ih => exact List.forall_mem_cons.mpr ⟨hP _ _ hab, ih⟩

theorem forall₂_map_eq {f : γ → ε} {g : δ → ε} (h : List.Forall₂ R l l')
    (hfg : ∀ a b, R a b → g b = f a) : l'.map g = l.map f := by
  induction h with
  | nil => rfl
  | cons hab _ ih => rw [List.map_cons, List.map_cons, ih, hfg _ _ hab]

theorem forall₂_of_map_eq {f : γ → ε} {g : δ → ε} (h : l.map f = l'.map g) :
    List.Forall₂ (fun a b => f a = g b) l l' := by
  have heq : List.Forall₂ (· = ·) (l.map f) (l'.map g) := by
    rw [h]
    exact List.forall₂_refl _
  rw [List.forall₂_map_left_iff, List.forall₂_map_right_iff] at heq
  exact heq

theorem forall₂_zipWith {S : γ → ε → Prop} {f : γ → δ → ε} (hf : ∀ a b, R a b → S a (f a b))
    (h : List.Forall₂ R l l') : List.Forall₂ S l (List.zipWith f l l') := by
  induction h with
  | nil => exact .nil
  | cons hab _ ih => exact .cons (hf _ _ hab) ih

/-- What says the same when it is said again says it along lists, too. -/
theorem zipWith_zipWith_self {f : γ → δ → δ} (hf : ∀ a b, f a (f a b) = f a b) (l : List γ)
    (l' : List δ) : List.zipWith f l (List.zipWith f l l') = List.zipWith f l l' := by
  induction l generalizing l' with
  | nil => rfl
  | cons a l ih =>
    cases l' with
    | nil => rfl
    | cons b l' => rw [List.zipWith_cons_cons, List.zipWith_cons_cons, hf, ih]

theorem forall₂_trans {l'' : List ε} {S : δ → ε → Prop} {T : γ → ε → Prop}
    (ht : ∀ a b c, R a b → S b c → T a c) (h : List.Forall₂ R l l') (h' : List.Forall₂ S l' l'') :
    List.Forall₂ T l l'' := by
  induction h generalizing l'' with
  | nil =>
    cases h'
    exact .nil
  | cons hab _ ih =>
    cases h' with
    | cons hbc hrest => exact .cons (ht _ _ _ hab hbc) (ih hrest)

theorem forall₂_zipWith_zipWith {ζ η : Type} {l'' : List ε} {S : δ → ε → Prop} {T : ζ → η → Prop}
    {f : γ → δ → ζ} {g : γ → ε → η} (hfg : ∀ a b c, R a b → S b c → T (f a b) (g a c))
    (h : List.Forall₂ R l l') (h' : List.Forall₂ S l' l'') :
    List.Forall₂ T (List.zipWith f l l') (List.zipWith g l l'') := by
  induction h generalizing l'' with
  | nil => exact .nil
  | cons hab _ ih =>
    cases h' with
    | cons hbc hrest => exact .cons (hfg _ _ _ hab hbc) (ih hrest)

theorem forall₂_append_split {l₁ l₂ : List γ} (h : List.Forall₂ R (l₁ ++ l₂) l') :
    ∃ r₁ r₂, l' = r₁ ++ r₂ ∧ List.Forall₂ R l₁ r₁ ∧ List.Forall₂ R l₂ r₂ := by
  induction l₁ generalizing l' with
  | nil => exact ⟨[], l', rfl, .nil, h⟩
  | cons x l₁ ih =>
    cases h with
    | cons hx hrest =>
      obtain ⟨r₁, r₂, rfl, h₁, h₂⟩ := ih hrest
      exact ⟨_ :: r₁, r₂, rfl, .cons hx h₁, h₂⟩

end forall₂

theorem zip_map_zipWith {ζ η : Type} (f : γ → ζ) (g : γ → δ → η) (l : List γ) (l' : List δ) :
    (l.map f).zip (List.zipWith g l l') = (l.zip l').map fun x => (f x.1, g x.1 x.2) := by
  induction l generalizing l' with
  | nil => rfl
  | cons x l ih =>
    cases l' with
    | nil => rfl
    | cons y l' => simp [ih]

/-! ### Steps of which the last one counts -/

section overwriting

variable {f : γ → δ → γ}

/-- A step has no use for what it did itself before, whatever happened in between. -/
def Overwriting (f : γ → δ → γ) : Prop :=
  (∀ x d, f (f x d) d = f x d) ∧ ∀ x d e, f (f (f x d) e) d = f (f x e) d

theorem Overwriting.foldl_step (h : Overwriting f) {d : δ} {ds : List δ} (hd : d ∈ ds) (x : γ) :
    ds.foldl f (f x d) = ds.foldl f x := by
  obtain ⟨hsame, hother⟩ := h
  induction ds generalizing x with
  | nil => cases hd
  | cons e ds ih =>
    rw [List.foldl_cons, List.foldl_cons]
    obtain rfl | hd := List.mem_cons.mp hd
    · rw [hsame]
    · rw [← ih hd, hother, ih hd]

/-- Steps that are among those that follow might as well not have been taken. -/
theorem Overwriting.foldl_foldl (h : Overwriting f) {ds es : List δ} (hs : ∀ d ∈ es, d ∈ ds)
    (x : γ) : ds.foldl f (es.foldl f x) = ds.foldl f x := by
  induction es generalizing x with
  | nil => rfl
  | cons d es ih =>
    obtain ⟨hd, hes⟩ := List.forall_mem_cons.mp hs
    rw [List.foldl_cons, ih hes, h.foldl_step hd]

/-- Steps under a condition that no step changes. -/
theorem Overwriting.guarded (h : Overwriting f) {P : ε → γ → Prop} [∀ e x, Decidable (P e x)]
    (g : ε → δ) (hP : ∀ x d e, P e (f x d) ↔ P e x) :
    Overwriting fun x e => if P e x then f x (g e) else x := by
  obtain ⟨hsame, hother⟩ := h
  refine ⟨?_, ?_⟩
  · intro x d
    by_cases hd : P d x
    · simp only [hd, hP, if_true, hsame]
    · simp only [hd, if_false]
  · intro x d e
    by_cases hd : P d x
    · by_cases he : P e x
      · simp only [hd, he, hP, if_true, hother]
      · simp only [hd, he, hP, if_true, if_false, hsame]
    · by_cases he : P e x <;> simp only [hd, he, hP, if_true, if_false]

end overwriting

/-! ### Every second entry -/

/-- The second, the fourth and so on. -/
def everySecond : List γ → List γ
  | _ :: x :: xs => x :: everySecond xs
  | _ => []

theorem everySecond_append {xs : List γ} (h : xs.length % 2 = 0) (ys : List γ) :
    everySecond (xs ++ ys) = everySecond xs ++ everySecond ys := by
  fun_induction everySecond xs with
  | case1 x₀ x xs ih =>
    rw [List.length_cons, List.length_cons] at h
    rw [List.cons_append, List.cons_append, everySecond, ih (by omega), List.cons_append]
  | case2 xs hxs =>
    match xs with
    | [] => rfl
    | [x] => cases h
    | x₀ :: x :: xs => exact absurd rfl (hxs x₀ x xs)

theorem length_everySecond (xs : List γ) : (everySecond xs).length = xs.length / 2 := by
  fun_induction everySecond xs with
  | case1 x₀ x xs ih =>
    rw [List.length_cons, List.length_cons, List.length_cons, ih]
    omega
  | case2 xs hxs =>
    match xs with
    | [] => simp
    | [x] => simp
    | x₀ :: x :: xs => exact absurd rfl (hxs x₀ x xs)

/-- Only of nothing it is all. -/
theorem everySecond_eq_self_iff {xs : List γ} : everySecond xs = xs ↔ xs = [] := by
  refine ⟨?_, ?_⟩
  · intro h
    have hlen := congrArg List.length h
    rw [length_everySecond] at hlen
    exact List.eq_nil_of_length_eq_zero (by omega)
  · rintro rfl
    rfl

/-! ### Folds seen through a function -/

section fold

variable {σ τ : Type} {step : σ → γ → σ} {F : σ → τ} {l : List γ}

theorem foldl_miss (h : ∀ d ∈ l, ∀ x, F (step x d) = F x) (x : σ) : F (l.foldl step x) = F x := by
  induction l generalizing x with
  | nil => rfl
  | cons d l ih =>
    obtain ⟨hd, hl⟩ := List.forall_mem_cons.mp h
    rw [List.foldl_cons, ih hl, hd]

/-- Steps that hit all do the same, which done again changes nothing. -/
theorem foldl_hit {g : τ → τ} (hg : ∀ y, g (g y) = g y) {H : γ → Prop}
    (hhit : ∀ d ∈ l, H d → ∀ x, F (step x d) = g (F x))
    (hmiss : ∀ d ∈ l, ¬H d → ∀ x, F (step x d) = F x) (hex : ∃ d ∈ l, H d) (x : σ) :
    F (l.foldl step x) = g (F x) := by
  induction l generalizing x with
  | nil =>
    obtain ⟨d, hd, -⟩ := hex
    exact absurd hd List.not_mem_nil
  | cons d l ih =>
    obtain ⟨hd, hl⟩ := List.forall_mem_cons.mp hhit
    obtain ⟨hd', hl'⟩ := List.forall_mem_cons.mp hmiss
    rw [List.foldl_cons]
    by_cases hrest : ∃ d ∈ l, H d
    · rw [ih hl hl' hrest]
      by_cases hH : H d
      · rw [hd hH, hg]
      · rw [hd' hH]
    · have hno : ∀ d ∈ l, ¬H d := fun d hd hH => hrest ⟨d, hd, hH⟩
      rw [foldl_miss fun d hd => hl' d hd (hno d hd)]
      apply hd
      obtain ⟨d', hm, hH⟩ := hex
      cases List.mem_cons.mp hm with
      | inl heq => exact heq ▸ hH
      | inr hm => exact absurd hH (hno d' hm)

end fold

end Open3DStream.Lib
