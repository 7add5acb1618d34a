import Open3DStream.Items
import Open3DStream.Packet
import Open3DStream.Populate

namespace Open3DStream

variable {α β : Type}

/-- The receiver has a context and the packet's one cannot be converted to it. -/
def ContextRejected (l : SubjectList α β) (p : Data.SubjectList α β) : Prop :=
  l.mContext.valid = true ∧ (readContext p).valid = false

namespace SubjectList

/-- The list the loops of `parse` start from. -/
def kept (l : SubjectList α β) (clearInactive : Bool) : List (Subject α β) :=
  if clearInactive then [] else l.mItems

/-- The receiver after the time and the context of a packet have been taken over. -/
def adopted (l : SubjectList α β) (p : Data.SubjectList α β) : SubjectList α β :=
  ((l.readTime p).adoptContext (readContext p)).2

theorem adoptContext_ok (l : SubjectList α β) (p : Data.SubjectList α β) :
    ((l.readTime p).adoptContext (readContext p)).1 = true ↔ ¬ContextRejected l p := by
  rw [adoptContext, ContextRejected]
  have hc : (l.readTime p).mContext = l.mContext := rfl
  rw [hc]
  cases hl : l.mContext.valid with
  | false => simp
  | true =>
    cases hp : (readContext p).valid <;> simp [IsValid_make, hl, hp]

theorem adopted_mItems (l : SubjectList α β) (p : Data.SubjectList α β) :
    (l.adopted p).mItems = l.mItems := by
  rw [adopted, adoptContext]
  split
  · rfl
  · dsimp only
    split <;> rfl

theorem adopted_mTimecode (l : SubjectList α β) (p : Data.SubjectList α β) :
    (l.adopted p).mTimecode = p.timecode.getD "" := by
  rw [adopted, adoptContext]
  split
  · rfl
  · dsimp only
    split <;> rfl

theorem adopted_conversion (l : SubjectList α β) (p : Data.SubjectList α β) :
    (l.adopted p).conversion =
      if l.mContext.valid then
        let c := ConversionContext.make (readContext p) l.mContext
        some (if c.IsValid then c.Initialize else c)
      else none := by
  rw [adopted, adoptContext]
  have hc : (l.readTime p).mContext = l.mContext := rfl
  rw [hc]
  cases l.mContext.valid with
  | false => rfl
  | true =>
    rw [Bool.not_true, if_neg Bool.false_ne_true, if_pos rfl]
    dsimp only
    cases (ConversionContext.make (readContext p) l.mContext).IsValid <;> rfl

variable [Numeric α β]

/-- The checks at the end of `parse`. -/
def evaluate (l : SubjectList α β) : Option (Bool × SubjectList α β) :=
  let (ok, l) := l.allFinite
  if !ok then some (false, l) else l.calcMatrices

theorem parseRoot_rejected {l : SubjectList α β} {p : Data.SubjectList α β}
    (h : ContextRejected l p) (clearInactive : Bool) :
    l.parseRoot p clearInactive = some (false, l.adopted p) := by
  have hok : ((l.readTime p).adoptContext (readContext p)).1 = false := by
    rw [← Bool.not_eq_true]
    exact fun hok => (adoptContext_ok l p).mp hok h
  rw [parseRoot, adopted]
  generalize (l.readTime p).adoptContext (readContext p) = r at hok
  obtain ⟨ok, l'⟩ := r
  cases hok
  rfl

theorem parseRoot_adopted {l : SubjectList α β} {p : Data.SubjectList α β}
    (h : ¬ContextRejected l p) (clearInactive : Bool) :
    l.parseRoot p clearInactive = (populate p (l.kept clearInactive)).bind fun items =>
      { l.adopted p with mItems := items }.evaluate := by
  have hok := (adoptContext_ok l p).mpr h
  have hitems := adopted_mItems l p
  unfold parseRoot adopted kept at *
  generalize (l.readTime p).adoptContext (readContext p) = r at hok hitems
  obtain ⟨ok, l'⟩ := r
  cases hok
  dsimp only at hitems ⊢
  cases clearInactive with
  | true => rfl
  | false =>
    rw [← hitems]
    rfl

theorem evaluate_of_finite {l : SubjectList α β} (h : ItemsFinite l.mItems) :
    l.evaluate = l.calcMatrices := by
  rw [evaluate, allFinite, allFiniteItems_of_finite h]
  rfl

theorem evaluate_of_not {l : SubjectList α β} (h : ¬ItemsFinite l.mItems) :
    ∃ r, l.evaluate = some (false, r) := by
  obtain ⟨e, items, he⟩ := allFiniteItems_of_not h
  rw [evaluate, allFinite, he]
  exact ⟨_, rfl⟩

theorem calcMatrices_true_iff (l : SubjectList α β) :
    (∃ r, l.calcMatrices = some (true, r)) ↔ ItemsAcceptable l.mItems := by
  rw [← calcItems_ok_iff l.conversion, calcMatrices]
  cases calcItems l.conversion l.mItems with
  | none => simp
  | some r =>
    obtain ⟨e, items⟩ := r
    cases e <;> simp

theorem calcMatrices_eq_none_iff (l : SubjectList α β) : l.calcMatrices = none ↔ Starved l.mItems := by
  rw [← calcItems_eq_none_iff l.conversion, calcMatrices]
  cases calcItems l.conversion l.mItems with
  | none => simp
  | some r =>
    obtain ⟨e, items⟩ := r
    cases e <;> simp

theorem evaluate_true_iff (l : SubjectList α β) :
    (∃ r, l.evaluate = some (true, r)) ↔ ItemsAcceptable l.mItems := by
  by_cases h : ItemsFinite l.mItems
  · rw [evaluate_of_finite h, calcMatrices_true_iff]
  · obtain ⟨r, hr⟩ := evaluate_of_not h
    rw [hr]
    refine ⟨?_, ?_⟩
    · rintro ⟨r', hr'⟩
      cases hr'
    · exact fun ha => absurd ha.finite h

theorem evaluate_eq_none_iff (l : SubjectList α β) :
    l.evaluate = none ↔ ItemsFinite l.mItems ∧ Starved l.mItems := by
  by_cases h : ItemsFinite l.mItems
  · rw [evaluate_of_finite h, calcMatrices_eq_none_iff, and_iff_right h]
  · obtain ⟨r, hr⟩ := evaluate_of_not h
    simp [hr, h]

/-- The final checks either evaluate the subjects or stop at the first one that is not finite. -/
theorem evaluate_cases {l r : SubjectList α β} {b : Bool} (h : l.evaluate = some (b, r)) :
    (ItemsFinite l.mItems ∧ ∃ e, calcItems l.conversion l.mItems = some (e, r.mItems) ∧
      b = e.isNone ∧ r = { l with mItems := r.mItems, mError := e.getD l.mError }) ∨
    (¬ItemsFinite l.mItems ∧ ∃ e, allFiniteItems l.mItems = (some e, r.mItems) ∧
      b = false ∧ r = { l with mItems := r.mItems, mError := e }) := by
  by_cases hf : ItemsFinite l.mItems
  · rw [evaluate_of_finite hf, calcMatrices, Option.bind_eq_bind, Option.bind_eq_some_iff] at h
    obtain ⟨⟨e, items⟩, hi, h⟩ := h
    refine .inl ⟨hf, e, ?_⟩
    cases e <;> cases h <;> exact ⟨hi, rfl, rfl⟩
  · obtain ⟨e, items, he⟩ := allFiniteItems_of_not hf
    rw [evaluate, allFinite, he] at h
    cases h
    exact .inr ⟨hf, e, he, rfl, rfl⟩

/-- The final checks change computed fields and errors only. -/
theorem evaluate_frame {l r : SubjectList α β} {b : Bool} (h : l.evaluate = some (b, r)) :
    r.mItems.map Subject.bare = l.mItems.map Subject.bare ∧
      r = { l with mItems := r.mItems, mError := r.mError } := by
  obtain ⟨-, e, hi, -, hr⟩ | ⟨-, e, hi, -, hr⟩ := evaluate_cases h
  · refine ⟨bare_calcItems hi, ?_⟩
    rw [hr]
  · have hb := bare_allFiniteItems l.mItems
    rw [hi] at hb
    refine ⟨hb, ?_⟩
    rw [hr]

/-- `parse` accepts a packet it can read when it accepts every subject of the list
the packet leaves. -/
theorem parseRoot_true_iff (l : SubjectList α β) (p : Data.SubjectList α β) (clearInactive : Bool) :
    (∃ r, l.parseRoot p clearInactive = some (true, r)) ↔
      ¬ContextRejected l p ∧ p.Readable (l.kept clearInactive) ∧
        ItemsAcceptable (p.applied (l.kept clearInactive)) := by
  by_cases h : ContextRejected l p
  · simp [parseRoot_rejected h, h]
  · simp only [parseRoot_adopted h, Option.bind_eq_some_iff, populate_eq_some_iff, h,
      not_false_eq_true, true_and]
    refine ⟨?_, ?_⟩
    · rintro ⟨r, items, ⟨hr, rfl⟩, he⟩
      exact ⟨hr, (evaluate_true_iff _).mp ⟨r, he⟩⟩
    · rintro ⟨hr, ha⟩
      obtain ⟨r, he⟩ := (evaluate_true_iff { l.adopted p with mItems := p.applied _ }).mpr ha
      exact ⟨r, _, ⟨hr, rfl⟩, he⟩

theorem parseRoot_eq_none_iff (l : SubjectList α β) (p : Data.SubjectList α β)
    (clearInactive : Bool) :
    l.parseRoot p clearInactive = none ↔
      ¬ContextRejected l p ∧ (p.Readable (l.kept clearInactive) →
        ItemsFinite (p.applied (l.kept clearInactive)) ∧
          Starved (p.applied (l.kept clearInactive))) := by
  by_cases h : ContextRejected l p
  · simp [parseRoot_rejected h, h]
  · rw [parseRoot_adopted h, and_iff_right h, Option.bind_eq_none_iff]
    simp only [populate_eq_some_iff, evaluate_eq_none_iff]
    refine ⟨?_, ?_⟩
    · exact fun hall hr => hall _ ⟨hr, rfl⟩
    · rintro hs items ⟨hr, rfl⟩
      exact hs hr

/-- What a packet leaves when its context was not rejected, whether it was accepted or not. -/
theorem parseRoot_frame {l r : SubjectList α β} {p : Data.SubjectList α β} {clearInactive b : Bool}
    (hc : ¬ContextRejected l p) (h : l.parseRoot p clearInactive = some (b, r)) :
    r.mItems.map Subject.bare = (p.applied (l.kept clearInactive)).map Subject.bare ∧
      r = { l.adopted p with mItems := r.mItems, mError := r.mError } := by
  rw [parseRoot_adopted hc, Option.bind_eq_some_iff] at h
  obtain ⟨items, hi, he⟩ := h
  obtain ⟨-, rfl⟩ := (populate_eq_some_iff p _ items).mp hi
  exact evaluate_frame he

end SubjectList

end Open3DStream
