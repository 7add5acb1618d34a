import Open3DStream.Reread
import Open3DStream.Stopped

/-! Subjects that are evaluated, set back to what a packet says of them, and evaluated again. -/

namespace Open3DStream

open Evaluate Lib Subject

variable {α β : Type} [Numeric α β]

/-! ### One subject -/

/-- Evaluating the subject leaves finite matrices only: when it is accepted, and when its
evaluation stops. -/
def StaysFinite (conv : Option ConversionContext) (s : Subject α β) : Prop :=
  (Acceptable s.mTransforms → ConvertsFinite conv s) ∧
    (¬Acceptable s.mTransforms → StopsFinite s.mTransforms)

/-- Evaluating the subject twice is evaluating it once. -/
def Steady (conv : Option ConversionContext) (s : Subject α β) : Prop :=
  StaysFinite conv s ∧ (Acceptable s.mTransforms → ConvertsOnce conv s)

/-- Evaluating the subject shows nothing that was not there before. -/
def AtRest (conv : Option ConversionContext) (s : Subject α β) : Prop :=
  (Acceptable s.mTransforms →
    (∀ t ∈ s.mTransforms, t.localMatrix = t.mMatrix) ∧ ExpressedBy conv s) ∧
    (¬Acceptable s.mTransforms → StopsAtRest s.mTransforms)

section subject

variable {s s' : Subject α β} {conv : Option ConversionContext} {b : Bool}
  (h : s.calcMatrices conv = some (b, s'))
include h

theorem not_acceptable_of_false (hb : b = false) : ¬Acceptable s.mTransforms := by
  intro ha
  obtain ⟨s'', h'⟩ := (calcMatrices_true_iff s conv).mpr ha
  rw [h', hb] at h
  cases h

/-- What holds of the subject by the way its evaluation ends. -/
theorem outcome_iff {A B C : Prop} (hA : b = true → (A ↔ C)) (hB : b = false → (B ↔ C)) :
    ((Acceptable s.mTransforms → A) ∧ (¬Acceptable s.mTransforms → B)) ↔ C := by
  cases b with
  | true =>
    have hacc := (calcMatrices_true_iff s conv).mp ⟨s', h⟩
    rw [forall_prop_of_true hacc, hA rfl]
    exact and_iff_left fun hno => absurd hacc hno
  | false =>
    have hno := not_acceptable_of_false h rfl
    rw [forall_prop_of_true hno, hB rfl]
    exact and_iff_right fun hacc => absurd hacc hno

theorem staysFinite_iff (hfin : ∀ t ∈ s.mTransforms, t.allFinite = true) :
    StaysFinite conv s ↔ ∀ t ∈ s'.mTransforms, t.allFinite = true := by
  apply outcome_iff h
  · rintro rfl
    exact (calcMatrices_finite_iff h).symm
  · rintro rfl
    exact stopsFinite_iff h hfin

theorem atRest_iff (hfin : ∀ t ∈ s.mTransforms, t.allFinite = true) :
    AtRest conv s ↔ s'.visible = s.visible := by
  apply outcome_iff h
  · rintro rfl
    exact (visible_calcMatrices_iff h).symm
  · rintro rfl
    exact stopsAtRest_iff h hfin

/-- The second evaluation of a subject that the first one left finite. -/
theorem evaluated_again (hfin : ∀ t ∈ s.mTransforms, t.allFinite = true)
    (hfin' : ∀ t ∈ s'.mTransforms, t.allFinite = true) :
    ∃ s'', s'.calcMatrices conv = some (b, s'') ∧ (s''.visible = s'.visible ↔ Steady conv s) := by
  have hstays := (staysFinite_iff h hfin).mpr hfin'
  cases b with
  | true =>
    have hacc := (calcMatrices_true_iff s conv).mp ⟨s', h⟩
    obtain ⟨s'', h', hv⟩ := calcMatrices_succeeds_again h hfin'
    refine ⟨s'', h', hv.trans ?_⟩
    exact ⟨fun hc => ⟨hstays, fun _ => hc⟩, fun hs => hs.2 hacc⟩
  | false =>
    have hno := not_acceptable_of_false h rfl
    obtain ⟨e, h'⟩ := calcMatrices_fails_again h hfin hfin'
    exact ⟨_, h', iff_of_true rfl ⟨hstays, fun ha => absurd ha hno⟩⟩

end subject

/-! ### A list of subjects -/

/-- What the evaluation of a list leaves: it stops at the first subject that fails. -/
inductive Swept (conv : Option ConversionContext) :
    List (Subject α β) → List (Subject α β) → Prop
  | nil : Swept conv [] []
  | failed {s s' : Subject α β} (rest : List (Subject α β)) :
      s.calcMatrices conv = some (false, s') → Swept conv (s :: rest) (s' :: rest)
  | passed {s s' : Subject α β} {rest rest' : List (Subject α β)} :
      s.calcMatrices conv = some (true, s') → Swept conv rest rest' →
      Swept conv (s :: rest) (s' :: rest')

theorem swept_iff {conv : Option ConversionContext} {items items' : List (Subject α β)} :
    (∃ e, calcItems conv items = some (e, items')) ↔ Swept conv items items' := by
  refine ⟨?_, ?_⟩
  · rintro ⟨e, h⟩
    induction items generalizing items' e with
    | nil =>
      cases h
      exact .nil
    | cons s items ih =>
      obtain ⟨s', hs, -, rfl⟩ | ⟨s', rest, hs, hr, rfl⟩ := calcItems_cons h
      · exact .failed items hs
      · exact .passed hs (ih e hr)
  · intro h
    induction h with
    | nil => exact ⟨none, rfl⟩
    | failed rest hs => exact ⟨_, by rw [calcItems, hs]; rfl⟩
    | passed hs _ ih =>
      obtain ⟨e, he⟩ := ih
      exact ⟨e, by rw [calcItems, hs, Option.bind_eq_bind, Option.bind_some, he]; rfl⟩

/-- A property of the subjects that the evaluation of a list comes to. -/
def EachReached (P : Subject α β → Prop) : List (Subject α β) → Prop
  | [] => True
  | s :: rest => P s ∧ (Acceptable s.mTransforms → EachReached P rest)

section reached

variable {P Q : Subject α β → Prop} {s : Subject α β} {rest : List (Subject α β)}

theorem eachReached_cons (h : Acceptable s.mTransforms) :
    EachReached P (s :: rest) ↔ P s ∧ EachReached P rest := by
  rw [EachReached, forall_prop_of_true h]

theorem eachReached_last (h : ¬Acceptable s.mTransforms) : EachReached P (s :: rest) ↔ P s := by
  rw [EachReached, forall_prop_of_false h, and_true]

theorem EachReached.mono {items : List (Subject α β)} (h : EachReached P items)
    (hPQ : ∀ s, P s → Q s) : EachReached Q items := by
  induction items with
  | nil => trivial
  | cons s rest ih => exact ⟨hPQ s h.1, fun ha => ih (h.2 ha)⟩

end reached

section again

variable {p : Data.SubjectList α β} {conv : Option ConversionContext}

/-- A subject of a list that a packet has left. -/
structure Left (p : Data.SubjectList α β) (s : Subject α β) : Prop where
  stated : p.restate s = s
  apart : ∀ i ∈ p.identities, s.mUuid = i.uuid → s.kind = i.kind
  finite : ∀ t ∈ s.mTransforms, t.allFinite = true

section subject

variable {s s' : Subject α β} {b : Bool} (hs : Left p s)
  (h : s.calcMatrices conv = some (b, s'))
include hs h

theorem restate_finite_iff : (∀ t ∈ (p.restate s').mTransforms, t.allFinite = true) ↔
    (¬p.Defines s → StaysFinite conv s) := by
  have hb := bare_calcMatrices h
  by_cases hd : p.Defines s
  · have hts : (p.restate s').mTransforms = s.mTransforms :=
      congrArg (fun u => u.mTransforms) (p.restate_defined hd hs.apart hs.stated hb)
    rw [hts]
    exact iff_of_true hs.finite fun hk => absurd hd hk
  · rw [Data.SubjectList.restate_kept hd hs.stated hb, forall_prop_of_true hd]
    exact (staysFinite_iff h hs.finite).symm

theorem restate_visible_iff : (p.restate s').visible = s'.visible ↔
    (p.Defines s → AtRest conv s) := by
  have hb := bare_calcMatrices h
  by_cases hd : p.Defines s
  · rw [visible_of_silent (p.restate_defined hd hs.apart hs.stated hb), forall_prop_of_true hd,
      atRest_iff h hs.finite, eq_comm]
  · rw [Data.SubjectList.restate_kept hd hs.stated hb]
    exact iff_of_true rfl fun hk => absurd hk hd

theorem restate_again (hfin : ∀ t ∈ (p.restate s').mTransforms, t.allFinite = true) :
    ∃ s'', (p.restate s').calcMatrices conv = some (b, s'') ∧
      (s''.visible = s'.visible ↔ (¬p.Defines s → Steady conv s)) := by
  have hb := bare_calcMatrices h
  by_cases hd : p.Defines s
  · obtain ⟨s'', h', hsilent⟩ :=
      calcMatrices_silent (p.restate_defined hd hs.apart hs.stated hb) h
    exact ⟨s'', h', iff_of_true (visible_of_silent hsilent) fun hk => absurd hd hk⟩
  · rw [Data.SubjectList.restate_kept hd hs.stated hb] at hfin ⊢
    obtain ⟨s'', h', hv⟩ := evaluated_again h hs.finite hfin
    exact ⟨s'', h', by rw [hv, forall_prop_of_true hd]⟩

end subject

theorem restate_rest {rest : List (Subject α β)} (h : ∀ s ∈ rest, Left p s) :
    rest.map p.restate = rest :=
  (List.map_congr_left fun s hs => (h s hs).stated).trans (List.map_id rest)

variable {items items' : List (Subject α β)} (hitems : ∀ s ∈ items, Left p s)
  (h : Swept conv items items')
include hitems h

/-- Which lists are finite when the packet is read again. -/
theorem finite_again_iff : ItemsFinite (items'.map p.restate) ↔
    EachReached (fun s => ¬p.Defines s → StaysFinite conv s) items := by
  induction h with
  | nil => exact iff_of_true (fun s hs => absurd hs List.not_mem_nil) trivial
  | failed rest hs =>
    obtain ⟨hleft, hrest⟩ := List.forall_mem_cons.mp hitems
    have hfin : ItemsFinite rest := fun s hs => (hrest s hs).finite
    rw [eachReached_last (not_acceptable_of_false hs rfl), List.map_cons, restate_rest hrest,
      ← restate_finite_iff hleft hs, ItemsFinite, List.forall_mem_cons]
    exact and_iff_left hfin
  | passed hs hrest ih =>
    obtain ⟨hleft, hitems⟩ := List.forall_mem_cons.mp hitems
    have hacc := (calcMatrices_true_iff _ conv).mp ⟨_, hs⟩
    rw [eachReached_cons hacc, ← ih hitems, List.map_cons, ItemsFinite, List.forall_mem_cons,
      restate_finite_iff hleft hs]
    exact Iff.rfl

/-- Which lists look the same when the packet has been read again. -/
theorem visible_again_iff :
    (items'.map p.restate).map Subject.visible = items'.map Subject.visible ↔
      EachReached (fun s => p.Defines s → AtRest conv s) items := by
  induction h with
  | nil => exact iff_of_true rfl trivial
  | failed rest hs =>
    obtain ⟨hleft, hrest⟩ := List.forall_mem_cons.mp hitems
    rw [eachReached_last (not_acceptable_of_false hs rfl), List.map_cons, restate_rest hrest,
      ← restate_visible_iff hleft hs, List.map_cons, List.map_cons, List.cons.injEq]
    exact and_iff_left rfl
  | passed hs hrest ih =>
    obtain ⟨hleft, hitems⟩ := List.forall_mem_cons.mp hitems
    have hacc := (calcMatrices_true_iff _ conv).mp ⟨_, hs⟩
    rw [eachReached_cons hacc, ← ih hitems, ← restate_visible_iff hleft hs]
    simp only [List.map_cons, List.cons.injEq]

/-- The second evaluation, and when it shows what the first one did. -/
theorem swept_again (hfin : ItemsFinite (items'.map p.restate)) :
    ∃ items'', Swept conv (items'.map p.restate) items'' ∧
      (items''.map Subject.visible = items'.map Subject.visible ↔
        EachReached (fun s => ¬p.Defines s → Steady conv s) items) := by
  induction h with
  | nil => exact ⟨[], .nil, iff_of_true rfl trivial⟩
  | failed rest hs =>
    obtain ⟨hleft, hrest⟩ := List.forall_mem_cons.mp hitems
    obtain ⟨s'', hs'', hv⟩ := restate_again hleft hs (List.forall_mem_cons.mp hfin).1
    rw [List.map_cons, restate_rest hrest]
    refine ⟨s'' :: rest, .failed rest hs'', ?_⟩
    rw [eachReached_last (not_acceptable_of_false hs rfl), ← hv, List.map_cons, List.map_cons,
      List.cons.injEq]
    exact and_iff_left rfl
  | passed hs hrest ih =>
    obtain ⟨hleft, hitems⟩ := List.forall_mem_cons.mp hitems
    obtain ⟨hhead, htail⟩ := List.forall_mem_cons.mp hfin
    have hacc := (calcMatrices_true_iff _ conv).mp ⟨_, hs⟩
    obtain ⟨s'', hs'', hv⟩ := restate_again hleft hs hhead
    obtain ⟨rest'', hrest'', hvrest⟩ := ih hitems htail
    refine ⟨s'' :: rest'', .passed hs'' hrest'', ?_⟩
    rw [eachReached_cons hacc, ← hv, ← hvrest, List.map_cons, List.map_cons, List.cons.injEq]

end again

end Open3DStream
