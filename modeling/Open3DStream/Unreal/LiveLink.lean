import Open3DStream.Extended
import Open3DStream.Unreal.Roster

/-! What the client of a Live Link source can rely on. -/

namespace Open3DStream.Unreal

open Lib

variable {α β FName FMatrix FTransform FFrameTime : Type}
  {e : Engine α β FName FMatrix FTransform FFrameTime}

/-! ### Skeletons and frames -/

namespace Engine

/-- What a skeleton tells of a transform. -/
def outline (e : Engine α β FName FMatrix FTransform FFrameTime) (t : Transform α) : FName × Int :=
  (e.toFName (eraseNamespace (c_str t.mName)), t.mParentId)

theorem bone_outline {transforms : List (Transform α)} {t : Transform α} {b : Bone FName FTransform}
    (h : e.bone transforms t = some (some b)) : (b.name, b.parent) = e.outline t := by
  rw [bone] at h
  split at h
  · cases h
  · rw [Option.bind_eq_bind, Option.bind_eq_some_iff] at h
    obtain ⟨fTransform, -, h⟩ := h
    split at h
    · cases h
    · cases h
      rfl

theorem bones_outline {transforms ts : List (Transform α)} {bs : List (Bone FName FTransform)}
    (h : e.bones transforms ts = some (some bs)) :
    bs.map (fun b => (b.name, b.parent)) = ts.map e.outline := by
  induction ts generalizing bs with
  | nil =>
    cases h
    rfl
  | cons t ts ih =>
    rw [bones] at h
    split at h
    · cases h
    · cases h
    · obtain ⟨o, ho, h⟩ := Option.map_eq_some_iff.mp h
      obtain ⟨bs', rfl, rfl⟩ := Option.map_eq_some_iff.mp h
      rw [List.map_cons, List.map_cons, bone_outline ‹_›, ih ho]

/-- The library always finds the same skeleton under a name. -/
def Steady (e : Engine α β FName FMatrix FTransform FFrameTime)
    (skeleton : FName → List (FName × Int)) : Prop :=
  ∀ l data ok l', e.Parse l data = some (ok, l') →
    ∀ subject ∈ l'.mItems,
      subject.mTransforms.map e.outline = skeleton (e.toFName (c_str subject.mName))

end Engine

/-- Every frame has a transform for each bone of the skeleton that is known, which is the one
there is under the name. -/
structure Fits [DecidableEq FName] (skeleton : FName → List (FName × Int))
    (log : Tidings FName FTransform FFrameTime) : Prop where
  skeletons : ∀ k d, .introduced k d ∈ log → d = ⟨(skeleton k).map (·.1), (skeleton k).map (·.2)⟩
  frames : ∀ k frame now, .heard k frame now ∈ log → frame.Transforms.length = (skeleton k).length

namespace FOpen3DStreamSource

variable [DecidableEq FName] {s t : FOpen3DStreamSource α β FName FTransform FFrameTime} {k : FName}
  {skeleton : FName → List (FName × Int)}

theorem fits_heard (h : Fits skeleton s.tidings)
    {FrameData : FLiveLinkAnimationFrameData FTransform FFrameTime}
    (hlength : FrameData.Transforms.length = (skeleton k).length) (now : ℚ) :
    Fits skeleton (s.tidings ++ [.heard k FrameData now]) := by
  refine ⟨?_, ?_⟩
  · intro j d hm
    exact h.skeletons j d (by simpa using hm)
  · intro j frame u hm
    obtain hm | hm := List.mem_append.mp hm
    · exact h.frames j frame u hm
    · cases List.mem_singleton.mp hm
      exact hlength

theorem fits_append_of_silent {more : Tidings FName FTransform FFrameTime}
    (h : Fits skeleton s.tidings)
    (hskeletons : ∀ k d, .introduced k d ∉ more) (hframes : ∀ k frame now, .heard k frame now ∉ more) :
    Fits skeleton (s.tidings ++ more) := by
  refine ⟨?_, ?_⟩
  · intro j d hm
    exact h.skeletons j d ((List.mem_append.mp hm).resolve_right (hskeletons j d))
  · intro j frame now hm
    exact h.frames j frame now ((List.mem_append.mp hm).resolve_right (hframes j frame now))

theorem fits_onSubject (h : Fits skeleton s.tidings) {x : Subject α β × ℚ × ℚ}
    (hx : x.1.mTransforms.map e.outline = skeleton (e.toFName (c_str x.1.mName)))
    (ht : onSubject e s x = some t) : Fits skeleton t.tidings := by
  obtain ⟨_, rfl, rfl | ⟨FrameData, bones, hbones, hframe, -, hcase⟩⟩ := onSubject_cases ht
  · exact h
  · have houtline := (Engine.bones_outline hbones).trans hx
    have hlength : FrameData.Transforms.length =
        (skeleton (e.toFName (c_str x.1.mName))).length := by
      rw [hframe, ← houtline, List.length_map, List.length_map]
    obtain ⟨-, rfl⟩ | ⟨-, -, rfl⟩ := hcase
    · exact fits_heard h hlength x.2.2
    · refine fits_heard (s := { s with tidings := _ }) ⟨?_, ?_⟩ hlength x.2.2
      · intro j d hm
        obtain hm | hm := List.mem_append.mp hm
        · obtain hm | hm := List.mem_append.mp hm
          · exact h.skeletons j d hm
          · cases List.mem_singleton.mp hm
        · cases List.mem_singleton.mp hm
          rw [← houtline, List.map_map, List.map_map]
          rfl
      · intro j frame now hm
        exact h.frames j frame now (by simpa using hm)

theorem fits_step (he : e.Steady skeleton) (h : Fits skeleton s.tidings) {event : Event}
    (ht : step e s event = some t) : Fits skeleton t.tidings := by
  cases event with
  | data p =>
    rw [step] at ht
    split at ht
    · obtain rfl | ⟨s', ok, mSubjects, hparse, hs', hcase⟩ := OnPackage_cases ht
      · exact h
      · have hfits : Fits skeleton s'.tidings := by
          rw [hs']
          exact h
        obtain rfl | hloop := hcase
        · exact hfits
        · have hsubjects : ∀ x ∈ mSubjects.mItems.mapIdx fun i subject => (subject, p.Seconds i),
              x.1.mTransforms.map e.outline = skeleton (e.toFName (c_str x.1.mName)) := by
            intro x hx
            obtain ⟨i, hi, rfl⟩ := List.mem_mapIdx.mp hx
            exact he _ _ _ _ hparse _ (List.getElem_mem hi)
          clear hs' hparse
          generalize mSubjects.mItems.mapIdx _ = xs at hloop hsubjects
          induction xs generalizing s' with
          | nil =>
            cases hloop
            exact hfits
          | cons x xs ih =>
            obtain ⟨hx, hxs⟩ := List.forall_mem_cons.mp hsubjects
            obtain ⟨u, hu, hloop⟩ := foldlM_cons_eq_some_iff.mp hloop
            exact ih u (fits_onSubject hfits hx hu) hloop hxs
    · cases ht
      exact h
  | state msg =>
    cases ht
    exact h
  | Tick DeltaTime CurrentTime =>
    obtain ⟨-, u, hu, rfl⟩ | ⟨-, rfl⟩ := Tick_cases ht
    · rw [RemoveInactiveSubjects_eq] at hu
      split at hu
      case isFalse => cases hu
      cases hu
      change Fits skeleton (s.tidings ++ [.swept CurrentTime] ++ List.map _ _)
      rw [List.append_assoc]
      exact fits_append_of_silent h (by simp) (by simp)
    · exact h
  | RequestSourceShutdown =>
    cases ht
    exact h

/-! ### After the source has been closed -/

/-- The times at which a source that has waited for `since` searches for inactive subjects. -/
def checks : ℚ → List Event → List ℚ
  | _, [] => []
  | since, .Tick DeltaTime CurrentTime :: events =>
    if CheckInterval ≤ since + DeltaTime then CurrentTime :: checks 0 events
    else checks (since + DeltaTime) events
  | since, .data _ :: events => checks since events
  | since, .state _ :: events => checks since events
  | since, .RequestSourceShutdown :: events => checks since events

/-- Without a client a search goes through as long as it finds nothing. -/
theorem run_closed_eq_none_iff (hclient : s.Client = false) (hdata : s.OnData = false)
    (events : List Event) : s.run e events = none ↔
      ∃ now ∈ checks s.TimeSinceLastCheck events,
        inactive now s.SubjectLastUpdateTime.entries ≠ [] := by
  induction events generalizing s with
  | nil => simp [run, checks]
  | cons event events ih =>
    rw [run, List.foldlM_cons, Option.bind_eq_bind]
    cases event with
    | data p =>
      rw [step, hdata, checks, ← ih hclient hdata]
      rfl
    | state msg => exact ih (s := s.OnStatus msg) hclient hdata
    | RequestSourceShutdown => exact ih (s := s.RequestSourceShutdown) rfl rfl
    | Tick DeltaTime CurrentTime =>
      rw [step, Tick, checks]
      dsimp only
      split
      · rw [RemoveInactiveSubjects_eq, hclient]
        simp only [List.mem_cons, exists_eq_or_imp]
        by_cases hnone : inactive CurrentTime s.SubjectLastUpdateTime.entries = []
        · have hrest := ih (s := { s with
            TimeSinceLastCheck := 0
            InitializedSubjects := s.InitializedSubjects.filter (· ∉ [])
            tidings := s.tidings ++ [.swept CurrentTime] ++ [] }) hclient hdata
          simpa [hnone, forget, run, hclient] using hrest
        · simp [hnone]
      · exact ih (s := { s with TimeSinceLastCheck := s.TimeSinceLastCheck + DeltaTime })
          hclient hdata

end FOpen3DStreamSource

/-! ### A source that receives an actor -/

/-- Hips and a spine, at rest. -/
def actor : SubjectList Extended Extended :=
  let joint (mName : String) (mParentId : Int) : Transform Extended :=
    { (Transform.empty : Transform Extended) with mName := mName, mParentId := mParentId }
  { (SubjectList.empty 0 : SubjectList Extended Extended) with
    mItems := [{ Subject.make (α := Extended) .performer "uuid" with
      mName := "Actor"
      mTransforms := [joint "actor:Hips" (-1), joint "actor:Spine" 0] }] }

/-- Names do not tell case apart. The inverse is that of a matrix whose rows are orthonormal, and
every packet is one that leaves the actor. -/
def engine : Engine Extended Extended String (Matrix Extended) (Matrix Extended) Extended where
  Parse _ _ := some (true, actor)
  nan t := !t.allFinite
  toFName := String.toLower
  toFMatrix := id
  rot := ⟨fun i j => if i.val = 0 ∧ j.val = 0 ∨ i.val = 1 ∧ j.val = 2 ∨ i.val = 3 ∧ j.val = 3 then 1
    else if i.val = 2 ∧ j.val = 1 then (-1 : ℚ) else 0⟩
  mul := (· * ·)
  Mirror m := ⟨fun i j => if (j.val = 0) = (i.val = 1) ∨ j.val = 3 then m.coeff i j
    else Extended.lift (· - ·) 0 (m.coeff i j)⟩
  Inverse m := ⟨fun i j => m.coeff j i⟩
  SetFromMatrix := id
  ContainsNaN m := !m.allFinite
  AsFrameTime := id

namespace FOpen3DStreamSource

def received : FOpen3DStreamSource Extended Extended String (Matrix Extended) Extended :=
  (make "TCP Client" (SubjectList.empty 0)).ReceiveClient true

/-- The actor is heard of at the second second and at the third. -/
def twoPackets : List Event :=
  [.data ⟨[], fun _ => (2, 2)⟩, .Tick 4 4, .data ⟨[], fun _ => (3, 3)⟩]

theorem run_twoPackets : ∃ s, received.run engine twoPackets = some s := by
  rw [← Option.isSome_iff_exists]
  decide +kernel

theorem steady_engine : engine.Steady fun _ => [("hips", -1), ("spine", 0)] := by
  intro l data ok l' h subject hsubject
  cases h
  rw [List.mem_singleton.mp hsubject]
  decide +kernel

/-! ### Any run of a source -/

variable [DecidableEq FName] {s : FOpen3DStreamSource α β FName FTransform FFrameTime}
  {skeleton : FName → List (FName × Int)} {Protocol : String} {mSubjects : SubjectList α β}
  {started : Bool} {events : List Event}

end FOpen3DStreamSource

end Open3DStream.Unreal
