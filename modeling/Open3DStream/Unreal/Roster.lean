import Mathlib.Tactic.Linarith
import Open3DStream.Unreal.Source

/-! What the client of a Live Link source has been told, over runs of any length. -/

namespace Open3DStream.Unreal

open Lib

variable {α β FName FMatrix FTransform FFrameTime : Type}
  {e : Engine α β FName FMatrix FTransform FFrameTime}
  {s t : FOpen3DStreamSource α β FName FTransform FFrameTime}

namespace FOpen3DStreamSource

theorem tell_eq_some_iff {w : Tiding FName (FLiveLinkSkeletonStaticData FName)
      (FLiveLinkAnimationFrameData FTransform FFrameTime) ℚ} :
    s.tell w = some t ↔ s.Client = true ∧ t = { s with tidings := s.tidings ++ [w] } := by
  rw [tell]
  split
  · simp [*, eq_comm]
  · simp [*]

variable [DecidableEq FName] {k : FName}

theorem pushFrame_eq_some_iff {FrameData : FLiveLinkAnimationFrameData FTransform FFrameTime}
    {now : ℚ} : s.pushFrame k FrameData now = some t ↔ s.Client = true ∧ t = { s with
      tidings := s.tidings ++ [.heard k FrameData now]
      SubjectLastUpdateTime := s.SubjectLastUpdateTime.insert k now } := by
  rw [pushFrame, Option.bind_eq_bind, Option.bind_eq_some_iff]
  refine ⟨?_, ?_⟩
  · rintro ⟨u, hu, h⟩
    obtain ⟨hc, rfl⟩ := tell_eq_some_iff.mp hu
    cases h
    exact ⟨hc, rfl⟩
  · rintro ⟨hc, rfl⟩
    exact ⟨_, tell_eq_some_iff.mpr ⟨hc, rfl⟩, rfl⟩

omit [DecidableEq FName] in
theorem pushStatic_eq_some_iff {StaticData : FLiveLinkSkeletonStaticData FName} :
    s.pushStatic k StaticData = some t ↔ s.Client = true ∧ t = { s with
      tidings := s.tidings ++ [.dismissed k] ++ [.introduced k StaticData]
      InitializedSubjects := s.InitializedSubjects ++ [k] } := by
  rw [pushStatic, Option.bind_eq_bind, Option.bind_eq_some_iff]
  refine ⟨?_, ?_⟩
  · rintro ⟨u, hu, h⟩
    obtain ⟨hc, rfl⟩ := tell_eq_some_iff.mp hu
    rw [Option.bind_eq_some_iff] at h
    obtain ⟨v, hv, h⟩ := h
    obtain ⟨-, rfl⟩ := tell_eq_some_iff.mp hv
    cases h
    exact ⟨hc, rfl⟩
  · rintro ⟨hc, rfl⟩
    refine ⟨_, tell_eq_some_iff.mpr ⟨hc, rfl⟩, ?_⟩
    rw [Option.bind_eq_some_iff]
    exact ⟨_, tell_eq_some_iff.mpr ⟨hc, rfl⟩, rfl⟩

/-! ### The books -/

/-- The source's books agree with what it has told its client. -/
structure Kept (s : FOpen3DStreamSource α β FName FTransform FFrameTime) : Prop where
  orderly : Orderly s.tidings
  nodup : s.InitializedSubjects.Nodup
  mem_iff : ∀ k, k ∈ s.InitializedSubjects ↔ (known k s.tidings).isSome
  lookup_eq : ∀ k, s.SubjectLastUpdateTime.lookup k = lingering InactivityThreshold k s.tidings
  known_iff : ∀ k, (known k s.tidings).isSome ↔ (lingering InactivityThreshold k s.tidings).isSome

/-- The books are all that counts. -/
theorem Kept.congr (h : s.Kept) (htidings : t.tidings = s.tidings)
    (hinitialized : t.InitializedSubjects = s.InitializedSubjects)
    (htimes : t.SubjectLastUpdateTime = s.SubjectLastUpdateTime) : t.Kept := by
  refine ⟨?_, ?_, ?_, ?_, ?_⟩
  · exact htidings ▸ h.orderly
  · exact hinitialized ▸ h.nodup
  · rw [htidings, hinitialized]
    exact h.mem_iff
  · rw [htidings, htimes]
    exact h.lookup_eq
  · rw [htidings]
    exact h.known_iff

/-- A frame of a subject that the client knows. -/
theorem Kept.heard (h : s.Kept) (hk : k ∈ s.InitializedSubjects)
    (FrameData : FLiveLinkAnimationFrameData FTransform FFrameTime) (now : ℚ) :
    Kept { s with
      tidings := s.tidings ++ [.heard k FrameData now]
      SubjectLastUpdateTime := s.SubjectLastUpdateTime.insert k now } := by
  have hknown (j : FName) : known j (s.tidings ++ [.heard k FrameData now]) = known j s.tidings :=
    known_concat j _ _
  have hlingering (j : FName) : lingering InactivityThreshold j
      (s.tidings ++ [.heard k FrameData now]) =
        if k = j then some now else lingering InactivityThreshold j s.tidings :=
    lingering_concat _ j _ _
  refine ⟨orderly_concat_iff.mpr ⟨h.orderly, (h.mem_iff k).mp hk⟩, h.nodup, ?_, ?_, ?_⟩
  · intro j
    rw [hknown]
    exact h.mem_iff j
  · intro j
    rw [hlingering]
    split
    · subst j
      exact AList.lookup_insert _
    · rw [← h.lookup_eq]
      exact AList.lookup_insert_ne (Ne.symm ‹_›)
  · intro j
    rw [hknown, hlingering]
    split
    · subst j
      simp [(h.mem_iff k).mp hk]
    · exact h.known_iff j

/-- A subject that the client does not know is introduced, and then heard of. -/
theorem Kept.introduced (h : s.Kept) (hk : k ∉ s.InitializedSubjects)
    (StaticData : FLiveLinkSkeletonStaticData FName)
    (FrameData : FLiveLinkAnimationFrameData FTransform FFrameTime) (now : ℚ) :
    Kept { s with
      tidings := s.tidings ++ [.dismissed k] ++ [.introduced k StaticData] ++
        [.heard k FrameData now]
      InitializedSubjects := s.InitializedSubjects ++ [k]
      SubjectLastUpdateTime := s.SubjectLastUpdateTime.insert k now } := by
  have hknown (j : FName) : known j (s.tidings ++ [.dismissed k] ++ [.introduced k StaticData]) =
      if k = j then some StaticData else known j s.tidings := by
    rw [known_concat, known_concat]
    by_cases hj : k = j <;> simp [Tiding.learn, hj]
  have hlingering (j : FName) : lingering InactivityThreshold j
      (s.tidings ++ [.dismissed k] ++ [.introduced k StaticData] ++ [.heard k FrameData now]) =
        if k = j then some now else lingering InactivityThreshold j s.tidings := by
    rw [lingering_concat, lingering_concat, lingering_concat]
    rfl
  have hdismissed : known k (s.tidings ++ [.dismissed k]) = none := by
    rw [known_concat]
    simp [Tiding.learn]
  have horderly : Orderly (s.tidings ++ [.dismissed k] ++ [.introduced k StaticData]) :=
    orderly_concat_iff.mpr ⟨orderly_concat_iff.mpr ⟨h.orderly, trivial⟩, hdismissed⟩
  refine ⟨orderly_concat_iff.mpr ⟨horderly, ?_⟩, ?_, ?_, ?_, ?_⟩
  · change (known k _).isSome
    rw [hknown, if_pos rfl]
    rfl
  · refine List.nodup_append.mpr ⟨h.nodup, List.nodup_singleton k, ?_⟩
    intro a ha b hb hab
    exact hk (List.mem_singleton.mp hb ▸ hab ▸ ha)
  · intro j
    change _ ↔ (known j (_ ++ [.heard k FrameData now])).isSome
    rw [known_concat]
    change _ ↔ (known j _).isSome
    rw [hknown]
    split
    · subst j
      simp
    · rw [List.mem_append, List.mem_singleton, h.mem_iff]
      exact or_iff_left (Ne.symm ‹_›)
  · intro j
    rw [hlingering]
    split
    · subst j
      exact AList.lookup_insert _
    · rw [← h.lookup_eq]
      exact AList.lookup_insert_ne (Ne.symm ‹_›)
  · intro j
    rw [hlingering, known_concat]
    change (known j _).isSome ↔ _
    rw [hknown]
    split
    · simp
    · exact h.known_iff j

/-! ### Packages -/

/-- The ways to leave a turn of the loop over the subjects. -/
theorem onSubject_cases {x : Subject α β × ℚ × ℚ} (h : onSubject e s x = some t) :
    ∃ s', s' = { s with Frame := s.Frame + 1 } ∧ (t = s' ∨
      ∃ FrameData bones, e.bones x.1.mTransforms x.1.mTransforms = some (some bones) ∧
        FrameData.Transforms = bones.map (·.transform) ∧
        s.Client = true ∧
        ((e.toFName (c_str x.1.mName) ∈ s.InitializedSubjects ∧
          t = { s' with
            tidings := s.tidings ++ [.heard (e.toFName (c_str x.1.mName)) FrameData x.2.2]
            SubjectLastUpdateTime :=
              s.SubjectLastUpdateTime.insert (e.toFName (c_str x.1.mName)) x.2.2 }) ∨
        (e.toFName (c_str x.1.mName) ∉ s.InitializedSubjects ∧ bones ≠ [] ∧
          t = { s' with
            tidings := s.tidings ++ [.dismissed (e.toFName (c_str x.1.mName))] ++
              [.introduced (e.toFName (c_str x.1.mName))
                ⟨bones.map (·.name), bones.map (·.parent)⟩] ++
              [.heard (e.toFName (c_str x.1.mName)) FrameData x.2.2]
            InitializedSubjects := s.InitializedSubjects ++ [e.toFName (c_str x.1.mName)]
            SubjectLastUpdateTime :=
              s.SubjectLastUpdateTime.insert (e.toFName (c_str x.1.mName)) x.2.2 }))) := by
  obtain ⟨subject, WorldTime, now⟩ := x
  rw [onSubject, Option.bind_eq_bind, Option.bind_eq_some_iff] at h
  obtain ⟨o, hbones, h⟩ := h
  refine ⟨_, rfl, ?_⟩
  cases o with
  | none =>
    cases h
    exact .inl rfl
  | some bones =>
    dsimp only at h
    split at h
    · obtain ⟨hc, rfl⟩ := pushFrame_eq_some_iff.mp h
      exact .inr ⟨_, bones, hbones, rfl, hc, .inl ⟨‹_›, rfl⟩⟩
    · split at h
      · cases h
        exact .inl rfl
      · rw [Option.bind_eq_bind, Option.bind_eq_some_iff] at h
        obtain ⟨u, hu, h⟩ := h
        obtain ⟨hc, rfl⟩ := pushStatic_eq_some_iff.mp hu
        obtain ⟨-, rfl⟩ := pushFrame_eq_some_iff.mp h
        exact .inr ⟨_, bones, hbones, rfl, hc, .inr ⟨‹_›, ‹_›, rfl⟩⟩

theorem Kept.onSubject (h : s.Kept) {x : Subject α β × ℚ × ℚ} (ht : onSubject e s x = some t) :
    t.Kept := by
  have hs : Kept { s with Frame := s.Frame + 1 } := h.congr rfl rfl rfl
  obtain ⟨_, rfl, rfl | ⟨FrameData, bones, -, -, -, ⟨hk, rfl⟩ | ⟨hk, -, rfl⟩⟩⟩ := onSubject_cases ht
  · exact hs
  · exact hs.heard hk FrameData x.2.2
  · exact hs.introduced hk _ FrameData x.2.2

/-- The ways through a package: it is not for a source that is not valid, it does not parse, or
the loop over the subjects takes it. -/
theorem OnPackage_cases {p : Package} (h : s.OnPackage e p = some t) : t = s ∨
    ∃ s' ok mSubjects, e.Parse s.mSubjects p.data = some (ok, mSubjects) ∧
      s' = { s with mSubjects := mSubjects, SourceStatus := s'.SourceStatus, LogFlag := s'.LogFlag } ∧
      (t = s' ∨
        (mSubjects.mItems.mapIdx fun i subject => (subject, p.Seconds i)).foldlM
          (FOpen3DStreamSource.onSubject e) s' = some t) := by
  rw [OnPackage] at h
  split at h
  · cases h
    exact .inl rfl
  · rw [Option.bind_eq_bind, Option.bind_eq_some_iff] at h
    obtain ⟨⟨ok, mSubjects⟩, hparse, h⟩ := h
    have hold : e.Parse s.mSubjects p.data = some (ok, mSubjects) := by
      split at hparse <;> exact hparse
    dsimp only at h
    cases ok with
    | false =>
      cases h
      refine .inr ⟨_, false, mSubjects, hold, ?_, .inl rfl⟩
      split <;> rfl
    | true =>
      refine .inr ⟨_, true, mSubjects, hold, ?_, .inr h⟩
      split <;> rfl

theorem Kept.OnPackage (h : s.Kept) {p : Package} (ht : s.OnPackage e p = some t) : t.Kept := by
  obtain rfl | ⟨s', ok, mSubjects, -, hs', hcase⟩ := OnPackage_cases ht
  · exact h
  · have hkept : s'.Kept := by
      rw [hs']
      exact h.congr rfl rfl rfl
    obtain rfl | hloop := hcase
    · exact hkept
    · exact foldlM_keeps (fun _ _ _ hu hv => Kept.onSubject hu hv) hkept hloop

/-! ### Searches -/

/-- The subjects of the entries that are found inactive. -/
def inactive (CurrentTime : ℚ) (entries : List (Sigma fun _ : FName => ℚ)) : List FName :=
  (entries.filter fun entry => InactivityThreshold < CurrentTime - entry.2).map (·.1)

/-- What is left of a source when subjects are removed. -/
def forget (ks : List FName) (s : FOpen3DStreamSource α β FName FTransform FFrameTime) :
    FOpen3DStreamSource α β FName FTransform FFrameTime :=
  { s with
    SubjectLastUpdateTime := ks.foldl (fun times k => times.erase k) s.SubjectLastUpdateTime
    InitializedSubjects := s.InitializedSubjects.filter (· ∉ ks)
    tidings := s.tidings ++ ks.map .dismissed }

/-- The loop removes the inactive subjects, if there is a client to tell of it. -/
theorem foldlM_removeInactive (CurrentTime : ℚ) (entries : List (Sigma fun _ : FName => ℚ))
    (s : FOpen3DStreamSource α β FName FTransform FFrameTime) :
    entries.foldlM (removeInactive CurrentTime) s =
      if s.Client = true ∨ inactive CurrentTime entries = [] then
        some (s.forget (inactive CurrentTime entries))
      else none := by
  induction entries generalizing s with
  | nil => simp [inactive, forget]
  | cons entry entries ih =>
    rw [List.foldlM_cons, Option.bind_eq_bind, removeInactive]
    by_cases hold : InactivityThreshold < CurrentTime - entry.2
    · have hinactive : inactive CurrentTime (entry :: entries) =
          entry.1 :: inactive CurrentTime entries := by
        simp [inactive, hold]
      rw [if_pos hold, hinactive]
      cases hc : s.Client with
      | false => simp [tell]
      | true =>
        simp only [tell, hc, if_true, Option.bind_eq_bind, Option.bind_some, ih, true_or, forget,
          List.map_cons, List.append_assoc, List.singleton_append, List.foldl_cons,
          List.filter_filter, List.mem_cons, not_or, ne_eq, decide_not, Bool.decide_and]
        congr 3
        funext k
        exact Bool.and_comm _ _
    · have hinactive : inactive CurrentTime (entry :: entries) = inactive CurrentTime entries := by
        simp [inactive, hold]
      rw [if_neg hold, hinactive, Option.bind_some, ih]

theorem RemoveInactiveSubjects_eq (s : FOpen3DStreamSource α β FName FTransform FFrameTime)
    (CurrentTime : ℚ) : s.RemoveInactiveSubjects CurrentTime =
      if s.Client = true ∨ inactive CurrentTime s.SubjectLastUpdateTime.entries = [] then
        some (forget (inactive CurrentTime s.SubjectLastUpdateTime.entries)
          { s with tidings := s.tidings ++ [.swept CurrentTime] })
      else none :=
  foldlM_removeInactive CurrentTime _ _

theorem mem_inactive_iff {CurrentTime : ℚ} {times : AList fun _ : FName => ℚ} :
    k ∈ inactive CurrentTime times.entries ↔
      ∃ u, times.lookup k = some u ∧ InactivityThreshold < CurrentTime - u := by
  rw [inactive, List.mem_map]
  refine ⟨?_, ?_⟩
  · rintro ⟨⟨j, u⟩, hm, rfl⟩
    obtain ⟨hm, hold⟩ := List.mem_filter.mp hm
    exact ⟨u, AList.mem_lookup_iff.mpr hm, of_decide_eq_true hold⟩
  · rintro ⟨u, hu, hold⟩
    exact ⟨⟨k, u⟩, List.mem_filter.mpr ⟨AList.mem_lookup_iff.mp hu, decide_eq_true hold⟩, rfl⟩

theorem lookup_foldl_erase (ks : List FName) (times : AList fun _ : FName => ℚ) (k : FName) :
    (ks.foldl (fun times k => times.erase k) times).lookup k =
      if k ∈ ks then none else times.lookup k := by
  induction ks generalizing times with
  | nil => simp
  | cons j ks ih =>
    rw [List.foldl_cons, ih]
    by_cases hk : k ∈ ks
    · simp [hk]
    · by_cases hj : k = j
      · subst hj
        simp [hk]
      · simp [hk, hj, AList.lookup_erase_ne hj]

theorem known_dismissed (ks : List FName) (log : Tidings FName FTransform FFrameTime) (k : FName) :
    known k (log ++ ks.map .dismissed) = if k ∈ ks then none else known k log := by
  induction ks using List.reverseRecOn with
  | nil => simp
  | append_singleton ks j ih =>
    rw [List.map_append, List.map_singleton, ← List.append_assoc, known_concat, ih]
    by_cases hj : j = k
    · simp [Tiding.learn, hj]
    · simp [Tiding.learn, hj, Ne.symm hj]

theorem lingering_dismissed (ks : List FName) (log : Tidings FName FTransform FFrameTime)
    (k : FName) : lingering InactivityThreshold k (log ++ ks.map .dismissed) =
      lingering InactivityThreshold k log := by
  induction ks using List.reverseRecOn with
  | nil => simp
  | append_singleton ks j ih =>
    rw [List.map_append, List.map_singleton, ← List.append_assoc, lingering_concat]
    exact ih

theorem orderly_dismissed {log : Tidings FName FTransform FFrameTime} (h : Orderly log)
    (ks : List FName) : Orderly (log ++ ks.map .dismissed) := by
  induction ks using List.reverseRecOn with
  | nil => simpa using h
  | append_singleton ks j ih =>
    rw [List.map_append, List.map_singleton, ← List.append_assoc]
    exact orderly_concat_iff.mpr ⟨ih, trivial⟩

theorem Kept.RemoveInactiveSubjects (h : s.Kept) {CurrentTime : ℚ}
    (ht : s.RemoveInactiveSubjects CurrentTime = some t) : t.Kept := by
  rw [RemoveInactiveSubjects_eq] at ht
  split at ht
  case isFalse => cases ht
  cases ht
  let ks := inactive CurrentTime s.SubjectLastUpdateTime.entries
  have hswept (k : FName) : lingering InactivityThreshold k
      (s.tidings ++ [.swept CurrentTime] ++ ks.map .dismissed) =
        if k ∈ ks then none else lingering InactivityThreshold k s.tidings := by
    have hks : k ∈ ks ↔ ∃ u, s.SubjectLastUpdateTime.lookup k = some u ∧
        InactivityThreshold < CurrentTime - u := mem_inactive_iff
    rw [lingering_dismissed, lingering_concat, Tiding.keep, ← h.lookup_eq]
    simp only [hks]
    cases s.SubjectLastUpdateTime.lookup k with
    | none => simp
    | some u => by_cases hold : InactivityThreshold < CurrentTime - u <;> simp [Option.filter, hold]
  have hknown (k : FName) : known k (s.tidings ++ [.swept CurrentTime] ++ ks.map .dismissed) =
      if k ∈ ks then none else known k s.tidings := by
    rw [known_dismissed, known_concat]
    rfl
  have horderly : Orderly (s.tidings ++ [.swept CurrentTime]) :=
    orderly_concat_iff.mpr ⟨h.orderly, trivial⟩
  refine ⟨orderly_dismissed horderly ks, h.nodup.filter _, ?_, ?_, ?_⟩
  · intro k
    change k ∈ s.InitializedSubjects.filter (· ∉ ks) ↔
      (known k (s.tidings ++ [.swept CurrentTime] ++ ks.map .dismissed)).isSome
    rw [hknown, List.mem_filter, h.mem_iff]
    by_cases hk : k ∈ ks <;> simp [hk]
  · intro k
    change (ks.foldl (fun times k => times.erase k) s.SubjectLastUpdateTime).lookup k =
      lingering InactivityThreshold k (s.tidings ++ [.swept CurrentTime] ++ ks.map .dismissed)
    rw [hswept, lookup_foldl_erase, h.lookup_eq]
  · intro k
    change (known k (s.tidings ++ [.swept CurrentTime] ++ ks.map .dismissed)).isSome ↔
      (lingering InactivityThreshold k
        (s.tidings ++ [.swept CurrentTime] ++ ks.map .dismissed)).isSome
    rw [hswept, hknown]
    split
    · simp
    · exact h.known_iff k

/-- A tick either searches for inactive subjects or lets the time pass. -/
theorem Tick_cases {DeltaTime CurrentTime : ℚ} (h : s.Tick DeltaTime CurrentTime = some t) :
    (CheckInterval ≤ s.TimeSinceLastCheck + DeltaTime ∧
      ∃ u, FOpen3DStreamSource.RemoveInactiveSubjects
          { s with TimeSinceLastCheck := s.TimeSinceLastCheck + DeltaTime } CurrentTime = some u ∧
        t = { u with TimeSinceLastCheck := 0 }) ∨
    (¬CheckInterval ≤ s.TimeSinceLastCheck + DeltaTime ∧
      t = { s with TimeSinceLastCheck := s.TimeSinceLastCheck + DeltaTime }) := by
  rw [Tick] at h
  dsimp only at h
  split at h
  · rw [Option.bind_eq_bind, Option.bind_eq_some_iff] at h
    obtain ⟨u, hu, h⟩ := h
    cases h
    exact .inl ⟨‹_›, u, hu, rfl⟩
  · cases h
    exact .inr ⟨‹_›, rfl⟩

/-! ### Runs -/

theorem Kept.step (h : s.Kept) {event : Event} (ht : step e s event = some t) : t.Kept := by
  cases event with
  | data p =>
    rw [FOpen3DStreamSource.step] at ht
    split at ht
    · exact h.OnPackage ht
    · cases ht
      exact h
  | state msg =>
    cases ht
    exact h.congr rfl rfl rfl
  | Tick DeltaTime CurrentTime =>
    obtain ⟨-, u, hu, rfl⟩ | ⟨-, rfl⟩ := Tick_cases ht
    · have hkept : Kept { s with TimeSinceLastCheck := s.TimeSinceLastCheck + DeltaTime } :=
        h.congr rfl rfl rfl
      exact (hkept.RemoveInactiveSubjects hu).congr rfl rfl rfl
    · exact h.congr rfl rfl rfl
  | RequestSourceShutdown =>
    cases ht
    exact h.congr rfl rfl rfl

theorem kept_received (Protocol : String) (mSubjects : SubjectList α β) (started : Bool) :
    Kept ((make Protocol mSubjects :
      FOpen3DStreamSource α β FName FTransform FFrameTime).ReceiveClient started) :=
  ⟨orderly_nil, List.nodup_nil, fun _ => by simp [make, ReceiveClient, known],
    fun _ => AList.lookup_empty _, fun _ => by simp [make, ReceiveClient, known, lingering]⟩

theorem Kept.run (h : s.Kept) {events : List Event} (ht : s.run e events = some t) : t.Kept :=
  foldlM_keeps (fun _ _ _ hu hv => Kept.step hu hv) h ht

end FOpen3DStreamSource

end Open3DStream.Unreal
