import Open3DStream.Convert
import Open3DStream.Keyframe

/-! A full packet that is parsed twice in a row. -/

namespace Open3DStream

open Evaluate Lib Subject

variable {α β : Type} [Numeric α β]

/-! ### The same packet can be read again -/

theorem owner_again {p : Data.SubjectList α β} {items items' : List (Subject α β)}
    (hp : p.Readable items) (hb : items'.map Subject.bare = (p.applied items).map Subject.bare)
    (uuid : String) : owner uuid items' =
      ownerAfter (p.declaredPerformers ++ p.declaredRigidbodies ++ p.declaredCameras) items uuid := by
  have hids : items'.map Subject.identity = (p.applied items).map Subject.identity :=
    map_of_bare (g := Subject.identity) (fun _ => rfl) hb
  rw [← owner_identity, hids, owner_identity, Data.SubjectList.applied,
    Data.SubjectList.withCameras, owner_updates finishes_readLens,
    owner_definitions finishes_readFilmBack hp.cameras,
    ← Data.SubjectList.ownerAfter_withRigidbodies hp.performers hp.rigidbodies]
  rfl

omit [Numeric α β] in
/-- Declarations of other types do not make a uuid lead to a type. -/
theorem UpdatePresent.again {T : SubjectKind} {declared : List (SubjectKind × String)}
    (more : List (SubjectKind × String))
    {items items' : List (Subject α β)} {data : Option (Data.SubjectUpdate β)}
    (ho : ∀ uuid, owner uuid items' = ownerAfter (declared ++ more) items uuid)
    (hmore : ∀ e ∈ more, e.1 ≠ T) (h : UpdatePresent T (ownerAfter declared items) data) :
    UpdatePresent T (ownerAfter declared items') data := by
  obtain ⟨u, uuid, hu, huuid, hc⟩ := h
  refine ⟨u, uuid, hu, huuid, fun hT => hc ?_⟩
  rw [ownerAfter, ho, ownerAfter_append] at hT
  cases hd : ownerAfter declared items uuid with
  | some K =>
    rw [hd] at hT
    exact hT
  | none =>
    rw [ownerAfter, Option.or_eq_none_iff] at hd
    rw [ownerAfter, hd.1, hd.2, Option.or_none, Option.none_or, Option.none_or,
      Option.map_eq_some_iff] at hT
    obtain ⟨e, he, hk⟩ := hT
    exact absurd hk (hmore e (List.mem_of_find?_eq_some he))

theorem kind_of_declarations {δ : Type} {T : SubjectKind}
    {body : δ → Option (Data.SubjectData β)} {ds : List δ} {e : SubjectKind × String}
    (h : e ∈ declarations T body ds) : e.1 = T := by
  obtain ⟨d, -, rfl⟩ := List.mem_map.mp h
  rfl

theorem Data.SubjectList.Readable.again {p : Data.SubjectList α β}
    {items items' : List (Subject α β)} (h : p.Readable items)
    (hb : items'.map Subject.bare = (p.applied items).map Subject.bare) : p.Readable items' := by
  have ho := owner_again h hb
  refine ⟨h.performers, ?_, h.rigidbodies, ?_, h.cameras, ?_⟩
  · intro u hu
    refine (h.performerUpdates u hu).again (p.declaredRigidbodies ++ p.declaredCameras)
      (fun uuid => ?_) (fun e he => ?_)
    · rw [ho, List.append_assoc]
    · obtain he | he := List.mem_append.mp he
      · rw [kind_of_declarations he]
        exact nofun
      · rw [kind_of_declarations he]
        exact nofun
  · intro u hu
    refine (h.rigidbodyUpdates u hu).again p.declaredCameras ho fun e he => ?_
    rw [kind_of_declarations he]
    exact nofun
  · intro u hu
    refine (h.cameraUpdates u hu).again [] (fun uuid => ?_) fun e he =>
      absurd he List.not_mem_nil
    rw [ho, List.append_nil]

/-! ### The whole list -/

theorem silent_allFiniteItems (items : List (Subject α β)) :
    (allFiniteItems items).2.map Subject.silent = items.map Subject.silent := by
  have hone (s : Subject α β) : s.allFinite.2.silent = s.silent := by
    rw [Subject.allFinite]
    split <;> rfl
  induction items with
  | nil => rfl
  | cons s items ih =>
    rw [allFiniteItems]
    dsimp only
    rw [ite_bool_not]
    split
    · rw [List.map_cons, List.map_cons, ih, hone]
    · rw [List.map_cons, List.map_cons, hone]

omit [Numeric α β] in
theorem visible_map_of_silent {items items' : List (Subject α β)}
    (h : items'.map Subject.silent = items.map Subject.silent) :
    items'.map Subject.visible = items.map Subject.visible := by
  have hmap (us : List (Subject α β)) :
      us.map Subject.visible = (us.map Subject.silent).map Subject.visible := by
    rw [List.map_map]
    rfl
  rw [hmap, h, ← hmap]

theorem itemsFinite_of_silent {items items' : List (Subject α β)}
    (h : items'.map Subject.silent = items.map Subject.silent) :
    ItemsFinite items' ↔ ItemsFinite items := by
  have hmap (us : List (Subject α β)) : ItemsFinite us ↔ ItemsFinite (us.map Subject.silent) := by
    rw [ItemsFinite, ItemsFinite, List.forall_mem_map]
    exact Iff.rfl
  rw [hmap, h, ← hmap]

/-- Where the last checks of `parse` leave a list. -/
def Ends (conv : Option ConversionContext) (items items' : List (Subject α β)) : Prop :=
  (¬ItemsFinite items ∧ items'.map Subject.silent = items.map Subject.silent) ∨
    (ItemsFinite items ∧ Swept conv items items')

theorem ends_of_evaluate {l r : SubjectList α β} {b : Bool} (h : l.evaluate = some (b, r)) :
    Ends l.conversion l.mItems r.mItems := by
  obtain ⟨hf, e, hi, -⟩ | ⟨hf, e, hi, -⟩ := SubjectList.evaluate_cases h
  · exact .inr ⟨hf, swept_iff.mp ⟨e, hi⟩⟩
  · have hsilent := silent_allFiniteItems l.mItems
    rw [hi] at hsilent
    exact .inl ⟨hf, hsilent⟩

theorem evaluate_of_swept {l : SubjectList α β} {items : List (Subject α β)}
    (hf : ItemsFinite l.mItems) (h : Swept l.conversion l.mItems items) :
    ∃ b r, l.evaluate = some (b, r) ∧ r.mItems = items := by
  obtain ⟨e, he⟩ := swept_iff.mpr h
  rw [SubjectList.evaluate_of_finite hf, SubjectList.calcMatrices, he, Option.bind_eq_bind,
    Option.bind_some]
  cases e <;> exact ⟨_, _, rfl, rfl⟩

theorem evaluate_of_not_finite {l : SubjectList α β} (hf : ¬ItemsFinite l.mItems) :
    ∃ b r, l.evaluate = some (b, r) ∧
      r.mItems.map Subject.silent = l.mItems.map Subject.silent := by
  obtain ⟨r, hr⟩ := SubjectList.evaluate_of_not hf
  obtain ⟨-, h⟩ | ⟨h, -⟩ := ends_of_evaluate hr
  · exact ⟨false, r, hr, h⟩
  · exact absurd h hf

theorem swept_congr {c c' : Option ConversionContext}
    (hc : ∀ m : Matrix α, convertWorld c m = convertWorld c' m)
    {items items' : List (Subject α β)} (h : Swept c items items') : Swept c' items items' := by
  have hconvert (ts : List (Transform α)) : convert c ts = convert c' ts := by
    simp only [convert_eq, hc]
  have hcalc (s : Subject α β) : s.calcMatrices c = s.calcMatrices c' := by
    simp only [calcMatrices, hconvert]
  induction h with
  | nil => exact .nil
  | failed rest hs => exact .failed rest (hcalc _ ▸ hs)
  | passed hs _ ih => exact .passed (hcalc _ ▸ hs) ih

namespace SubjectList

omit [Numeric α β] in
theorem adopted_context (l : SubjectList α β) (p : Data.SubjectList α β) :
    (l.adopted p).mContext = if l.mContext.valid then l.mContext else readContext p := by
  rw [adopted, adoptContext]
  have hc : (l.readTime p).mContext = l.mContext := rfl
  rw [hc]
  cases l.mContext.valid with
  | false => rfl
  | true =>
    rw [Bool.not_true, if_neg Bool.false_ne_true, if_pos rfl]
    dsimp only
    split <;> exact hc

/-- The second time a packet is converted as the first time, or not at all where its
context was adopted. -/
theorem conversion_again {l r : SubjectList α β} {p : Data.SubjectList α β}
    (hr : r.mContext = (l.adopted p).mContext) (m : Matrix α) :
    convertWorld (r.adopted p).conversion m = convertWorld (l.adopted p).conversion m := by
  rw [adopted_conversion, adopted_conversion, hr, adopted_context]
  cases hl : l.mContext.valid with
  | true =>
    simp only [if_true, hl]
  | false =>
    simp only [Bool.false_eq_true, if_false]
    cases hp : (readContext p).valid with
    | false => rfl
    | true =>
      let c := ConversionContext.make (readContext p) (readContext p)
      have hvalid : c.IsValid = true := by rw [IsValid_make, hp]; rfl
      have hid : c.Initialize.isIdentity = true := (converts_make hp hp).isIdentity hp
      simp only [if_true, convertWorld]
      rw [if_pos hvalid, hid]
      rfl

/-- The uuids of a list and of a packet's definitions are of one type each. -/
def UuidsApart (l : SubjectList α β) (p : Data.SubjectList α β) : Prop :=
  Separated Identity.kind Identity.uuid (l.mItems.map Subject.identity ++ p.identities)

/-- When a packet that is parsed twice leaves what it left the first time. Of the subjects
that the evaluation comes to, either those that the packet does not define stay finite and
are not converted further; or one of them does not, so that the second evaluation is off,
and those that the packet defines look as if they had not been evaluated. -/
def Repeatable (l : SubjectList α β) (p : Data.SubjectList α β) : Prop :=
  let items := p.applied l.mItems
  let conv := (l.adopted p).conversion
  ContextRejected l p ∨ ¬ItemsFinite items ∨
    EachReached (fun s => ¬p.Defines s → Steady conv s) items ∨
    (¬EachReached (fun s => ¬p.Defines s → StaysFinite conv s) items ∧
      EachReached (fun s => p.Defines s → AtRest conv s) items)

theorem left_of_applied {l : SubjectList α β} {p : Data.SubjectList α β}
    (hn : (l.mItems.map (·.mUuid)).Nodup) (ha : l.UuidsApart p)
    (hfin : ItemsFinite (p.applied l.mItems)) : ∀ s ∈ p.applied l.mItems, Left p s := by
  intro s hs
  exact ⟨Data.SubjectList.restate_of_mem hn ha hs,
    (Data.SubjectList.applied_stated hn ha).apart s hs, hfin s hs⟩

/-- A second packet meets the subjects as the first one left them. -/
theorem applied_again {l : SubjectList α β} {p : Data.SubjectList α β}
    (hn : (l.mItems.map (·.mUuid)).Nodup) (ha : l.UuidsApart p) {items : List (Subject α β)}
    (hb : items.map Subject.bare = (p.applied l.mItems).map Subject.bare) :
    p.applied items = items.map p.restate := by
  have hlists := Data.SubjectList.lists_applied hn ha
  have huuids : items.map (·.mUuid) = (p.applied l.mItems).map (·.mUuid) :=
    map_of_bare (g := fun s => s.mUuid) (fun _ => rfl) hb
  have hids : items.map Subject.identity = (p.applied l.mItems).map Subject.identity :=
    map_of_bare (g := Subject.identity) (fun _ => rfl) hb
  refine Data.SubjectList.applied_eq_map ⟨huuids ▸ hlists.nodup, ?_⟩
  intro i hi
  rw [← owner_identity, hids, owner_identity]
  exact hlists.owned i hi

/-- Errors do not matter to what a packet says. -/
theorem silent_again {l : SubjectList α β} {p : Data.SubjectList α β}
    (hn : (l.mItems.map (·.mUuid)).Nodup) (ha : l.UuidsApart p) {items : List (Subject α β)}
    (h : items.map Subject.silent = (p.applied l.mItems).map Subject.silent) :
    (items.map p.restate).map Subject.silent = items.map Subject.silent := by
  have hcomm (us : List (Subject α β)) :
      (us.map p.restate).map Subject.silent = (us.map Subject.silent).map p.restate := by
    rw [List.map_map, List.map_map]
    exact List.map_congr_left fun s _ => silent_amends p.entries s
  have hstated : (p.applied l.mItems).map p.restate = p.applied l.mItems :=
    (List.map_congr_left fun s hs => Data.SubjectList.restate_of_mem hn ha hs).trans
      (List.map_id _)
  rw [hcomm, h, ← hcomm, hstated]

/-- The evaluation of what a second packet finds, after the first one has been evaluated to
`items`. -/
theorem evaluate_again {l l' : SubjectList α β} {p : Data.SubjectList α β}
    (hn : (l.mItems.map (·.mUuid)).Nodup) (ha : l.UuidsApart p) (hc : ¬ContextRejected l p)
    {items : List (Subject α β)} (hl' : l'.mItems = items.map p.restate)
    (hconv : ∀ m : Matrix α, convertWorld l'.conversion m = convertWorld (l.adopted p).conversion m)
    (hends : Ends (l.adopted p).conversion (p.applied l.mItems) items) :
    ∃ b r, l'.evaluate = some (b, r) ∧
      (r.mItems.map Subject.visible = items.map Subject.visible ↔ Repeatable l p) := by
  obtain ⟨hnf, hsilent⟩ | ⟨hf, hswept⟩ := hends
  · -- the packet leaves something that is not finite, so neither call evaluates anything
    have hagain := silent_again hn ha hsilent
    have hnf' : ¬ItemsFinite l'.mItems := by
      rw [hl', itemsFinite_of_silent (hagain.trans hsilent)]
      exact hnf
    obtain ⟨b, r, hr, hv⟩ := evaluate_of_not_finite hnf'
    rw [hl'] at hv
    exact ⟨b, r, hr, iff_of_true (visible_map_of_silent (hv.trans hagain)) (.inr (.inl hnf))⟩
  · have hleft := left_of_applied hn ha hf
    have hfinite := finite_again_iff hleft hswept
    by_cases hf' : ItemsFinite (items.map p.restate)
    · obtain ⟨items', hitems', hv⟩ := swept_again hleft hswept hf'
      have hswept' := swept_congr (fun m => (hconv m).symm) hitems'
      rw [← hl'] at hf' hswept'
      obtain ⟨b, r, hr, rfl⟩ := evaluate_of_swept hf' hswept'
      rw [hl'] at hf'
      refine ⟨b, r, hr, hv.trans ⟨fun hs => .inr (.inr (.inl hs)), ?_⟩⟩
      rintro (h | h | h | ⟨h, -⟩)
      · exact absurd h hc
      · exact absurd hf h
      · exact h
      · exact absurd (hfinite.mp hf') h
    · obtain ⟨b, r, hr, hv⟩ := evaluate_of_not_finite (hl' ▸ hf')
      rw [hl'] at hv
      refine ⟨b, r, hr, ?_⟩
      rw [visible_map_of_silent hv, visible_again_iff hleft hswept]
      have hnot := mt hfinite.mpr hf'
      refine ⟨fun hs => .inr (.inr (.inr ⟨hnot, hs⟩)), ?_⟩
      rintro (h | h | h | ⟨-, h⟩)
      · exact absurd h hc
      · exact absurd hf h
      · exact absurd (h.mono fun s hs hk => (hs hk).1) hnot
      · exact h

theorem parseRoot_twice_iff {l r r₀ : SubjectList α β} {p : Data.SubjectList α β} {b : Bool}
    (hn : (l.mItems.map (·.mUuid)).Nodup) (ha : l.UuidsApart p)
    (h : l.parseRoot p false = some (b, r)) (hr₀ : r₀ = { r with mError := "" }) :
    ∃ b' r', r₀.parseRoot p false = some (b', r') ∧
      (r'.mItems.map Subject.visible = r.mItems.map Subject.visible ↔ Repeatable l p) := by
  by_cases hc : ContextRejected l p
  · rw [parseRoot_rejected hc] at h
    cases h
    have hctx : r₀.mContext = l.mContext := by
      rw [hr₀]
      change (l.adopted p).mContext = l.mContext
      rw [adopted_context, if_pos hc.1]
    have hc' : ContextRejected r₀ p := by
      rw [ContextRejected, hctx]
      exact hc
    refine ⟨false, r₀.adopted p, parseRoot_rejected hc' false, iff_of_true ?_ (.inl hc)⟩
    rw [adopted_mItems, hr₀]
  · obtain ⟨hbare, hframe⟩ := parseRoot_frame hc h
    rw [parseRoot_adopted hc, Option.bind_eq_some_iff] at h
    obtain ⟨items, hi, he⟩ := h
    obtain ⟨hread, rfl⟩ := (populate_eq_some_iff p _ items).mp hi
    change p.Readable l.mItems at hread
    have hctx : r₀.mContext = (l.adopted p).mContext := by rw [hr₀, hframe]
    have hitems : r₀.mItems = r.mItems := by rw [hr₀]
    have hc' : ¬ContextRejected r₀ p := by
      rintro ⟨hvalid, hbad⟩
      rw [hctx, adopted_context] at hvalid
      split at hvalid
      · exact hc ⟨‹_›, hbad⟩
      · rw [hbad] at hvalid
        cases hvalid
    have hpop : populate p (r₀.kept false) = some (r.mItems.map p.restate) := by
      rw [populate_eq_some_iff]
      change p.Readable r₀.mItems ∧ _ = p.applied r₀.mItems
      rw [hitems]
      exact ⟨hread.again hbare, (applied_again hn ha hbare).symm⟩
    rw [parseRoot_adopted hc', hpop, Option.bind_some]
    exact evaluate_again hn ha hc rfl (conversion_again hctx) (ends_of_evaluate he)

/-! ### Lists that calls of `parse` have built -/

section reachable

variable [Wire α β]

/-- Every call registers identities, on top of those that are there or of none. -/
theorem call_registers {l : SubjectList α β} {c : Call} {r : Reply × SubjectList α β}
    (h : l.call c = some r) : ∃ base ids : List Identity,
      (base = l.mItems.map Subject.identity ∨ base = []) ∧ r.2.mItems.map Subject.identity =
        ids.foldl (register Identity.kind Identity.uuid) base := by
  cases c with
  | findOrAddSubject T uuid =>
    rw [call, findOrAddSubject] at h
    cases hf : findSubjectByUuid T uuid l.mItems with
    | some k =>
      rw [hf] at h
      cases h
      exact ⟨_, [], .inl rfl, rfl⟩
    | none =>
      rw [hf] at h
      cases h
      exact ⟨_, [⟨T, uuid, ""⟩], .inl rfl, identity_added hf⟩
  | parse data clearInactive =>
    rw [call, Option.bind_eq_bind, Option.bind_eq_some_iff] at h
    obtain ⟨⟨b, l'⟩, hp, h⟩ := h
    cases h
    obtain ⟨-, hitems⟩ | ⟨p, -, -, hbare⟩ := parse_items hp
    · exact ⟨_, [], .inl rfl, by rw [hitems]; rfl⟩
    · refine ⟨(l.kept clearInactive).map Subject.identity, p.identities, ?_, ?_⟩
      · cases clearInactive with
        | true => exact .inr rfl
        | false => exact .inl rfl
      · rw [map_of_bare (g := Subject.identity) (fun _ => rfl) hbare, identity_applied]

/-- In a list that was built from nothing no uuid is repeated, unless it is one of subjects
of two types. -/
theorem uuids_nodup {l₀ l : SubjectList α β} (h₀ : l₀.mItems = []) {cs : List Call}
    {os : List Reply} (h : Lib.run call l₀ cs = some (os, l))
    (hs : Separated Identity.kind Identity.uuid (l.mItems.map Subject.identity)) :
    (l.mItems.map (·.mUuid)).Nodup := by
  let Once (l : SubjectList α β) : Prop :=
    Separated Identity.kind Identity.uuid (l.mItems.map Subject.identity) →
      ((l.mItems.map Subject.identity).map (ident Identity.kind Identity.uuid)).Nodup
  have hstep (l : SubjectList α β) (c : Call) (r : Reply × SubjectList α β) (hl : Once l)
      (hr : l.call c = some r) : Once r.2 := by
    intro hsep
    obtain ⟨base, ids, hbase, hids⟩ := call_registers hr
    rw [hids] at hsep ⊢
    have hall : Separated Identity.kind Identity.uuid (base ++ ids) :=
      (separated_congr (mem_registered_ident base ids)).mp hsep
    have hnodup : (base.map (ident Identity.kind Identity.uuid)).Nodup := by
      obtain rfl | rfl := hbase
      · exact hl (separated_of_subset (fun i hi => List.mem_append_left ids hi) hall)
      · exact List.nodup_nil
    exact (registered_spec hall hnodup).1
  have hempty : Once l₀ := by
    intro _
    rw [h₀]
    exact List.nodup_nil
  have huuids : l.mItems.map (·.mUuid) = (l.mItems.map Subject.identity).map Identity.uuid := by
    rw [List.map_map]
    rfl
  rw [huuids]
  exact nodup_keys hs (run_invariant hstep hempty h hs)

/-- For every list that calls have built from nothing and every packet, with uuids of one
type each: parsing the packet twice leaves what parsing it once leaves exactly when it is
repeatable. -/
theorem parse_twice_iff {l₀ l r : SubjectList α β} (h₀ : l₀.mItems = []) {cs : List Call}
    {os : List Reply} (hrun : Lib.run call l₀ cs = some (os, l)) {data : Option (List UInt8)}
    {p : Data.SubjectList α β} (hv : Verified α β data p) (ha : l.UuidsApart p) {b : Bool}
    (h : l.parse data false = some (b, r)) :
    (∃ b' r', r.parse data false = some (b', r') ∧
      r'.mItems.map Subject.visible = r.mItems.map Subject.visible) ↔ Repeatable l p := by
  have hn := uuids_nodup h₀ hrun (separated_of_subset (fun i hi => List.mem_append_left _ hi) ha)
  rw [parse_verified l hv] at h
  have hcond : Repeatable { l with mError := "" } p ↔ Repeatable l p := by
    rw [Repeatable, Repeatable, adopted_conversion, adopted_conversion]
    exact Iff.rfl
  obtain ⟨b', r', hr', hiff⟩ := parseRoot_twice_iff (l := { l with mError := "" }) hn ha h rfl
  rw [parse_verified r hv, hr', ← hcond, ← hiff]
  refine ⟨?_, fun hvis => ⟨b', r', rfl, hvis⟩⟩
  rintro ⟨b₁, r₁, h₁, hvis⟩
  cases h₁
  exact hvis

end reachable

omit [Numeric α β] in
/-- A list of one subject and a packet that defines another one. -/
theorem uuidsApart_singleton {l : SubjectList α β} {p : Data.SubjectList α β} {s : Subject α β}
    {i : Identity} (hs : l.mItems = [s]) (hi : p.identities = [i]) (hne : s.mUuid ≠ i.uuid) :
    l.UuidsApart p := by
  rw [UuidsApart, hs, hi]
  intro x hx y hy hxy
  change x ∈ [s.identity, i] at hx
  change y ∈ [s.identity, i] at hy
  simp only [List.mem_cons, List.not_mem_nil, or_false] at hx hy
  obtain rfl | rfl := hx <;> obtain rfl | rfl := hy
  · rfl
  · exact absurd hxy hne
  · exact absurd hxy.symm hne
  · rfl

set_option synthInstance.maxSize 256 in
theorem parse_twice_iff_markers : ∃ l r : SubjectList Extended Extended,
    Lib.run call metric [.parse (some (finalize (marker "a" 3) 1)) false] =
      some ([.parsed true], l) ∧
    ((∃ b' r', r.parse (some (finalize (marker "b" 2) 1)) false = some (b', r') ∧
      r'.mItems.map Subject.visible = r.mItems.map Subject.visible) ↔
        Repeatable l (marker "b" 2)) := by
  have h : placed 0 2 = some (true, [[("a", [Numeric.ofRat 1])],
      [("a", [Numeric.ofRat (1 / 100)]), ("b", [Numeric.ofRat (1 / 100)])]]) := by
    decide +kernel
  obtain ⟨l, r, hl, hr, hpl, -⟩ := accept_of_placed h
  obtain ⟨s, hs, hplace⟩ := List.map_eq_singleton_iff.mp hpl
  have huuid : s.mUuid = "a" := (Prod.ext_iff.mp hplace).1
  have hapart : l.UuidsApart (marker "b" 2) :=
    uuidsApart_singleton hs rfl (by rw [huuid]; decide)
  have hrun : Lib.run call metric [.parse (some (finalize (marker "a" 3) 1)) false] =
      some ([.parsed true], l) :=
    run_cons_eq_some_iff.mpr ⟨_, l, [], by rw [call, parse_of_accept hl]; rfl, rfl, rfl⟩
  exact ⟨l, r, hrun, parse_twice_iff rfl hrun (verified_finalize _ (.inl rfl)) hapart
    (parse_of_accept hr)⟩

end SubjectList

end Open3DStream
