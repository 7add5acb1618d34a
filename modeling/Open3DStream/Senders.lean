import Open3DStream.Codec
import Open3DStream.Lib.Machine
import Open3DStream.Trace

/-! Packets of several senders in one list: what one packet does to the subjects it
does not name. -/

namespace Open3DStream

open Evaluate Lib

variable {α β : Type}

/-! ### The subjects stay where they are -/

theorem edit_get {T : SubjectKind} {uuid : String} {f : Subject α β → Subject α β}
    {items : List (Subject α β)} {k : Nat} {s : Subject α β} (hs : items[k]? = some s)
    (h : s.mUuid ≠ uuid) : (edit T uuid f items)[k]? = some s := by
  induction items generalizing k with
  | nil => cases hs
  | cons u items ih =>
    rw [edit]
    cases k with
    | zero =>
      cases hs
      rw [if_neg h]
      rfl
    | succ k =>
      split
      · exact hs
      · exact ih hs

variable [Numeric α β]

theorem define_get {T : SubjectKind} {uuid : String} {f : Subject α β → Subject α β}
    {items : List (Subject α β)} {k : Nat} {s : Subject α β} (hs : items[k]? = some s)
    (h : s.mUuid ≠ uuid) : (define T uuid f items)[k]? = some s := by
  rw [define]
  split
  · exact edit_get hs h
  · have hk := (List.getElem?_eq_some_iff.mp hs).1
    rw [List.getElem?_append_left hk, hs]

section loops

variable {δ : Type} {T : SubjectKind} {finish : δ → Subject α β → Subject α β}

theorem definitions_get {body : δ → Option (Data.SubjectData β)} {ds : List δ}
    {items : List (Subject α β)} {k : Nat} {s : Subject α β} (hs : items[k]? = some s)
    (h : s.mUuid ∉ uuidsOf body (·.uuid) ds) :
    (ds.foldl (defining T body finish) items)[k]? = some s := by
  refine List.foldlRecOn (motive := fun items => items[k]? = some s) ds _ hs ?_
  intro items hs d hd
  rw [defining]
  cases hb : body d with
  | none => exact hs
  | some data =>
    refine define_get hs ?_
    intro he
    exact h (he ▸ mem_uuidsOf hd hb)

theorem updates_get {body : δ → Option (Data.SubjectUpdate β)} {us : List δ}
    {items : List (Subject α β)} {k : Nat} {s : Subject α β} (hs : items[k]? = some s)
    (h : s.mUuid ∉ uuidsOf body (·.uuid) us) :
    (us.foldl (updating T body finish) items)[k]? = some s := by
  refine List.foldlRecOn (motive := fun items => items[k]? = some s) us _ hs ?_
  intro items hs u hu
  rw [updating]
  cases hb : body u with
  | none => exact hs
  | some data =>
    refine edit_get hs ?_
    intro he
    exact h (he ▸ mem_uuidsOf hu hb)

end loops

namespace SubjectList

/-- A subject that a packet does not name is left where it is by the loops. -/
theorem applied_get {p : Data.SubjectList α β} {items : List (Subject α β)} {k : Nat}
    {s : Subject α β} (hs : items[k]? = some s) (h : s.mUuid ∉ p.mentioned) :
    (p.applied items)[k]? = some s := by
  simp only [Data.SubjectList.mentioned, List.mem_append, not_or] at h
  obtain ⟨⟨⟨⟨⟨hp, hpu⟩, hr⟩, hru⟩, hc⟩, hcu⟩ := h
  exact updates_get (definitions_get (updates_get (definitions_get
    (updates_get (definitions_get hs hp) hpu) hr) hru) hc) hcu

/-! ### What an accepted packet leaves -/

theorem calcItems_forall₂ {conv : Option ConversionContext} {items items' : List (Subject α β)}
    (h : calcItems conv items = some (none, items')) :
    List.Forall₂ (fun s s' => s.calcMatrices conv = some (true, s')) items items' := by
  induction items generalizing items' with
  | nil =>
    cases h
    exact .nil
  | cons s items ih =>
    obtain ⟨s', hs, he, -⟩ | ⟨s', rest, hs, hr, rfl⟩ := calcItems_cons h
    · cases he
    · exact .cons hs (ih hr)

/-- An accepted packet leaves the subjects evaluated under its conversion. -/
theorem parseRoot_accepted {l r : SubjectList α β} {p : Data.SubjectList α β}
    {clearInactive : Bool} (h : l.parseRoot p clearInactive = some (true, r)) :
    ¬ContextRejected l p ∧ r = { l.adopted p with mItems := r.mItems } ∧
      List.Forall₂ (fun s s' => s.calcMatrices (l.adopted p).conversion = some (true, s'))
        (p.applied (l.kept clearInactive)) r.mItems := by
  have hc : ¬ContextRejected l p := fun hc => by
    rw [parseRoot_rejected hc] at h
    cases h
  rw [parseRoot_adopted hc, Option.bind_eq_some_iff] at h
  obtain ⟨items, hi, he⟩ := h
  obtain ⟨-, rfl⟩ := (populate_eq_some_iff p _ items).mp hi
  obtain ⟨-, e, hitems, hb, hr⟩ | ⟨-, e, -, hb, -⟩ := evaluate_cases he
  · cases e with
    | some e => cases hb
    | none => exact ⟨hc, hr, calcItems_forall₂ hitems⟩
  · cases hb

end SubjectList

/-! ### World matrices that another evaluation leaves alone -/

/-- The world matrices are what an evaluation under a conversion leaves: the products along
the paths, and for a transform that no root leads to whatever it had, converted again. -/
def ExpressedBy (conv : Option ConversionContext) (s : Subject α β) : Prop :=
  ∀ i t, s.mTransforms[i]? = some t →
    (∀ l, TreePath (parentIds s.mTransforms) i l →
      convertWorld conv (worldAlong Transform.localMatrix s.mTransforms l) = t.mWorldMatrix) ∧
    ((∀ l, ¬TreePath (parentIds s.mTransforms) i l) →
      convertWorld conv t.mWorldMatrix = t.mWorldMatrix)

/-- Two conversions take the products along the paths to the same matrices, and the second
fixes the world matrices of the transforms that no root leads to. -/
def AgreeOn (prev conv : Option ConversionContext) (s : Subject α β) : Prop :=
  ∀ i t, s.mTransforms[i]? = some t →
    (∀ l, TreePath (parentIds s.mTransforms) i l →
      convertWorld conv (worldAlong Transform.localMatrix s.mTransforms l) =
        convertWorld prev (worldAlong Transform.localMatrix s.mTransforms l)) ∧
    ((∀ l, ¬TreePath (parentIds s.mTransforms) i l) →
      convertWorld conv t.mWorldMatrix = t.mWorldMatrix)

def worlds (s : Subject α β) : List (Matrix α) := s.mTransforms.map (·.mWorldMatrix)

theorem worlds_eq_iff {s s' : Subject α β} {conv : Option ConversionContext}
    (h : s.calcMatrices conv = some (true, s')) : worlds s' = worlds s ↔ ExpressedBy conv s := by
  have hlen := (Subject.calcMatrices_frame h).1.length
  refine ⟨?_, ?_⟩
  · intro hw i t ht
    have hget : (s'.mTransforms[i]?).map (·.mWorldMatrix) = some t.mWorldMatrix := by
      have hi := congrArg (·[i]?) hw
      simp only [worlds, List.getElem?_map] at hi
      rw [hi, ht, Option.map_some]
    refine ⟨?_, ?_⟩
    · intro l hl
      rw [Subject.calcMatrices_path h ht hl] at hget
      exact Option.some.inj hget
    · intro hl
      rw [Subject.calcMatrices_no_path h ht hl] at hget
      exact Option.some.inj hget
  · intro he
    apply List.ext_getElem?
    intro i
    simp only [worlds, List.getElem?_map]
    cases ht : s.mTransforms[i]? with
    | none =>
      have hi := List.getElem?_eq_none_iff.mp ht
      rw [List.getElem?_eq_none (by omega)]
    | some t =>
      obtain ⟨hpath, hno⟩ := he i t ht
      by_cases hl : ∃ l, TreePath (parentIds s.mTransforms) i l
      · obtain ⟨l, hl⟩ := hl
        rw [Subject.calcMatrices_path h ht hl, Option.map_some, Option.map_some]
        exact congrArg some (hpath l hl)
      · have hl' := fun l hl' => hl ⟨l, hl'⟩
        rw [Subject.calcMatrices_no_path h ht hl', Option.map_some, Option.map_some]
        exact congrArg some (hno hl')

/-- For a subject that has just been evaluated. -/
theorem expressedBy_iff_agreeOn {s s' : Subject α β} {prev : Option ConversionContext}
    (h : s.calcMatrices prev = some (true, s')) (conv : Option ConversionContext) :
    ExpressedBy conv s' ↔ AgreeOn prev conv s' := by
  have hbare := (Subject.calcMatrices_frame h).1
  have hworld {i : Nat} {t' : Transform α} (ht' : s'.mTransforms[i]? = some t') {l : List Nat}
      (hl : TreePath (parentIds s'.mTransforms) i l) :
      t'.mWorldMatrix = convertWorld prev (worldAlong Transform.localMatrix s'.mTransforms l) := by
    obtain ⟨t, ht, -⟩ := hbare.get ht'
    rw [hbare.parentIds] at hl
    have hget := Subject.calcMatrices_path h ht hl
    rw [ht'] at hget
    cases hget
    rw [hbare.worldAlong]
    rfl
  rw [ExpressedBy, AgreeOn]
  refine forall₃_congr fun i t ht => and_congr_left' (forall₂_congr fun l hl => ?_)
  rw [hworld ht hl]

namespace SubjectList

/-- Every subject that a packet does not name is still in its place, with the world
matrices it had. -/
def Keeps (l : SubjectList α β) (p : Data.SubjectList α β) (r : SubjectList α β) : Prop :=
  ∀ (k : Nat) s, l.mItems[k]? = some s → s.mUuid ∉ p.mentioned →
    ∃ s', r.mItems[k]? = some s' ∧ s'.mUuid = s.mUuid ∧ worlds s' = worlds s

theorem parseRoot_keeps_iff {l r : SubjectList α β} {p : Data.SubjectList α β}
    (h : l.parseRoot p false = some (true, r)) : Keeps l p r ↔
      ∀ s ∈ l.mItems, s.mUuid ∉ p.mentioned → ExpressedBy (l.adopted p).conversion s := by
  obtain ⟨-, -, hitems⟩ := parseRoot_accepted h
  have hstep {k : Nat} {s : Subject α β} (hs : l.mItems[k]? = some s)
      (hm : s.mUuid ∉ p.mentioned) : ∃ s', r.mItems[k]? = some s' ∧
        s.calcMatrices (l.adopted p).conversion = some (true, s') :=
    forall₂_getElem? hitems (applied_get hs hm)
  refine ⟨?_, ?_⟩
  · intro hk s hs hm
    obtain ⟨k, hs⟩ := List.mem_iff_getElem?.mp hs
    obtain ⟨s', hs', hcalc⟩ := hstep hs hm
    obtain ⟨u, hu, -, hw⟩ := hk k s hs hm
    rw [hs'] at hu
    cases hu
    exact (worlds_eq_iff hcalc).mp hw
  · intro he k s hs hm
    obtain ⟨s', hs', hcalc⟩ := hstep hs hm
    refine ⟨s', hs', ?_, (worlds_eq_iff hcalc).mpr (he s (List.mem_of_getElem? hs) hm)⟩
    rw [(Subject.calcMatrices_frame hcalc).2]

variable [Wire α β]

/-- The packets that `parse` accepts without clearing the list. -/
def accept (l : SubjectList α β) (data : Option (List UInt8)) : Option (Unit × SubjectList α β) :=
  match l.parse data false with
  | some (true, r) => some ((), r)
  | _ => none

/-- Every subject a packet does not name keeps its world matrices. -/
def KeepsUnnamed (l : SubjectList α β) (data : Option (List UInt8)) : Prop :=
  ∀ p r, Verified α β data p → l.accept data = some ((), r) → Keeps l p r

/-- What the first packet meets: the subjects it does not name are already expressed in
the receiver's context as the packet's own ones will be. -/
def Settled (l : SubjectList α β) (data : Option (List UInt8)) : Prop :=
  ∀ p, Verified α β data p → ∀ s ∈ l.mItems, s.mUuid ∉ p.mentioned →
    ExpressedBy (l.adopted p).conversion s

/-- What a later packet meets: its conversion and the one of the packet before agree on the
subjects it does not name. -/
def Agreeing (l : SubjectList α β) (data : Option (List UInt8)) : Prop :=
  ∀ p, Verified α β data p → ∀ s ∈ l.mItems, s.mUuid ∉ p.mentioned →
    AgreeOn l.conversion (l.adopted p).conversion s

def Undisturbed (l : SubjectList α β) : List (Option (List UInt8)) → Prop
  | [] => True
  | data :: packets => l.Settled data ∧ ∀ r ∈ l.accept data, Each accept Agreeing r.2 packets

theorem parse_of_accept {l : SubjectList α β} {data : Option (List UInt8)}
    {r : Unit × SubjectList α β} (h : l.accept data = some r) :
    l.parse data false = some (true, r.2) := by
  rw [accept] at h
  split at h
  · cases h
    assumption
  · cases h

theorem accept_eq_some {l : SubjectList α β} {data : Option (List UInt8)}
    {r : Unit × SubjectList α β} (h : l.accept data = some r) :
    ∃ p, Verified α β data p ∧ { l with mError := "" }.parseRoot p false = some (true, r.2) := by
  have hp := parse_of_accept h
  by_cases hv : ∃ p, Verified α β data p
  · obtain ⟨p, hv⟩ := hv
    rw [parse_verified l hv] at hp
    exact ⟨p, hv, hp⟩
  · obtain ⟨e, he⟩ := parse_unverified l (fun p hp => hv ⟨p, hp⟩) false
    rw [he] at hp
    cases hp

theorem keepsUnnamed_iff {l : SubjectList α β} {data : Option (List UInt8)}
    {r : Unit × SubjectList α β} (h : l.accept data = some r) :
    l.KeepsUnnamed data ↔ l.Settled data := by
  obtain ⟨p, hv, hp⟩ := accept_eq_some h
  have hkeeps := parseRoot_keeps_iff hp
  rw [adopted_conversion, ← adopted_conversion l p] at hkeeps
  refine ⟨?_, ?_⟩
  · intro hk q hq
    rw [hq.unique hv]
    exact hkeeps.mp (hk p r.2 hv h)
  · intro hs q r' hq hr'
    rw [h] at hr'
    cases hr'
    rw [hq.unique hv]
    exact hkeeps.mpr (hs p hv)

/-- All subjects come from an evaluation under the conversion of the list. -/
def Evaluated (l : SubjectList α β) : Prop :=
  ∀ s' ∈ l.mItems, ∃ s : Subject α β, s.calcMatrices l.conversion = some (true, s')

theorem evaluated_of_accept {l : SubjectList α β} {data : Option (List UInt8)}
    {r : Unit × SubjectList α β} (h : l.accept data = some r) : r.2.Evaluated := by
  obtain ⟨p, -, hp⟩ := accept_eq_some h
  obtain ⟨-, hr, hitems⟩ := parseRoot_accepted hp
  rw [Evaluated, hr]
  exact forall₂_right hitems fun s s' hs => ⟨s, hs⟩

theorem settled_iff_agreeing {l : SubjectList α β} (h : l.Evaluated)
    (data : Option (List UInt8)) : l.Settled data ↔ l.Agreeing data := by
  rw [Settled, Agreeing]
  refine forall₂_congr fun p hv => forall₃_congr fun s hs hm => ?_
  obtain ⟨u, hu⟩ := h s hs
  exact expressedBy_iff_agreeOn hu _

/-- In every run of accepted packets, of whatever senders, the subjects that a packet does
not name keep their world matrices exactly when the conversions of successive packets agree
on them. -/
theorem keepsUnnamed_run_iff {l r : SubjectList α β} {packets : List (Option (List UInt8))}
    {os : List Unit} (h : Lib.run accept l packets = some (os, r)) :
    Each accept KeepsUnnamed l packets ↔ Undisturbed l packets := by
  cases packets with
  | nil => exact Iff.rfl
  | cons data packets =>
    obtain ⟨o, u, os', hu, hrest, -⟩ := run_cons_eq_some_iff.mp h
    have hstep (l : SubjectList α β) (data : Option (List UInt8)) (r : Unit × SubjectList α β)
        (hl : l.Evaluated) (hr : l.accept data = some r) :
        l.KeepsUnnamed data ↔ l.Agreeing data :=
      (keepsUnnamed_iff hr).trans (settled_iff_agreeing hl data)
    have hlater := each_congr_of_run (P := Evaluated)
      (fun l data r _ hr => evaluated_of_accept hr) hstep (evaluated_of_accept hu) hrest
    rw [Each, Undisturbed, keepsUnnamed_iff hu]
    refine and_congr_right fun _ => ?_
    simp only [hu, Option.mem_def, Option.some.injEq, forall_eq']
    exact hlater

theorem accept_of_parseRoot [LawfulWire α β] {l r : SubjectList α β} {p : Data.SubjectList α β}
    (h : { l with mError := "" }.parseRoot p false = some (true, r)) :
    l.accept (some (finalize p 1)) = some ((), r) := by
  rw [accept, parse_verified l (verified_finalize p (.inl rfl)), h]

/-- A full packet of a performer that stands at one along the first axis, in some unit. -/
def marker (uuid : String) (unit : Int) : Data.SubjectList Extended Extended :=
  let node : Data.Transform Extended :=
    { parent := -1, name := some "root", translation := some ⟨Numeric.ofRat 1, 0, 0⟩
      rotation := none, scale := none, matrix := some [], components := some [0] }
  { Data.SubjectList.blank with
    performers := some [⟨some ⟨some [node], some "marker", some uuid⟩⟩]
    x_axis := 2, y_axis := 5, z_axis := 3, distance_unit := unit }

/-- A receiver that wants metres. -/
def metric : SubjectList Extended Extended :=
  { freshList with mContext := ⟨.Right, .Up, .Forward, .Meter⟩ }

/-- Where the subjects of a list are along an axis. -/
def places (axis : Fin 3) (l : SubjectList Extended Extended) : List (String × List Extended) :=
  l.mItems.map fun s => (s.mUuid, (worlds s).map (·.coeff axis.castSucc (Fin.last 3)))

/-- Two markers one after the other, and where they are after each packet. -/
def placed (axis : Fin 3) (unit : Int) : Option (Bool × List (List (String × List Extended))) := do
  let (ok, l) ← metric.parseRoot (marker "a" 3) false
  let (ok', r) ← { l with mError := "" }.parseRoot (marker "b" unit) false
  some (ok && ok', [places axis l, places axis r])

theorem accept_of_placed {axis : Fin 3} {unit : Int} {ps qs : List (String × List Extended)}
    (h : placed axis unit = some (true, [ps, qs])) :
    ∃ l r, metric.accept (some (finalize (marker "a" 3) 1)) = some ((), l) ∧
      l.accept (some (finalize (marker "b" unit) 1)) = some ((), r) ∧ places axis l = ps ∧
      places axis r = qs := by
  rw [placed, Option.bind_eq_bind, Option.bind_eq_some_iff] at h
  obtain ⟨⟨ok, l⟩, hl, h⟩ := h
  obtain ⟨⟨ok', r⟩, hr, h⟩ := Option.bind_eq_some_iff.mp h
  simp only [Option.some.injEq, Prod.mk.injEq, Bool.and_eq_true, List.cons.injEq, and_true] at h
  obtain ⟨⟨rfl, rfl⟩, hps, hqs⟩ := h
  exact ⟨l, r, accept_of_parseRoot hl, accept_of_parseRoot hr, hps, hqs⟩

set_option synthInstance.maxSize 256 in
theorem keepsUnnamed_run_iff_metres : ∃ r,
    Lib.run accept metric
        [some (finalize (marker "a" 3) 1), some (finalize (marker "b" 3) 1)] = some ([(), ()], r) ∧
      (Each accept KeepsUnnamed metric
          [some (finalize (marker "a" 3) 1), some (finalize (marker "b" 3) 1)] ↔
        Undisturbed metric
          [some (finalize (marker "a" 3) 1), some (finalize (marker "b" 3) 1)]) := by
  have h : placed 0 3 = some (true, [[("a", [Numeric.ofRat 1])],
      [("a", [Numeric.ofRat 1]), ("b", [Numeric.ofRat 1])]]) := by
    decide +kernel
  obtain ⟨l, r, hl, hr, -⟩ := accept_of_placed h
  have hrun : Lib.run accept metric [some (finalize (marker "a" 3) 1),
      some (finalize (marker "b" 3) 1)] = some ([(), ()], r) :=
    run_cons_eq_some_iff.mpr ⟨(), l, [()], hl, run_cons_eq_some_iff.mpr ⟨(), r, [], hr, rfl, rfl⟩, rfl⟩
  exact ⟨r, hrun, keepsUnnamed_run_iff hrun⟩

set_option synthInstance.maxSize 256 in
/-- The packet of a sender that counts in centimetres moves the marker of the other one. -/
theorem other_sender_disturbed : ∃ l r,
    metric.accept (some (finalize (marker "a" 3) 1)) = some ((), l) ∧
      l.accept (some (finalize (marker "b" 2) 1)) = some ((), r) ∧
      "a" ∉ (marker "b" 2).mentioned ∧ (readContext (marker "a" 3)).valid = true ∧
      (readContext (marker "b" 2)).valid = true ∧ places 0 l = [("a", [Numeric.ofRat 1])] ∧
      places 0 r = [("a", [Numeric.ofRat (1 / 100)]), ("b", [Numeric.ofRat (1 / 100)])] ∧
      ¬Keeps l (marker "b" 2) r := by
  have h : placed 0 2 = some (true, [[("a", [Numeric.ofRat 1])],
      [("a", [Numeric.ofRat (1 / 100)]), ("b", [Numeric.ofRat (1 / 100)])]]) := by
    decide +kernel
  obtain ⟨l, r, hl, hr, hpl, hpr⟩ := accept_of_placed h
  refine ⟨l, r, hl, hr, by decide, by decide, by decide, hpl, hpr, ?_⟩
  intro hk
  obtain ⟨s, hs, hplace⟩ := List.map_eq_singleton_iff.mp hpl
  obtain ⟨hu, hcoeff⟩ := Prod.ext_iff.mp hplace
  have huuid : s.mUuid = "a" := hu
  obtain ⟨s', hs', -, hw⟩ := hk 0 s (by rw [hs]; rfl) (by rw [huuid]; decide)
  have hget := congrArg (·[0]?) hpr
  simp only [places, List.getElem?_map, hs', hw, Option.map_some] at hget
  have hmoved := (Prod.ext_iff.mp (Option.some.inj hget)).2
  have hsame : [(Numeric.ofRat 1 : Extended)] = [Numeric.ofRat (1 / 100)] := hcoeff.symm.trans hmoved
  exact absurd hsame (by decide +kernel)

end SubjectList

end Open3DStream
