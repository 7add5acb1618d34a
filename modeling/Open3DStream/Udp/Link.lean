import Open3DStream.Lib.Machine
import Open3DStream.Lossy
import Open3DStream.Udp.Order

/-! A stream over datagrams: a packet is cut up, and put together again if all of it arrives. -/

namespace Open3DStream

open Lib

variable {α β : Type}

/-! ### One packet -/

/-- A packet is parsed; a byte of it that nothing was copied to is undefined. -/
def SubjectList.OnData [Numeric α β] [Wire α β] (r : SubjectList α β) (buf : List (Option UInt8)) :
    Option (SubjectList α β) := do
  let buf ← buf.mapM id
  let (_, r) ← r.parse (some buf) false
  some r

/-- The receive callback. -/
def OnDataReceived [Numeric α β] [Wire α β] (s : UdpMapper × SubjectList α β) (data : List UInt8) :
    Option (UdpMapper × SubjectList α β) := do
  let (out, m) ← s.1.receive data
  match out with
  | none => some (m, s.2)
  | some (_, buf) =>
    let r ← s.2.OnData buf
    some (m, r)

/-- The parts of the frame that are at hand, while nothing is complete and nothing newer. -/
structure Gathers (f : Frame) (S : Finset Nat) (m : UdpMapper) : Prop where
  incomplete : m.firstComplete = none
  newest : ∀ (j : UInt32) c, m.items[j]? = some c → j ≤ f.id
  entry : Open f S (m.getCombiner f.id)
  proper : S ⊂ Finset.range f.count

theorem getCombiner_of_none {m : UdpMapper} {id : UInt32} (h : m.items[id]? = none) :
    m.getCombiner id = {} := by
  rw [UdpMapper.getCombiner, h]
  rfl

theorem getCombiner_of_some {m : UdpMapper} {id : UInt32} {c : UdpCombiner}
    (h : m.items[id]? = some c) : m.getCombiner id = c := by
  rw [UdpMapper.getCombiner, h]
  rfl

theorem Frame.empty_ssubset (f : Frame) : ∅ ⊂ Finset.range f.count :=
  Finset.empty_ssubset.mpr (Finset.nonempty_range_iff.mpr f.count_pos.ne')

/-- What is left of older frames does not matter to a new one. -/
theorem gathers_new {m : UdpMapper} (hm : m.firstComplete = none) {f : Frame}
    (h : ∀ (j : UInt32) c, m.items[j]? = some c → j < f.id) : Gathers f ∅ m := by
  refine ⟨hm, fun j c hc => UInt32.le_of_lt (h j c hc), .inr ⟨rfl, ?_⟩, f.empty_ssubset⟩
  apply getCombiner_of_none
  cases hc : m.items[f.id]? with
  | none => rfl
  | some c => exact absurd (h f.id c hc) (UInt32.lt_irrefl f.id)

theorem Gathers.addFragment {f : Frame} {S : Finset Nat} {m : UdpMapper} (h : Gathers f S m)
    {seq : Nat} (hseq : seq < f.count) :
    ∃ c, m.addFragment (f.packet seq) = some (true, ⟨m.items.insert f.id c⟩) ∧
      Holds f (insert seq S) c := by
  obtain ⟨c, hc, hholds⟩ := h.entry.addFragment hseq
  have hid : (heading (f.packet seq)).id = f.id := by rw [f.heading_packet, Frame.heading]
  have hadd := UdpMapper.addFragment_of_size (f.size_packet seq) (m := m) (by rw [hid]; exact hc)
  rw [hid] at hadd
  exact ⟨c, hadd, hholds⟩

/-- A part that does not make the frame complete. -/
theorem Gathers.part {f : Frame} {S : Finset Nat} {m : UdpMapper} (h : Gathers f S m) {seq : Nat}
    (hseq : seq < f.count) (hpart : insert seq S ≠ Finset.range f.count) :
    ∃ m', m.receive (f.packet seq) = some (none, m') ∧ Gathers f (insert seq S) m' := by
  obtain ⟨c, hadd, hholds⟩ := h.addFragment hseq
  have hsub : insert seq S ⊆ Finset.range f.count :=
    Finset.insert_subset (Finset.mem_range.mpr hseq) h.proper.1
  have hproper := hsub.ssubset_of_ne hpart
  have hincomplete : ¬c.isComplete = true := fun hcomplete => hproper.2 (hholds.isComplete_iff.mp hcomplete)
  have hfirst := UdpMapper.firstComplete_insert h.incomplete f.id c
  rw [if_neg hincomplete] at hfirst
  refine ⟨_, receive_of_none hadd hfirst, hfirst, ?_, .inl ?_, hproper⟩
  · intro j d hd
    rw [UdpMapper.getElem?_insert] at hd
    split at hd
    · exact UInt32.le_of_eq (‹f.id = j›).symm
    · exact h.newest j d hd
  · rw [getCombiner_of_some (UdpMapper.getElem?_insert_self m f.id c)]
    exact hholds

/-- The last part: the frame is returned, and nothing is left. -/
theorem Gathers.last {f : Frame} {S : Finset Nat} {m : UdpMapper} (h : Gathers f S m) {seq : Nat}
    (hseq : seq < f.count) (hlast : insert seq S = Finset.range f.count) :
    ∃ m', m.receive (f.packet seq) = some (some f.returned, m') ∧ Gathers f ∅ m' := by
  obtain ⟨c, hadd, hholds⟩ := h.addFragment hseq
  rw [hlast] at hholds
  have hcomplete : c.isComplete = true := hholds.isComplete_iff.mpr subset_rfl
  have hfirst := UdpMapper.firstComplete_insert h.incomplete f.id c
  rw [if_pos hcomplete] at hfirst
  have hreturned := receive_of_some hadd hfirst
  rw [hholds.buffer hcomplete] at hreturned
  refine ⟨_, hreturned, UdpMapper.firstComplete_returned h.incomplete f.id c, ?_, ?_,
    f.empty_ssubset⟩
  · intro j d hd
    have hentry : UdpMapper.entries ⟨(m.items.insert f.id c).filter fun j _ => ¬j ≤ f.id⟩ j = some d := hd
    rw [UdpMapper.entries_returned] at hentry
    dsimp only at hentry
    split at hentry
    · cases hentry
    · exact h.newest j d hentry
  · refine .inr ⟨rfl, getCombiner_of_none ?_⟩
    have hentry : UdpMapper.entries ⟨(m.items.insert f.id c).filter fun j _ => ¬j ≤ f.id⟩ f.id = none := by
      rw [UdpMapper.entries_returned]
      exact if_pos (UInt32.le_refl f.id)
    exact hentry

variable [Numeric α β] [Wire α β]

theorem OnData_map_some (r : SubjectList α β) (data : List UInt8) :
    r.OnData (data.map some) = (r.parse (some data) false).map Prod.snd := by
  have hbytes : (data.map some).mapM id = some data := by
    have hid : data.mapM (id ∘ some) = some (data.map id) := mapM_eq_some_map fun _ _ => rfl
    rw [List.mapM_map, hid, List.map_id]
  rw [SubjectList.OnData, hbytes, Option.bind_eq_bind, Option.bind_some]
  cases r.parse (some data) false <;> rfl

theorem OnDataReceived_of_none {m m' : UdpMapper} {data : List UInt8}
    (h : m.receive data = some (none, m')) (r : SubjectList α β) :
    OnDataReceived (m, r) data = some (m', r) := by
  rw [OnDataReceived]
  dsimp only
  rw [h]
  rfl

theorem OnDataReceived_of_some {m m' : UdpMapper} {data : List UInt8} {f : Frame}
    (h : m.receive data = some (some f.returned, m')) (r : SubjectList α β) :
    OnDataReceived (m, r) data = (r.parse (some f.data) false).map fun p => (m', p.2) := by
  have hparse : r.OnData f.returned.2 = (r.parse (some f.data) false).map Prod.snd :=
    OnData_map_some r f.data
  rw [OnDataReceived]
  dsimp only
  rw [h, Option.bind_eq_bind, Option.bind_some]
  dsimp only
  rw [hparse]
  cases r.parse (some f.data) false <;> rfl

/-- Whatever parts arrive, and however often, the frame is parsed as often as all of it has
arrived. -/
theorem Gathers.arrivals {f : Frame} {S : Finset Nat} {m : UdpMapper} (h : Gathers f S m)
    (r : SubjectList α β) (arrivals : List Nat) :
    ∃ m' S', Gathers f S' m' ∧
      (arrivals.filterMap fun i => ((List.range f.count).map f.packet)[i]?).foldlM OnDataReceived
        (m, r) = (r.hear f.data (Reassembly.rounds f.count S arrivals)).map (m', ·) := by
  induction arrivals generalizing S m r with
  | nil => exact ⟨m, S, h, rfl⟩
  | cons i arrivals ih =>
    rw [List.filterMap_cons, List.getElem?_map, Reassembly.rounds]
    by_cases hi : i < f.count
    · rw [List.getElem?_range hi, Option.map_some, if_pos hi]
      dsimp only
      rw [List.foldlM_cons]
      by_cases hfull : insert i S = Finset.range f.count
      · obtain ⟨m₁, hm₁, hgathers⟩ := h.last hi hfull
        rw [if_pos hfull, OnDataReceived_of_some hm₁, SubjectList.hear]
        cases r.parse (some f.data) false with
        | none => exact ⟨m₁, ∅, hgathers, rfl⟩
        | some r₁ => exact ih hgathers r₁.2
      · obtain ⟨m₁, hm₁, hgathers⟩ := h.part hi hfull
        rw [if_neg hfull, OnDataReceived_of_none hm₁]
        exact ih hgathers r
    · rw [List.getElem?_eq_none (by rw [List.length_range]; omega), Option.map_none, if_neg hi]
      exact ih h r

/-! ### The link -/

/-- A sender and a receiver, and what the last packets have left between them. -/
structure Link (α β : Type) where
  sender : SubjectList α β
  mIdSeq : UInt32
  mUdpMapper : UdpMapper
  receiver : SubjectList α β

/-- What a sender does, and which of a packet's datagrams arrive, in their order. -/
inductive Posting (α : Type) where
  | translate (subject transform : Nat) (value : Vector3d α)
  | rotate (subject transform : Nat) (value : Quaterniond α)
  | keyframe (timestamp : α) (timecode : String) (now : α) (arrivals : List Nat)
  | update (timestamp : α) (timecode : String) (now : α) (arrivals : List Nat)

def Posting.arrivals : Posting α → List Nat
  | .translate _ _ _ | .rotate _ _ _ => []
  | .keyframe _ _ _ arrivals | .update _ _ _ arrivals => arrivals

/-- How many datagrams a packet is cut into. -/
def datagrams (buf : List UInt8) : Nat := (buf.length + 512 - 1) / 512

namespace Link

/-- The two ends. -/
def channel (k : Link α β) : Channel α β := ⟨k.sender, k.receiver⟩

/-- A packet is cut up and what arrives of it is received, before the next packet is sent. -/
def post (k : Link α β) (buf : List UInt8) (arrivals : List Nat) : Option (Link α β) := do
  let mIdSeq := k.mIdSeq + 1
  let frag ← UdpFragmenter.make buf 512
  let fragData ← (List.range frag.mFrames).mapM fun i => frag.makeFragment mIdSeq (.ofNat i)
  let (m, r) ← (arrivals.filterMap fun i => fragData[i]?).foldlM OnDataReceived
    (k.mUdpMapper, k.receiver)
  some ⟨k.sender, mIdSeq, m, r⟩

def dispatch (k : Link α β) (arrivals : List Nat) :
    Option (List UInt8) → Option (Option (List UInt8) × Link α β)
  | none => some (none, k)
  | some buf => (k.post buf arrivals).map (some buf, ·)

/-- A step, with the packet that is sent. -/
def send (k : Link α β) : Posting α → Option (Option (List UInt8) × Link α β)
  | .translate i j v =>
    let c := k.channel.pose i j fun t => { t with translation := { t.translation with value := v } }
    some (none, { k with sender := c.sender })
  | .rotate i j q =>
    let c := k.channel.pose i j fun t => { t with rotation := { t.rotation with value := q } }
    some (none, { k with sender := c.sender })
  | .keyframe timestamp timecode now arrivals =>
    let (buf, l) := k.sender.serialize timestamp timecode now
    dispatch { k with sender := l } arrivals buf
  | .update timestamp timecode now arrivals =>
    let (buf, _, l) := k.sender.serializeUpdate timestamp timecode now
    dispatch { k with sender := l } arrivals buf

/-- The packet of a step. -/
def emitted (k : Link α β) : Posting α → Option (List UInt8)
  | .translate _ _ _ | .rotate _ _ _ => none
  | .keyframe timestamp timecode now _ => (k.sender.serialize timestamp timecode now).1
  | .update timestamp timecode now _ => (k.sender.serializeUpdate timestamp timecode now).1

/-- No packet is too large for the builder. -/
def Small (k : Link α β) (a : Posting α) : Prop :=
  ∀ buf ∈ k.emitted a, buf.length < 2147483648

/-- Every datagram arrives at least once. -/
def Whole (k : Link α β) (a : Posting α) : Prop :=
  ∀ buf ∈ k.emitted a, ∀ i < datagrams buf, i ∈ a.arrivals

/-! ### The link loses and repeats packets -/

/-- How often a packet arrives. -/
def copies (buf : Option (List UInt8)) (arrivals : List Nat) : Nat :=
  buf.elim 1 fun buf => Reassembly.rounds (datagrams buf) ∅ arrivals

/-- The step as the two ends see it. -/
def ends (k : Link α β) : Posting α → Sending α
  | .translate i j v => .translate i j v
  | .rotate i j q => .rotate i j q
  | .keyframe timestamp timecode now arrivals =>
    .keyframe timestamp timecode now
      (copies (k.sender.serialize timestamp timecode now).1 arrivals)
  | .update timestamp timecode now arrivals =>
    .update timestamp timecode now
      (copies (k.sender.serializeUpdate timestamp timecode now).1 arrivals)

/-- Nothing is complete, and nothing newer than the last packet. -/
structure Idle (id : UInt32) (m : UdpMapper) : Prop where
  incomplete : m.firstComplete = none
  newest : ∀ (j : UInt32) c, m.items[j]? = some c → j ≤ id

/-- A packet as a frame. -/
def frame (id : UInt32) (buf : List UInt8) (hpos : 0 < buf.length)
    (hlt : buf.length < 2147483648) : Frame :=
  ⟨id, buf, 512, hpos, by decide, by decide, by omega, by omega⟩

omit [Wire α β] [Numeric α β] in
theorem lt_succ {id : UInt32} (h : id.toNat + 1 < 4294967296) :
    (id + 1).toNat = id.toNat + 1 := by
  rw [UInt32.toNat_add, UInt32.toNat_one, Nat.mod_eq_of_lt h]

theorem post_eq {k : Link α β} (h : Idle k.mIdSeq k.mUdpMapper)
    (hid : k.mIdSeq.toNat + 1 < 4294967296) {buf : List UInt8} (hpos : 0 < buf.length)
    (hlt : buf.length < 2147483648) (arrivals : List Nat) :
    ∃ m, Idle (k.mIdSeq + 1) m ∧ k.post buf arrivals =
      (k.receiver.hear buf (Reassembly.rounds (datagrams buf) ∅ arrivals)).map fun r =>
        ⟨k.sender, k.mIdSeq + 1, m, r⟩ := by
  let f := frame (k.mIdSeq + 1) buf hpos hlt
  have hnew : ∀ (j : UInt32) c, k.mUdpMapper.items[j]? = some c → j < f.id := by
    intro j c hc
    have hle := UInt32.le_iff_toNat_le.mp (h.newest j c hc)
    have hsucc : f.id.toNat = k.mIdSeq.toNat + 1 := lt_succ hid
    rw [UInt32.lt_iff_toNat_lt]
    omega
  obtain ⟨m, S, hgathers, hrun⟩ := (gathers_new h.incomplete hnew).arrivals k.receiver arrivals
  refine ⟨m, ⟨hgathers.incomplete, hgathers.newest⟩, ?_⟩
  have hmake : UdpFragmenter.make buf 512 = some ⟨512, buf, buf.length, f.count⟩ := f.make_eq
  have hdatagram : (fun i => UdpFragmenter.makeFragment ⟨512, buf, buf.length, f.count⟩
      (k.mIdSeq + 1) (.ofNat i)) = f.datagram := by
    funext i
    rw [Frame.datagram, f.make_eq]
    rfl
  have hpackets : (List.range f.count).mapM f.datagram = some ((List.range f.count).map f.packet) :=
    f.datagrams_eq
  rw [post, hmake, Option.bind_eq_bind, Option.bind_some]
  dsimp only
  rw [hdatagram, hpackets]
  change ((arrivals.filterMap fun i => ((List.range f.count).map f.packet)[i]?).foldlM
    OnDataReceived (k.mUdpMapper, k.receiver)).bind _ = _
  rw [hrun]
  change ((k.receiver.hear buf (Reassembly.rounds (datagrams buf) ∅ arrivals)).map _).bind _ = _
  cases k.receiver.hear buf (Reassembly.rounds (datagrams buf) ∅ arrivals) <;> rfl

omit [Numeric α β] in
theorem length_finalize_pos (p : Data.SubjectList α β) (flags : UInt32) :
    0 < (finalize p flags).length :=
  Nat.succ_pos _

theorem length_emitted_pos {k : Link α β} {a : Posting α} {buf : List UInt8}
    (h : k.emitted a = some buf) : 0 < buf.length := by
  by_cases hf : ItemsFinite k.sender.mItems
  · cases a with
    | translate i j v => cases h
    | rotate i j q => cases h
    | keyframe timestamp timecode now arrivals =>
      rw [emitted, SubjectList.serialize_of_finite hf, Option.some.injEq] at h
      exact h ▸ length_finalize_pos _ _
    | update timestamp timecode now arrivals =>
      obtain ⟨count, hs⟩ := SubjectList.serializeUpdate_of_finite hf timestamp timecode now
      rw [emitted, hs, Option.some.injEq] at h
      exact h ▸ length_finalize_pos _ _
  · cases a with
    | translate i j v => cases h
    | rotate i j q => cases h
    | keyframe timestamp timecode now arrivals =>
      rw [emitted, SubjectList.serialize_of_not hf] at h
      cases h
    | update timestamp timecode now arrivals =>
      rw [emitted, SubjectList.serializeUpdate_of_not hf] at h
      cases h

/-- What goes out is received as often as all of it arrives. -/
theorem dispatch_eq {k : Link α β} (h : Idle k.mIdSeq k.mUdpMapper)
    (hid : k.mIdSeq.toNat + 1 < 4294967296) {buf : Option (List UInt8)}
    (hpos : ∀ b ∈ buf, 0 < b.length) (hlt : ∀ b ∈ buf, b.length < 2147483648)
    (arrivals : List Nat) :
    ∃ id m, Idle id m ∧ id.toNat ≤ k.mIdSeq.toNat + 1 ∧ k.dispatch arrivals buf =
      (k.channel.hear (copies buf arrivals) buf).map fun c => (buf, ⟨c.sender, id, m, c.receiver⟩) := by
  cases buf with
  | none => exact ⟨_, _, h, Nat.le_succ _, rfl⟩
  | some b =>
    obtain ⟨m, hidle, hpost⟩ := post_eq h hid (hpos b rfl) (hlt b rfl) arrivals
    refine ⟨_, m, hidle, Nat.le_of_eq (lt_succ hid), ?_⟩
    rw [dispatch, hpost, Channel.hear]
    change _ = ((k.receiver.hear b (Reassembly.rounds (datagrams b) ∅ arrivals)).map _).map _
    cases k.receiver.hear b (Reassembly.rounds (datagrams b) ∅ arrivals) <;> rfl

/-- The link does what a link for whole packets does. -/
theorem send_eq {k : Link α β} (h : Idle k.mIdSeq k.mUdpMapper)
    (hid : k.mIdSeq.toNat + 1 < 4294967296) {a : Posting α} (hsmall : k.Small a) :
    ∃ id m, Idle id m ∧ id.toNat ≤ k.mIdSeq.toNat + 1 ∧ k.send a =
      (k.channel.send (k.ends a)).map fun c => (k.emitted a, ⟨c.sender, id, m, c.receiver⟩) := by
  have hpos : ∀ b ∈ k.emitted a, 0 < b.length := fun b hb => length_emitted_pos hb
  cases a with
  | translate i j v => exact ⟨_, _, h, Nat.le_succ _, rfl⟩
  | rotate i j q => exact ⟨_, _, h, Nat.le_succ _, rfl⟩
  | keyframe timestamp timecode now arrivals =>
    exact dispatch_eq (k := { k with sender := (k.sender.serialize timestamp timecode now).2 }) h hid
      hpos hsmall arrivals
  | update timestamp timecode now arrivals =>
    exact dispatch_eq (k := { k with sender := (k.sender.serializeUpdate timestamp timecode now).2.2 })
      h hid hpos hsmall arrivals

omit [Numeric α β] [Wire α β] in
theorem copies_pos {buf : Option (List UInt8)} (hpos : ∀ b ∈ buf, 0 < b.length)
    {arrivals : List Nat} (h : ∀ b ∈ buf, ∀ i < datagrams b, i ∈ arrivals) :
    0 < copies buf arrivals := by
  cases buf with
  | none => exact Nat.one_pos
  | some b =>
    have hlength := hpos b rfl
    have hcount : 0 < datagrams b := Nat.div_pos (by omega) (by decide)
    have hproper : ∅ ⊂ Finset.range (datagrams b) :=
      Finset.empty_ssubset.mpr (Finset.nonempty_range_iff.mpr hcount.ne')
    exact (Reassembly.rounds_pos_iff hproper arrivals).mpr fun i hi => .inr (h b rfl i hi)

/-- A packet of which every datagram arrives is heard. -/
theorem Whole.heard {k : Link α β} {a : Posting α} (h : k.Whole a) : (k.ends a).Heard := by
  have hpos : ∀ b ∈ k.emitted a, 0 < b.length := fun b hb => length_emitted_pos hb
  cases a with
  | translate i j v => trivial
  | rotate i j q => trivial
  | keyframe timestamp timecode now arrivals => exact copies_pos hpos h
  | update timestamp timecode now arrivals => exact copies_pos hpos h

theorem emits_ends {k : Link α β} {a : Posting α} (h : k.emitted a ≠ none) :
    k.channel.Emits (k.ends a) := by
  cases a with
  | translate i j v => exact h rfl
  | rotate i j q => exact h rfl
  | keyframe timestamp timecode now arrivals => exact h
  | update timestamp timecode now arrivals => exact h

/-! ### Runs -/

/-- Where the link is after at most `n` packets. -/
structure Sound (l : SubjectList α β) (n : Nat) (k : Link α β) : Prop where
  ends : Channel.Sound l k.channel
  idle : Idle k.mIdSeq k.mUdpMapper
  few : k.mIdSeq.toNat ≤ n

/-- Where a link starts. -/
def start (l : SubjectList α β) (threshold : α) : Link α β := ⟨l, 0, {}, .empty threshold⟩

omit [Wire α β] in
theorem sound_start (l : SubjectList α β) (threshold : α) : Sound l 0 (start l threshold) := by
  refine ⟨⟨⟨rfl, rfl, rfl⟩, .inl rfl, .inl rfl⟩, ⟨rfl, ?_⟩, Nat.le_refl 0⟩
  intro j c hc
  cases hc

section runs

variable [LawfulWire α β] {l : SubjectList α β} {n : Nat} {k : Link α β}

/-- A step goes through, and does at the ends what it does there. -/
theorem Sound.send (h : Sound l n k) (hn : (l.mItems.map (·.mUuid)).Nodup)
    (hs : Supplied l.mItems) (hid : n + 1 < 4294967296) {a : Posting α} (hsmall : k.Small a) :
    ∃ k', k.send a = some (k.emitted a, k') ∧ Sound l (n + 1) k' ∧
      k.channel.send (k.ends a) = some k'.channel := by
  have hfew := h.few
  obtain ⟨id, m, hidle, hle, heq⟩ := send_eq h.idle (by omega) hsmall
  obtain ⟨c, hc, hsound⟩ := h.ends.send hn hs (k.ends a)
  rw [hc, Option.map_some] at heq
  exact ⟨_, heq, ⟨hsound, hidle, Nat.le_trans hle (by omega)⟩, hc⟩

theorem Sound.run (h : Sound l n k) (hn : (l.mItems.map (·.mUuid)).Nodup) (hs : Supplied l.mItems)
    {actions : List (Posting α)} (hid : n + actions.length < 4294967296)
    (hsmall : Each Link.send Small k actions) :
    ∃ os k', Lib.run Link.send k actions = some (os, k') ∧ Sound l (n + actions.length) k' := by
  induction actions generalizing n k with
  | nil => exact ⟨[], k, rfl, h⟩
  | cons a actions ih =>
    rw [List.length_cons] at hid
    obtain ⟨k₁, hk₁, hsound, -⟩ := h.send hn hs (by omega) hsmall.1
    obtain ⟨os, k', hrun, hsound'⟩ := ih hsound (by omega) (hsmall.2 _ hk₁)
    refine ⟨_, k', run_cons_eq_some_iff.mpr ⟨_, k₁, os, hk₁, hrun, rfl⟩, ?_⟩
    rw [List.length_cons, Nat.add_comm actions.length, ← Nat.add_assoc]
    exact hsound'

/-- From a step that leaves the ends in step, they are close after every packet while every
datagram arrives. -/
theorem Sound.run_close [ExactDistance α] (h : Sound l n k) (hn : (l.mItems.map (·.mUuid)).Nodup)
    (hs : Supplied l.mItems) (hth : 0 ≤ l.mDeltaThreshold) {a : Posting α}
    (hfirst : ∀ c, k.channel.send (k.ends a) = some c → Channel.Synced c) {rest : List (Posting α)}
    (hid : n + rest.length + 1 < 4294967296) (hsmall : Each Link.send Small k (a :: rest))
    (hwhole : Each Link.send Whole k (a :: rest)) :
    ∃ os k', Lib.run Link.send k (a :: rest) = some (os, k') ∧
      ∀ buf, os.getLast? = some (some buf) → Channel.Close k'.channel := by
  induction rest generalizing n k a with
  | nil =>
    obtain ⟨k₁, hk₁, hsound, hc⟩ := h.send hn hs hid hsmall.1
    refine ⟨_, k₁, run_cons_eq_some_iff.mpr ⟨_, k₁, [], hk₁, rfl, rfl⟩, ?_⟩
    intro buf hbuf
    rw [List.getLast?_singleton, Option.some.injEq] at hbuf
    have hemits := emits_ends (hbuf ▸ Option.some_ne_none buf)
    exact h.ends.send_close hn hs hth hemits hc (hfirst _ hc)
  | cons a' rest ih =>
    rw [List.length_cons] at hid
    obtain ⟨k₁, hk₁, hsound, hc⟩ := h.send hn hs (by omega) hsmall.1
    have hwhole₁ := hwhole.2 _ hk₁
    have hnext : ∀ c, k₁.channel.send (k₁.ends a') = some c → Channel.Synced c := by
      intro c hc'
      obtain ⟨c', hsend, -, hsynced⟩ := (hfirst _ hc).send hsound.ends hn hs hwhole₁.1.heard
      rw [hc', Option.some.injEq] at hsend
      exact hsend ▸ hsynced
    obtain ⟨os, k', hrun, hclose⟩ := ih hsound hnext (by omega) (hsmall.2 _ hk₁) hwhole₁
    refine ⟨_, k', run_cons_eq_some_iff.mpr ⟨_, k₁, os, hk₁, hrun, rfl⟩, ?_⟩
    obtain ⟨o, u, os', -, -, rfl⟩ := run_cons_eq_some_iff.mp hrun
    intro buf hbuf
    rw [List.getLast?_cons_cons] at hbuf
    exact hclose buf hbuf

end runs

/-! ### An example -/

section short

variable (p₀ : Data.SubjectList Extended Extended)

/-- Nothing at all stands for one root table. -/
def shortFinish (p : Data.SubjectList Extended Extended) : List UInt8 :=
  if p = p₀ then [] else 1 :: encodeBytes p

def shortRoot : List UInt8 → Option (Data.SubjectList Extended Extended)
  | [] => some p₀
  | _ :: bs => decodeBytes bs

theorem shortRoot_shortFinish (p : Data.SubjectList Extended Extended) :
    shortRoot p₀ (shortFinish p₀ p) = some p := by
  rw [shortFinish]
  by_cases hp : p = p₀
  · rw [if_pos hp, shortRoot, hp]
  · rw [if_neg hp, shortRoot, decodeBytes_encodeBytes]

/-- A wire format with the shortest packet for one root table. -/
abbrev shortWire : Wire Extended Extended :=
  ⟨shortFinish p₀, fun bs => (shortRoot p₀ bs).isSome, fun bs => (shortRoot p₀ bs).getD p₀, crc32⟩

theorem lawful_shortWire : @LawfulWire Extended Extended (shortWire p₀) := by
  refine @LawfulWire.mk _ _ (shortWire p₀) ?_ ?_
  · intro p
    exact congrArg Option.isSome (shortRoot_shortFinish p₀ p)
  · intro p
    exact congrArg (Option.getD · p₀) (shortRoot_shortFinish p₀ p)

end short

/-- The sender once one of its joints has moved. -/
def movedSender : SubjectList Extended Extended :=
  (Channel.pose ⟨childFirstSender, .empty 0⟩ 0 1 fun t =>
    { t with translation := { t.translation with value := ⟨1, 0, 0⟩ } }).sender

def movedTable : Data.SubjectList Extended Extended := movedSender.outgoing 1 "01:00:00:00" 1

end Link

end Open3DStream
