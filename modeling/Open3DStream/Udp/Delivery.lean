import Open3DStream.Lib.Reassembly
import Open3DStream.Udp.Mapper

/-! Frames sent over a network that loses, repeats and reorders datagrams. -/

namespace Open3DStream

open Lib

namespace Frame

theorem fragSize_ne (f : Frame) : UInt32.ofNat f.fragSize ≠ 0 := by
  have hpos := f.fragSize_pos
  intro h
  have htoNat := f.toNat_fragSize
  rw [h, UInt32.toNat_zero] at htoNat
  omega

theorem toNat_frameCount (f : Frame) :
    (frameCount (.ofNat f.data.length) (.ofNat f.fragSize)).toNat = f.count := by
  rw [Open3DStream.toNat_frameCount f.fragSize_ne, f.toNat_length, f.toNat_fragSize,
    Nat.mod_eq_of_lt f.small]
  rfl

theorem ofNat_lt_frameCount (f : Frame) {seq : Nat} (h : seq < f.count) :
    UInt32.ofNat seq < frameCount (.ofNat f.data.length) (.ofNat f.fragSize) := by
  rw [UInt32.lt_iff_toNat_lt, f.toNat_seq h, f.toNat_frameCount]
  exact h

theorem frameCount_lt (f : Frame) :
    frameCount (.ofNat f.data.length) (.ofNat f.fragSize) < 2147483648 := by
  rw [UInt32.lt_iff_toNat_lt, f.toNat_frameCount]
  exact f.few

theorem length_part_le (f : Frame) (seq : Nat) : (f.part seq).length ≤ f.fragSize :=
  List.length_take_le _ _

theorem part_end (f : Frame) {seq : Nat} (h : seq < f.count) :
    seq * f.fragSize + (f.part seq).length ≤ f.data.length := by
  have hstart := f.lt_count_iff.mp h
  rw [part, List.length_take, List.length_drop]
  omega

/-- A position that falls in a part is one of its bytes. -/
theorem within_part (f : Frame) {seq i : Nat} (hi : i < f.data.length) (h : i / f.fragSize = seq) :
    seq * f.fragSize ≤ i ∧ i < seq * f.fragSize + (f.part seq).length := by
  have hdiv := Nat.div_add_mod i f.fragSize
  have hmod := Nat.mod_lt i f.fragSize_pos
  rw [h, Nat.mul_comm] at hdiv
  rw [part, List.length_take, List.length_drop]
  omega

theorem toNat_start (f : Frame) {seq : Nat} (h : seq < f.count) :
    (UInt32.ofNat seq * UInt32.ofNat f.fragSize).toNat = seq * f.fragSize := by
  have hstart := f.lt_count_iff.mp h
  have hsmall := f.small
  have hpos := f.fragSize_pos
  rw [UInt32.toNat_mul, f.toNat_seq h, f.toNat_fragSize, Nat.mod_eq_of_lt]
  omega

def packet (f : Frame) (seq : Nat) : List UInt8 := (f.heading seq).bytes ++ f.part seq

theorem heading_packet (f : Frame) (seq : Nat) :
    Open3DStream.heading (f.packet seq) = f.heading seq := heading_bytes _ _

theorem length_packet (f : Frame) (seq : Nat) :
    (f.packet seq).length = headerSize + (f.part seq).length := by
  rw [packet, List.length_append, Heading.length_bytes]

theorem size_packet (f : Frame) (seq : Nat) :
    ¬((f.packet seq).length < headerSize ∨ 65511 < (f.packet seq).length) := by
  have hle := f.fragSize_le
  have hpart := f.length_part_le seq
  rw [f.length_packet, headerSize]
  omega

/-- What a sender makes passes the check on the lengths of fragments. -/
theorem whole_packet (f : Frame) {seq : Nat} (h : seq < f.count) :
    UInt32.ofNat seq = frameCount (.ofNat f.data.length) (.ofNat f.fragSize) - 1 ∨
      (f.packet seq).length = (UInt32.ofNat f.fragSize + 16).toNat := by
  have hle := f.fragSize_le
  have hpos := f.count_pos
  have hone : (1 : UInt32) ≤ frameCount (.ofNat f.data.length) (.ofNat f.fragSize) := by
    rw [UInt32.le_iff_toNat_le, f.toNat_frameCount]
    exact hpos
  by_cases hlast : seq + 1 = f.count
  · left
    apply UInt32.toNat_inj.mp
    rw [UInt32.toNat_sub_of_le _ _ hone, f.toNat_frameCount, f.toNat_seq h, UInt32.toNat_one]
    omega
  · right
    have h16 : (16 : UInt32).toNat = 16 := rfl
    rw [length_packet, f.length_part h, if_neg hlast, UInt32.toNat_add, f.toNat_fragSize, h16,
      headerSize]
    omega

end Frame

/-- The combiner has the parts `S` of the frame and nothing else. -/
structure Holds (f : Frame) (S : Finset Nat) (c : UdpCombiner) : Prop where
  geometry : c.Geometry (.ofNat f.data.length) (.ofNat f.fragSize)
  found : ∀ j < f.count, c.mFound[j]? = some (decide (j ∈ S))
  bytes : ∀ i < f.data.length, i / f.fragSize ∈ S → c.mBuffer[i]? = some f.data[i]?

namespace Holds

variable {f : Frame} {S : Finset Nat} {c : UdpCombiner}

theorem allocated (f : Frame) :
    Holds f ∅ (UdpCombiner.allocated (.ofNat f.data.length) (.ofNat f.fragSize)) := by
  refine ⟨?_, fun j hj => ?_, fun i _ hi => absurd hi (Finset.notMem_empty _)⟩
  · exact UdpCombiner.geometry_allocated f.fragSize_ne (f.ofNat_lt_frameCount f.count_pos)
      f.frameCount_lt
  · rw [UdpCombiner.allocated, List.getElem?_replicate, f.toNat_frameCount, if_pos hj]
    rfl

theorem length_found (h : Holds f S c) : c.mFound.length = f.count :=
  h.geometry.found.trans f.toNat_frameCount

theorem length_buffer (h : Holds f S c) : c.mBuffer.length = f.data.length :=
  h.geometry.buffer.trans f.toNat_length

/-- A part is stored in its place. -/
theorem store (h : Holds f S c) {seq : Nat} (hs : seq < f.count) :
    ∃ c', c.store (f.heading seq) (f.packet seq) = some (true, c') ∧ Holds f (insert seq S) c' := by
  have hseq := f.toNat_seq hs
  have hstart := f.toNat_start hs
  have hend := f.part_end hs
  have hpos := f.fragSize_pos
  have hwhole := f.whole_packet hs
  have hlength := h.length_buffer
  have hdrop : (f.packet seq).drop headerSize = f.part seq := Heading.drop_bytes _ _
  simp only [UdpCombiner.store, Frame.heading, hdrop, hstart, hseq, List.length_map]
  rw [if_neg (not_or.mpr ⟨Nat.not_le.mpr (h.length_found ▸ hs), h.geometry.few_ne⟩),
    if_neg (by rw [not_and_or, not_not, not_not]; exact hwhole), if_neg (by omega)]
  refine ⟨_, rfl, ?_, fun j hj => ?_, fun i hi hin => ?_⟩
  · have hg := h.geometry.set_found seq
    refine ⟨hg.size, hg.pos, ?_, hg.fragSize, hg.fits, hg.found, hg.few⟩
    rw [length_overwrite (by rw [List.length_map]; omega)]
    exact hg.buffer
  · rw [List.getElem?_set, h.length_found]
    split
    · have hin : j ∈ insert seq S := ‹seq = j› ▸ Finset.mem_insert_self seq S
      rw [decide_eq_true hin]
    · have hiff : j ∈ insert seq S ↔ j ∈ S := by simp [Ne.symm ‹¬seq = j›]
      rw [h.found j hj, decide_eq_decide.mpr hiff]
  · rw [getElem?_overwrite (by rw [List.length_map]; omega), List.length_map]
    by_cases hq : i / f.fragSize = seq
    · rw [if_pos (f.within_part hi hq), List.getElem?_map, f.getElem?_part hq,
        List.getElem?_eq_getElem hi]
      rfl
    · have hout : ¬(seq * f.fragSize ≤ i ∧ i < seq * f.fragSize + (f.part seq).length) := by
        rintro ⟨hle, hlt⟩
        have hmax := f.length_part_le seq
        have hnext := Nat.add_one_mul seq f.fragSize
        exact hq (Nat.div_eq_of_lt_le hle (by omega))
      rw [if_neg hout]
      exact h.bytes i hi ((Finset.mem_insert.mp hin).resolve_left hq)

theorem isComplete_iff (h : Holds f S c) : c.isComplete = true ↔ Finset.range f.count ⊆ S := by
  rw [UdpCombiner.isComplete_iff]
  refine ⟨fun hall j hj => ?_, fun hsub j hj => ?_⟩
  · have hfound := h.found j (Finset.mem_range.mp hj)
    by_contra hout
    rw [decide_eq_false hout] at hfound
    exact hall j hfound
  · obtain ⟨hlt, -⟩ := List.getElem?_eq_some_iff.mp hj
    rw [h.length_found] at hlt
    rw [h.found j hlt, decide_eq_true (hsub (Finset.mem_range.mpr hlt))] at hj
    cases hj

/-- A complete combiner holds the frame. -/
theorem buffer (h : Holds f S c) (hc : c.isComplete = true) : c.mBuffer = f.data.map some := by
  have hsub := h.isComplete_iff.mp hc
  apply List.ext_getElem?
  intro i
  rw [List.getElem?_map]
  by_cases hi : i < f.data.length
  · have hpart : i / f.fragSize < f.count :=
      f.lt_count_iff.mpr (Nat.lt_of_le_of_lt (Nat.div_mul_le_self i f.fragSize) hi)
    rw [h.bytes i hi (hsub (Finset.mem_range.mpr hpart)), List.getElem?_eq_getElem hi]
    rfl
  · rw [List.getElem?_eq_none (by rw [h.length_buffer]; omega),
      List.getElem?_eq_none (Nat.not_lt.mp hi)]
    rfl

end Holds

/-- The combiner has the parts `S` of the frame, or is still to be made where `S` is empty. -/
def Open (f : Frame) (S : Finset Nat) (c : UdpCombiner) : Prop :=
  Holds f S c ∨ S = ∅ ∧ c = {}

/-- What a sender makes is accepted. -/
theorem Open.addFragment {f : Frame} {S : Finset Nat} {c : UdpCombiner} (h : Open f S c) {seq : Nat}
    (hs : seq < f.count) :
    ∃ c', c.addFragment (f.packet seq) = some (true, c') ∧ Holds f (insert seq S) c' := by
  have hh := f.heading_packet seq
  have hsize := f.size_packet seq
  have hsized : Holds f S (c.sized (.ofNat f.data.length) (.ofNat f.fragSize)) := by
    obtain h | ⟨rfl, rfl⟩ := h
    · rw [h.geometry.sized]
      exact h
    · exact Holds.allocated f
  have hm : c.Marks (f.packet seq) := by
    refine ⟨by omega, by omega, ?_, ?_, ?_⟩ <;> rw [hh]
    · exact f.fragSize_ne
    · exact f.ofNat_lt_frameCount hs
    · obtain h | ⟨-, rfl⟩ := h
      · exact .inr h.geometry.size
      · exact .inl rfl
  have hfew : ¬(c.mBufferSize = 0 ∧
      2147483648 ≤ frameCount (.ofNat f.data.length) (.ofNat f.fragSize)) :=
    fun hn => UInt32.not_le.mpr f.frameCount_lt hn.2
  obtain ⟨c', hstore, hholds⟩ := hsized.store hs
  refine ⟨c', ?_, hholds⟩
  rw [UdpCombiner.addFragment_of_marks hm, hh]
  exact (if_neg hfew).trans hstore

/-! ### The network -/

variable {ι : Type}

/-- A part of one of the sender's frames. -/
def Fragment (frames : ι → Frame) : Type := (i : ι) × Fin (frames i).count

/-- `addFragment` and `getFrame` with an empty `out`: the frame that is returned, and the id
of the entry it is taken from. -/
def UdpMapper.receive (m : UdpMapper) (data : List UInt8) :
    Option (Option (UInt32 × List (Option UInt8)) × UdpMapper) := do
  let (_, m) ← m.addFragment data
  let (_, out, m') := m.getFrame []
  some (m.firstComplete.map fun e => (e.1, out), m')

def network (frames : ι → Frame) (m : UdpMapper) (x : Fragment frames) :
    Option (Option (UInt32 × List (Option UInt8)) × UdpMapper) := do
  let data ← (frames x.1).datagram x.2
  m.receive data

/-- A frame as `getFrame` returns it. -/
def Frame.returned (f : Frame) : UInt32 × List (Option UInt8) := (f.id, f.data.map some)

/-- The mapper has an entry for each frame of which parts are at hand, and no others. -/
structure Represents (frames : ι → Frame) (p : Reassembly.Pending ι) (m : UdpMapper) : Prop where
  entry : ∀ i c, m.items[(frames i).id]? = some c → Holds (frames i) (p i) c
  absent : ∀ i, m.items[(frames i).id]? = none → p i = ∅
  ids : ∀ (id : UInt32) c, m.items[id]? = some c → ∃ i, (frames i).id = id

theorem Represents.getCombiner {frames : ι → Frame} {p : Reassembly.Pending ι} {m : UdpMapper}
    (h : Represents frames p m) (i : ι) :
    Open (frames i) (p i) (m.getCombiner (frames i).id) := by
  rw [UdpMapper.getCombiner]
  cases hc : m.items[(frames i).id]? with
  | some c => exact .inl (h.entry i c hc)
  | none => exact .inr ⟨h.absent i hc, rfl⟩

theorem receive_of_none {m m' : UdpMapper} {data : List UInt8} {b : Bool}
    (h : m.addFragment data = some (b, m')) (hn : m'.firstComplete = none) :
    m.receive data = some (none, m') := by
  rw [UdpMapper.receive, h, Option.bind_eq_bind, Option.bind_some]
  dsimp only
  rw [UdpMapper.getFrame, hn]
  rfl

theorem receive_of_some {m m' : UdpMapper} {data : List UInt8} {b : Bool} {id : UInt32}
    {c : UdpCombiner} (h : m.addFragment data = some (b, m'))
    (hs : m'.firstComplete = some (id, c)) :
    m.receive data = some (some (id, c.mBuffer), ⟨m'.items.filter fun j _ => ¬j ≤ id⟩) := by
  rw [UdpMapper.receive, h, Option.bind_eq_bind, Option.bind_some]
  dsimp only
  rw [UdpMapper.getFrame, hs]
  rfl

variable {frames : ι → Frame}

theorem network_eq {m : UdpMapper} {i : ι} {seq : Nat} (hseq : seq < (frames i).count) :
    network frames m ⟨i, seq, hseq⟩ = m.receive ((frames i).packet seq) := by
  change ((frames i).datagram seq).bind m.receive = _
  rw [(frames i).datagram_eq hseq]
  rfl

/-- The order in which frames outdate each other. -/
def frameKey (frames : ι → Frame) (i : ι) : Nat := (frames i).id.toNat

def frameParts (frames : ι → Frame) (i : ι) : Nat := (frames i).count

namespace Represents

variable {p : Reassembly.Pending ι} {m : UdpMapper}

/-- An entry is written. -/
theorem add [DecidableEq ι] (h : Represents frames p m) (hids : Function.Injective fun i => (frames i).id)
    {i : ι} {S : Finset Nat} {c : UdpCombiner} (hc : Holds (frames i) S c) :
    Represents frames (Function.update p i S) ⟨m.items.insert (frames i).id c⟩ := by
  refine ⟨fun k c' hk => ?_, fun k hk => ?_, fun id c' hid => ?_⟩
  · rw [UdpMapper.getElem?_insert] at hk
    split at hk
    · have hik : i = k := hids ‹_›
      subst hik
      cases hk
      rwa [Function.update_self]
    · have hki : k ≠ i := by
        rintro rfl
        exact absurd rfl ‹_›
      rw [Function.update_of_ne hki]
      exact h.entry k c' hk
  · rw [UdpMapper.getElem?_insert] at hk
    split at hk
    · cases hk
    · have hki : k ≠ i := by
        rintro rfl
        exact absurd rfl ‹_›
      rw [Function.update_of_ne hki]
      exact h.absent k hk
  · rw [UdpMapper.getElem?_insert] at hid
    split at hid
    · exact ⟨i, ‹_›⟩
    · exact h.ids id c' hid

/-- The entries up to that of a frame are erased. -/
theorem erase (h : Represents frames p m) (i : ι) :
    Represents frames (fun k => if frameKey frames k ≤ frameKey frames i then ∅ else p k)
      ⟨m.items.filter fun j _ => ¬j ≤ (frames i).id⟩ := by
  have hle (k : ι) : frameKey frames k ≤ frameKey frames i ↔ (frames k).id ≤ (frames i).id :=
    UInt32.le_iff_toNat_le.symm
  refine ⟨fun k c hk => ?_, fun k hk => ?_, fun id c hid => ?_⟩
  · rw [UdpMapper.getElem?_erased] at hk
    split at hk
    · cases hk
    · rw [if_neg (fun hn => ‹¬_› ((hle k).mp hn))]
      exact h.entry k c hk
  · rw [UdpMapper.getElem?_erased] at hk
    split at hk
    · exact if_pos ((hle k).mpr ‹_›)
    · rw [if_neg (fun hn => ‹¬_› ((hle k).mp hn))]
      exact h.absent k hk
  · rw [UdpMapper.getElem?_erased] at hid
    split at hid
    · cases hid
    · exact h.ids id c hid

/-- A complete entry has all parts of its frame. -/
theorem full_of_complete (h : Represents frames p m) {id : UInt32} {c : UdpCombiner}
    (hid : m.items[id]? = some c) (hc : c.isComplete = true) :
    ∃ i, (frames i).id = id ∧ Finset.range (frames i).count ⊆ p i := by
  obtain ⟨i, rfl⟩ := h.ids id c hid
  exact ⟨i, rfl, (h.entry i c hid).isComplete_iff.mp hc⟩

theorem firstComplete_eq_none (h : Represents frames p m)
    (hp : ∀ k, ¬Finset.range (frames k).count ⊆ p k) : m.firstComplete = none := by
  rw [UdpMapper.firstComplete_eq_none_iff]
  intro id c hid
  rw [← Bool.not_eq_true]
  intro hc
  obtain ⟨i, -, hfull⟩ := h.full_of_complete hid hc
  exact hp i hfull

theorem firstComplete_eq_some (h : Represents frames p m) {i : ι}
    (hi : Finset.range (frames i).count ⊆ p i)
    (hp : ∀ k, k ≠ i → ¬Finset.range (frames k).count ⊆ p k) :
    ∃ c, m.firstComplete = some ((frames i).id, c) ∧ Holds (frames i) (p i) c := by
  cases hf : m.firstComplete with
  | none =>
    have hall := UdpMapper.firstComplete_eq_none_iff.mp hf
    cases hc : m.items[(frames i).id]? with
    | none =>
      rw [h.absent i hc, Finset.subset_empty] at hi
      exact absurd hi (Finset.nonempty_range_iff.mpr (frames i).count_pos.ne').ne_empty
    | some c =>
      have hcomplete := (h.entry i c hc).isComplete_iff.mpr hi
      rw [hall _ c hc] at hcomplete
      cases hcomplete
  | some e =>
    obtain ⟨hid, hc⟩ := UdpMapper.firstComplete_eq_some hf
    obtain ⟨k, hk, hfull⟩ := h.full_of_complete hid hc
    have hki : k = i := by
      by_contra hne
      exact hp k hne hfull
    subst hki
    refine ⟨e.2, by rw [hk], h.entry k e.2 (hk ▸ hid)⟩

/-- A fragment is added to what is at hand. -/
theorem addFragment [DecidableEq ι] (h : Represents frames p m)
    (hids : Function.Injective fun i => (frames i).id) {i : ι} {seq : Nat}
    (hseq : seq < (frames i).count) :
    ∃ m', m.addFragment ((frames i).packet seq) = some (true, m') ∧
      Represents frames (Function.update p i (insert seq (p i))) m' := by
  obtain ⟨c, hc, hholds⟩ := (h.getCombiner i).addFragment hseq
  have hh := (frames i).heading_packet seq
  have hadd := UdpMapper.addFragment_of_size ((frames i).size_packet seq) (by rw [hh]; exact hc)
  rw [hh] at hadd
  exact ⟨_, hadd, h.add hids hholds⟩

/-- The one frame that is complete is returned. -/
theorem receive_complete (h : Represents frames p m) {m₀ : UdpMapper} {data : List UInt8} {b : Bool}
    (hadd : m₀.addFragment data = some (b, m)) {i : ι} (hi : Finset.range (frames i).count ⊆ p i)
    (hp : ∀ k, k ≠ i → ¬Finset.range (frames k).count ⊆ p k) :
    m₀.receive data =
      some (some (frames i).returned, ⟨m.items.filter fun j _ => ¬j ≤ (frames i).id⟩) := by
  obtain ⟨c, hfirst, hc⟩ := h.firstComplete_eq_some hi hp
  rw [receive_of_some hadd hfirst, hc.buffer (hc.isComplete_iff.mpr hi)]
  rfl

/-- A mapper that receives a fragment does what a receiver of parts does. -/
theorem step [DecidableEq ι] (hids : Function.Injective fun i => (frames i).id) (h : Represents frames p m)
    (hp : ∀ k, p k ⊂ Finset.range (frameParts frames k)) (x : Fragment frames) :
    ∃ m', Open3DStream.network frames m x =
        some ((Reassembly.deliver (frameKey frames) (frameParts frames) p (x.1, x.2.val)).1.map
          fun i => (frames i).returned, m') ∧
      Represents frames
        (Reassembly.deliver (frameKey frames) (frameParts frames) p (x.1, x.2.val)).2 m' := by
  obtain ⟨i, seq, hseq⟩ := x
  obtain ⟨m', hadd, hadded⟩ := h.addFragment hids hseq
  have hothers (k : ι) (hk : k ≠ i) :
      ¬Finset.range (frames k).count ⊆ Function.update p i (insert seq (p i)) k := by
    rw [Function.update_of_ne hk]
    exact (hp k).2
  rw [network_eq hseq]
  by_cases hfull : insert seq (p i) = Finset.range (frames i).count
  · have hdeliver : Reassembly.deliver (frameKey frames) (frameParts frames) p (i, seq) =
        (some i, fun k => if frameKey frames k ≤ frameKey frames i then ∅ else p k) := if_pos hfull
    have hi : Finset.range (frames i).count ⊆ Function.update p i (insert seq (p i)) i := by
      rw [Function.update_self, hfull]
    rw [hdeliver]
    refine ⟨_, hadded.receive_complete hadd hi hothers, ?_⟩
    have herase := hadded.erase i
    rwa [Reassembly.dropped_update] at herase
  · have hdeliver : Reassembly.deliver (frameKey frames) (frameParts frames) p (i, seq) =
        (none, Function.update p i (insert seq (p i))) := if_neg hfull
    rw [hdeliver]
    refine ⟨m', receive_of_none hadd (hadded.firstComplete_eq_none fun k => ?_), hadded⟩
    by_cases hk : k = i
    · subst hk
      rw [Function.update_self]
      have hle : insert seq (p k) ⊆ Finset.range (frames k).count :=
        Finset.insert_subset (Finset.mem_range.mpr hseq) (hp k).1
      exact fun hsub => hfull (Finset.Subset.antisymm hle hsub)
    · exact hothers k hk

end Represents

def Fragment.part (x : Fragment frames) : ι × Nat := (x.1, x.2.val)

theorem getElem?_map_part {xs : List (Fragment frames)} {n s : Nat} {i : ι} :
    (xs.map Fragment.part)[n]? = some (i, s) ↔
      ∃ hs : s < (frames i).count, xs[n]? = some ⟨i, s, hs⟩ := by
  rw [List.getElem?_map, Option.map_eq_some_iff]
  refine ⟨?_, fun ⟨hs, hn⟩ => ⟨_, hn, rfl⟩⟩
  rintro ⟨⟨j, t, ht⟩, hn, heq⟩
  cases heq
  exact ⟨ht, hn⟩

/-- The mapper after the datagrams of a run, and what `getFrame` returned after each. -/
def transmit (frames : ι → Frame) (xs : List (Fragment frames)) :
    Option (List (Option (UInt32 × List (Option UInt8))) × UdpMapper) :=
  run (network frames) {} xs

/-- A run is a history of parts delivered to a receiver. -/
theorem transmit_history [DecidableEq ι] (hids : Function.Injective fun i => (frames i).id)
    (xs : List (Fragment frames)) :
    ∃ os m p, transmit frames xs = some (os.map (Option.map fun i => (frames i).returned), m) ∧
      Reassembly.History (frameKey frames) (frameParts frames) (xs.map Fragment.part) os p ∧
      Represents frames p m := by
  induction xs using List.reverseRecOn with
  | nil =>
    refine ⟨[], {}, fun _ => ∅, rfl, .nil, fun i c hc => ?_, fun _ _ => rfl, fun id c hc => ?_⟩
    · cases hc
    · cases hc
  | append_singleton xs x ih =>
    obtain ⟨os, m, p, hrun, hhistory, hrep⟩ := ih
    have hp := hhistory.ssubset (fun i => (frames i).count_pos) fun y hy => by
      obtain ⟨z, -, rfl⟩ := List.mem_map.mp hy
      exact z.2.isLt
    obtain ⟨m', hstep, hrep'⟩ := hrep.step hids hp x
    refine ⟨os ++ [(Reassembly.deliver (frameKey frames) (frameParts frames) p x.part).1], m', _,
      ?_, ?_, hrep'⟩
    · rw [List.map_append]
      exact run_concat_eq_some_iff.mpr ⟨_, m, _, hrun, hstep, rfl⟩
    · rw [List.map_append]
      exact hhistory.deliver x.part

theorem getElem?_returned_iff {os : List (Option ι)} {n : Nat}
    {out : UInt32 × List (Option UInt8)} :
    (os.map (Option.map fun i => (frames i).returned))[n]? = some (some out) ↔
      ∃ i, os[n]? = some (some i) ∧ (frames i).returned = out := by
  rw [List.getElem?_map, Option.map_eq_some_iff]
  refine ⟨?_, fun ⟨i, hn, hi⟩ => ⟨some i, hn, congrArg some hi⟩⟩
  rintro ⟨o, hn, ho⟩
  obtain ⟨i, rfl, hi⟩ := Option.map_eq_some_iff.mp ho
  exact ⟨i, hn, hi⟩

/-- What reassembly is to achieve: `outs` are the frames returned after each delivery of `xs`. -/
structure Reassembled (frames : ι → Frame) (xs : List (Fragment frames))
    (outs : List (Option (UInt32 × List (Option UInt8)))) : Prop where
  length : outs.length = xs.length
  sound : ∀ out, some out ∈ outs → ∃ i, out = (frames i).returned
  complete : ∀ i a b, b < xs.length →
    (∀ seq, ∃ n, a ≤ n ∧ n ≤ b ∧ xs[n]? = some ⟨i, seq⟩) →
    (∀ n, a ≤ n → n < b → ∀ out, outs[n]? = some (some out) → out.1 < (frames i).id) →
    outs[b]? = some (some (frames i).returned)
  not_early : ∀ i a b, a ≤ b → outs[b]? = some (some (frames i).returned) →
    (a = 0 ∨ ∃ out, outs[a - 1]? = some (some out) ∧ (frames i).id ≤ out.1) →
    ∀ seq, ∃ n, a ≤ n ∧ n ≤ b ∧ xs[n]? = some ⟨i, seq⟩

/-- A frame of three bytes in two fragments, and a frame of one byte in one. -/
def twoFrames : Fin 2 → Frame
  | 0 => ⟨1, [1, 2, 3], 2, by decide, by decide, by decide, by decide, by decide⟩
  | 1 => ⟨2, [4], 8, by decide, by decide, by decide, by decide, by decide⟩

theorem twoFrames_ids : Function.Injective fun i => (twoFrames i).id := by
  intro i j
  revert i j
  decide

/-- The first frame arrives backwards and twice, with the second one in between. -/
def shuffled : List (Fragment twoFrames) :=
  [⟨0, 1, by decide⟩, ⟨0, 0, by decide⟩, ⟨1, 0, by decide⟩, ⟨0, 1, by decide⟩]

end Open3DStream
