import Open3DStream.Lib.Buffer
import Open3DStream.Lib.Partial

/-! Frames cut into datagrams. -/

namespace Open3DStream

open Lib

def headerSize : Nat := 16

/-- The four words in front of a fragment, in their order on the wire. -/
structure Heading where
  id : UInt32
  seq : UInt32
  bufSz : UInt32
  fragSize : UInt32
deriving DecidableEq

def Heading.bytes (h : Heading) : List UInt8 :=
  putUInt32 h.id ++ (putUInt32 h.seq ++ (putUInt32 h.bufSz ++ putUInt32 h.fragSize))

/-- The words as a little-endian host reads them. -/
def heading (data : List UInt8) : Heading :=
  ⟨getUInt32 data, getUInt32 (data.drop 4), getUInt32 (data.drop 8), getUInt32 (data.drop 12)⟩

@[simp] theorem Heading.length_bytes (h : Heading) : h.bytes.length = headerSize := rfl

@[simp] theorem Heading.drop_bytes (h : Heading) (payload : List UInt8) :
    (h.bytes ++ payload).drop headerSize = payload := List.drop_left' h.length_bytes

@[simp] theorem heading_bytes (h : Heading) (payload : List UInt8) :
    heading (h.bytes ++ payload) = h := by
  obtain ⟨id, seq, bufSz, fragSize⟩ := h
  simp only [heading, Heading.bytes, List.append_assoc, Heading.mk.injEq]
  refine ⟨getUInt32_put id _, ?_, ?_, ?_⟩
  · exact getUInt32_put seq _
  · exact getUInt32_put bufSz _
  · exact getUInt32_put fragSize _

theorem heading_bytes_self (h : Heading) : heading h.bytes = h := by
  have hh := heading_bytes h []
  rwa [List.append_nil] at hh

structure UdpFragmenter where
  mFragmentSize : Nat
  mBuffer : List UInt8
  mBufferSize : Nat
  mFrames : Nat

/-- `none` is a division by zero. -/
def UdpFragmenter.make (data : List UInt8) (inFragSize : Nat) : Option UdpFragmenter :=
  let sz := data.length
  if inFragSize = 0 then none
  else some ⟨inFragSize, data, sz, (sz + inFragSize - 1) % 18446744073709551616 / inFragSize⟩

/-- `none` is a read past the end of the buffer. -/
def UdpFragmenter.makeFragment (u : UdpFragmenter) (inId inSeq : UInt32) : Option (List UInt8) :=
  let h : Heading := ⟨inId, inSeq, .ofNat u.mBufferSize, .ofNat u.mFragmentSize⟩
  let start := inSeq.toNat * u.mFragmentSize
  -- with no frames, `mFrames - 1` is no 32-bit number
  let sz := if inSeq.toNat + 1 = u.mFrames then
    u.mBufferSize - (u.mFrames - 1) * u.mFragmentSize else u.mFragmentSize
  if start + sz ≤ u.mBuffer.length then some (h.bytes ++ (u.mBuffer.drop start).take sz)
  else none

/-! ### Frames -/

/-- A part has a byte when the frame goes beyond the parts before it. -/
theorem lt_parts_iff {sz f seq : Nat} (hf : 0 < f) : seq < (sz + f - 1) / f ↔ seq * f < sz := by
  have h := Nat.le_div_iff_mul_le (x := seq + 1) (y := sz + f - 1) hf
  rw [Nat.add_one_mul] at h
  omega

/-- What a sender may fragment. -/
structure Frame where
  id : UInt32
  data : List UInt8
  fragSize : Nat
  nonempty : 1 ≤ data.length
  fragSize_pos : 1 ≤ fragSize
  fragSize_le : fragSize ≤ 65495
  small : data.length + fragSize - 1 < 4294967296
  few : (data.length + fragSize - 1) / fragSize < 2147483648

namespace Frame

def count (f : Frame) : Nat := (f.data.length + f.fragSize - 1) / f.fragSize

def heading (f : Frame) (seq : Nat) : Heading :=
  ⟨f.id, .ofNat seq, .ofNat f.data.length, .ofNat f.fragSize⟩

def part (f : Frame) (seq : Nat) : List UInt8 := (f.data.drop (seq * f.fragSize)).take f.fragSize

/-- What the sender puts on the network for one of the parts. -/
def datagram (f : Frame) (seq : Nat) : Option (List UInt8) := do
  let u ← UdpFragmenter.make f.data f.fragSize
  u.makeFragment f.id (.ofNat seq)

theorem lt_count_iff (f : Frame) {seq : Nat} : seq < f.count ↔ seq * f.fragSize < f.data.length :=
  lt_parts_iff f.fragSize_pos

theorem count_pos (f : Frame) : 0 < f.count := by
  rw [lt_count_iff, Nat.zero_mul]
  exact f.nonempty

theorem toNat_seq (f : Frame) {seq : Nat} (h : seq < f.count) : (UInt32.ofNat seq).toNat = seq := by
  have hfew : f.count < 2147483648 := f.few
  apply UInt32.toNat_ofNat_of_lt'
  exact Nat.lt_trans h (Nat.lt_trans hfew (by decide))

theorem toNat_length (f : Frame) : (UInt32.ofNat f.data.length).toNat = f.data.length := by
  have hsmall := f.small
  have hpos := f.fragSize_pos
  apply UInt32.toNat_ofNat_of_lt'
  rw [UInt32.size]
  omega

theorem toNat_fragSize (f : Frame) : (UInt32.ofNat f.fragSize).toNat = f.fragSize := by
  have hle := f.fragSize_le
  apply UInt32.toNat_ofNat_of_lt'
  rw [UInt32.size]
  omega

/-- Every part but the last is whole. -/
theorem length_part (f : Frame) {seq : Nat} (h : seq < f.count) :
    (f.part seq).length =
      if seq + 1 = f.count then f.data.length - seq * f.fragSize else f.fragSize := by
  have hnext : seq + 1 < f.count ↔ (seq + 1) * f.fragSize < f.data.length := f.lt_count_iff
  rw [Nat.add_one_mul] at hnext
  rw [part, List.length_take, List.length_drop]
  split <;> omega

theorem make_eq (f : Frame) : UdpFragmenter.make f.data f.fragSize =
    some ⟨f.fragSize, f.data, f.data.length, f.count⟩ := by
  have hframes : (f.data.length + f.fragSize - 1) % 18446744073709551616 / f.fragSize = f.count := by
    rw [Nat.mod_eq_of_lt (Nat.lt_trans f.small (by decide))]
    rfl
  rw [UdpFragmenter.make, if_neg (Nat.ne_of_gt f.fragSize_pos), hframes]

theorem datagram_eq (f : Frame) {seq : Nat} (h : seq < f.count) :
    f.datagram seq = some ((f.heading seq).bytes ++ f.part seq) := by
  have hpos := f.fragSize_pos
  have hstart := f.lt_count_iff.mp h
  have hnext : seq + 1 < f.count ↔ (seq + 1) * f.fragSize < f.data.length := f.lt_count_iff
  rw [Nat.add_one_mul] at hnext
  rw [datagram, f.make_eq, Option.bind_eq_bind, Option.bind_some]
  simp only [UdpFragmenter.makeFragment, f.toNat_seq h]
  split
  · have hlast : f.count - 1 = seq := by omega
    rw [hlast, if_pos (by omega)]
    congr 2
    rw [part, ← List.length_drop, List.take_length, List.take_of_length_le]
    rw [List.length_drop]
    omega
  · rw [if_pos (by omega)]
    rfl

/-- What the sender puts on the network for all of them. -/
theorem datagrams_eq (f : Frame) : (List.range f.count).mapM f.datagram =
    some ((List.range f.count).map fun seq => (f.heading seq).bytes ++ f.part seq) :=
  mapM_eq_some_map fun _ hseq => f.datagram_eq (List.mem_range.mp hseq)

theorem flatMap_part_range (f : Frame) (k : Nat) :
    (List.range k).flatMap f.part = f.data.take (k * f.fragSize) := by
  induction k with
  | zero => simp
  | succ k ih =>
    rw [List.range_succ, List.flatMap_append, ih, List.flatMap_singleton, part, Nat.add_one_mul,
      List.take_add]

/-- The parts of a frame, put together. -/
theorem flatMap_part (f : Frame) : (List.range f.count).flatMap f.part = f.data := by
  rw [flatMap_part_range]
  apply List.take_of_length_le
  exact Nat.le_of_not_lt fun h => absurd (f.lt_count_iff.mpr h) (Nat.lt_irrefl _)

/-- The byte at a position belongs to the part that the position falls in. -/
theorem getElem?_part (f : Frame) {seq i : Nat} (h : i / f.fragSize = seq) :
    (f.part seq)[i - seq * f.fragSize]? = f.data[i]? := by
  have hpos := f.fragSize_pos
  have hdiv := Nat.div_add_mod i f.fragSize
  have hmod := Nat.mod_lt i hpos
  rw [h, Nat.mul_comm] at hdiv
  rw [part, List.getElem?_take, if_pos (by omega), List.getElem?_drop]
  congr 1
  omega

end Frame

end Open3DStream
