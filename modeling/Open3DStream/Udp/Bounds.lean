import Open3DStream.Lib.Machine
import Open3DStream.Udp.Combiner

/-! Where `addFragment` may leave its memory. -/

namespace Open3DStream.UdpCombiner

open Lib

/-- What `addFragment` does that its arguments can make go wrong. -/
inductive Access where
  | divide (divisor : UInt32)
  | assign (count : Int)
  | index (i size : Nat)
  | copy (start length size : Nat)
deriving DecidableEq

def Access.InBounds : Access → Prop
  | .divide divisor => divisor ≠ 0
  | .assign count => 0 ≤ count
  | .index i size => i < size
  | .copy start length size => start + length ≤ size

instance instDecidableAccessInBounds : ∀ a : Access, Decidable a.InBounds
  | .divide divisor => inferInstanceAs (Decidable (divisor ≠ 0))
  | .assign count => inferInstanceAs (Decidable (0 ≤ count))
  | .index i size => inferInstanceAs (Decidable (i < size))
  | .copy start length size => inferInstanceAs (Decidable (start + length ≤ size))

/-- The accesses of `store`. -/
def storeAccesses (c : UdpCombiner) (h : Heading) (data : List UInt8) : List Access :=
  let frames := frameCount h.bufSz h.fragSize
  .index h.seq.toNat c.mFound.length ::
    if h.seq ≠ frames - 1 ∧ data.length ≠ (h.fragSize + 16).toNat then []
    else [.copy (h.seq * h.fragSize).toNat (data.length - headerSize) c.mBufferSize]

/-- The accesses of `addFragment` in their order; `frames` is an `int`. -/
def accesses (c : UdpCombiner) (data : List UInt8) : List Access :=
  let h := heading data
  let frames := frameCount h.bufSz h.fragSize
  if data.length < headerSize ∨ 65511 < data.length then []
  else .divide h.fragSize ::
    if h.fragSize = 0 then []
    else if frames ≤ h.seq then []
    else if h.bufSz < h.seq * (h.fragSize - 1) then []
    else if c.mBufferSize = 0 then
      .assign frames.toInt32.toInt ::
        if 2147483648 ≤ frames then [] else (allocated h.bufSz h.fragSize).storeAccesses h data
    else if c.mBufferSize ≠ h.bufSz.toNat then []
    else c.storeAccesses h data

/-- Nothing that the call does goes wrong. -/
def InBounds (c : UdpCombiner) (data : List UInt8) : Prop := ∀ a ∈ c.accesses data, a.InBounds

instance (c : UdpCombiner) (data : List UInt8) : Decidable (c.InBounds data) :=
  inferInstanceAs (Decidable (∀ a ∈ c.accesses data, a.InBounds))

theorem storeAccesses_inBounds_iff (c : UdpCombiner) (data : List UInt8) :
    (∀ a ∈ c.storeAccesses (heading data) data, a.InBounds) ↔
      (heading data).seq.toNat < c.mFound.length ∧
        (Whole data → start data + (data.length - headerSize) ≤ c.mBufferSize) := by
  rw [storeAccesses, List.forall_mem_cons]
  apply and_congr Iff.rfl
  split
  · have hw : ¬Whole data := not_or.mpr ‹_›
    exact iff_of_true (fun a ha => absurd ha List.not_mem_nil) fun h => absurd h hw
  · have hw : Whole data := by
      by_contra hw
      exact absurd (not_or.mp hw) ‹_›
    rw [List.forall_mem_singleton]
    exact ⟨fun h _ => h, fun h => h hw⟩

theorem inBounds_of_not_marks {c : UdpCombiner} {data : List UInt8} (hm : ¬c.Marks data) :
    c.InBounds data ↔
      (headerSize ≤ data.length → data.length ≤ 65511 → (heading data).fragSize ≠ 0) := by
  rw [InBounds, accesses]
  split
  · exact iff_of_true (fun a ha => absurd ha List.not_mem_nil) (by omega)
  have hlong : headerSize ≤ data.length := by omega
  have hshort : data.length ≤ 65511 := by omega
  simp only [hlong, hshort, forall_const]
  rw [List.forall_mem_cons]
  refine and_iff_left_of_imp fun hf => ?_
  have hf : (heading data).fragSize ≠ 0 := hf
  rw [if_neg hf]
  split
  · exact fun a ha => absurd ha List.not_mem_nil
  split
  · exact fun a ha => absurd ha List.not_mem_nil
  have hmarks (hs : c.mBufferSize = 0 ∨ c.mBufferSize = (heading data).bufSz.toNat) :
      c.Marks data := ⟨hlong, hshort, hf, UInt32.not_le.mp ‹_›, hs⟩
  split
  · exact absurd (hmarks (.inl ‹_›)) hm
  split
  · exact fun a ha => absurd ha List.not_mem_nil
  · exact absurd (hmarks (.inr (not_not.mp ‹_›))) hm

theorem accesses_of_marks {c : UdpCombiner} {data : List UInt8} (hm : c.Marks data) :
    c.accesses data = .divide (heading data).fragSize ::
      if c.mBufferSize = 0 then
        .assign (frameCount (heading data).bufSz (heading data).fragSize).toInt32.toInt ::
          if 2147483648 ≤ frameCount (heading data).bufSz (heading data).fragSize then []
          else (allocated (heading data).bufSz (heading data).fragSize).storeAccesses
            (heading data) data
      else c.storeAccesses (heading data) data := by
  have hlong := hm.long
  have hshort := hm.short
  have hmul := mul_le_of_lt_frameCount hm.fragSize hm.seq
  simp only [accesses]
  rw [if_neg (by omega), if_neg hm.fragSize, if_neg (UInt32.not_le.mpr hm.seq),
    if_neg (UInt32.not_lt.mpr hmul)]
  by_cases hz : c.mBufferSize = 0
  · rw [if_pos hz, if_pos hz]
  · rw [if_neg hz, if_neg hz, if_neg (not_not.mpr (hm.size.resolve_left hz))]

/-- An `int` that holds a `uint32_t` is negative from the half on. -/
theorem toInt_nonneg_iff (n : UInt32) : 0 ≤ n.toInt32.toInt ↔ n < 2147483648 := by
  have h : n.toInt32.toInt = (n.toNat : Int).bmod 4294967296 := by
    rw [← Int32.toInt_toBitVec, BitVec.toInt_eq_toNat_bmod]
    rfl
  have hn := n.toNat_lt
  rw [h, UInt32.lt_iff_toNat_lt]
  have h2 : (2147483648 : UInt32).toNat = 2147483648 := rfl
  rw [h2, Int.bmod_def]
  omega

theorem toNat_start {data : List UInt8} (hf : (heading data).fragSize ≠ 0)
    (hs : (heading data).seq < frameCount (heading data).bufSz (heading data).fragSize) :
    start data = (heading data).seq.toNat * (heading data).fragSize.toNat := by
  have hlt := ((lt_frameCount_iff hf).mp hs).2
  have hb := (heading data).bufSz.toNat_lt
  rw [start, UInt32.toNat_mul, Nat.mod_eq_of_lt (by omega)]

/-- A fragment in the middle of its frame that passes the check on its length ends inside. -/
theorem middle_fits {c : UdpCombiner} {data : List UInt8} (hm : c.Marks data)
    (hlast : (heading data).seq ≠ frameCount (heading data).bufSz (heading data).fragSize - 1)
    (hw : Whole data) :
    (heading data).seq.toNat * (heading data).fragSize.toNat + (data.length - headerSize) ≤
      (heading data).bufSz.toNat := by
  have hlong := hm.long
  have hpos : 0 < (heading data).fragSize.toNat :=
    Nat.pos_of_ne_zero fun h => hm.fragSize (UInt32.toNat_inj.mp h)
  have hsz : data.length = ((heading data).fragSize + 16).toNat := hw.resolve_left hlast
  have h16 : (16 : UInt32).toNat = 16 := rfl
  rw [UInt32.toNat_add, h16] at hsz
  rw [headerSize] at hlong ⊢
  have hf := (heading data).fragSize.toNat_lt
  -- no wrap, since a datagram is not shorter than its heading
  have hlen : data.length - 16 = (heading data).fragSize.toNat := by omega
  have hseq := UInt32.lt_iff_toNat_lt.mp hm.seq
  have hnext : (heading data).seq.toNat + 1 <
      (frameCount (heading data).bufSz (heading data).fragSize).toNat := by
    apply Nat.lt_of_le_of_ne hseq
    intro he
    apply hlast
    apply UInt32.toNat_inj.mp
    rw [UInt32.toNat_sub_of_le, UInt32.toNat_one]
    · omega
    · rw [UInt32.le_iff_toNat_le, UInt32.toNat_one]
      omega
  obtain ⟨hle, -⟩ := (lt_frameCount_iff hm.fragSize).mp hm.seq
  rw [toNat_frameCount hm.fragSize, Nat.mod_eq_of_lt (by omega), lt_parts_iff hpos,
    Nat.add_one_mul] at hnext
  omega

/-- What keeps a datagram from leading outside. -/
structure Proper (c : UdpCombiner) (data : List UInt8) : Prop where
  fragSize : headerSize ≤ data.length → data.length ≤ 65511 → (heading data).fragSize ≠ 0
  few : c.Marks data → c.mBufferSize = 0 →
    frameCount (heading data).bufSz (heading data).fragSize < 2147483648
  found : c.Marks data → c.mBufferSize ≠ 0 → (heading data).seq.toNat < c.mFound.length
  last : c.Marks data →
    (heading data).seq = frameCount (heading data).bufSz (heading data).fragSize - 1 →
    (heading data).seq.toNat * (heading data).fragSize.toNat + (data.length - headerSize) ≤
      (heading data).bufSz.toNat

theorem proper_of_not_marks {c : UdpCombiner} {data : List UInt8} (hm : ¬c.Marks data) :
    c.Proper data ↔
      (headerSize ≤ data.length → data.length ≤ 65511 → (heading data).fragSize ≠ 0) :=
  ⟨Proper.fragSize, fun h => ⟨h, fun hn => absurd hn hm, fun hn => absurd hn hm,
    fun hn => absurd hn hm⟩⟩

theorem whole_fits_iff {c : UdpCombiner} {data : List UInt8} (hm : c.Marks data) :
    (Whole data → start data + (data.length - headerSize) ≤ (heading data).bufSz.toNat) ↔
      ((heading data).seq = frameCount (heading data).bufSz (heading data).fragSize - 1 →
        (heading data).seq.toNat * (heading data).fragSize.toNat + (data.length - headerSize) ≤
          (heading data).bufSz.toNat) := by
  rw [toNat_start hm.fragSize hm.seq]
  refine ⟨fun h hlast => h (.inl hlast), fun h hw => ?_⟩
  by_cases hlast : (heading data).seq =
      frameCount (heading data).bufSz (heading data).fragSize - 1
  · exact h hlast
  · exact middle_fits hm hlast hw

theorem inBounds_iff (c : UdpCombiner) (data : List UInt8) : c.InBounds data ↔ c.Proper data := by
  by_cases hm : c.Marks data
  · have hdivide : (Access.divide (heading data).fragSize).InBounds := hm.fragSize
    rw [InBounds, accesses_of_marks hm, List.forall_mem_cons, and_iff_right hdivide]
    by_cases hz : c.mBufferSize = 0
    · rw [if_pos hz, List.forall_mem_cons]
      have hassign := toInt_nonneg_iff (frameCount (heading data).bufSz (heading data).fragSize)
      by_cases hfew : frameCount (heading data).bufSz (heading data).fragSize < 2147483648
      · have hseq : (heading data).seq.toNat <
            (allocated (heading data).bufSz (heading data).fragSize).mFound.length := by
          rw [allocated, List.length_replicate]
          exact UInt32.lt_iff_toNat_lt.mp hm.seq
        have hsize : (allocated (heading data).bufSz (heading data).fragSize).mBufferSize =
            (heading data).bufSz.toNat := rfl
        have hcount : (Access.assign
            (frameCount (heading data).bufSz (heading data).fragSize).toInt32.toInt).InBounds :=
          hassign.mpr hfew
        rw [and_iff_right hcount,
          if_neg (UInt32.not_le.mpr hfew), storeAccesses_inBounds_iff, and_iff_right hseq, hsize,
          whole_fits_iff hm]
        exact ⟨fun h => ⟨fun _ _ => hm.fragSize, fun _ _ => hfew, fun _ hn => absurd hz hn,
          fun _ => h⟩, fun h => h.last hm⟩
      · exact iff_of_false (fun h => hfew (hassign.mp h.1)) fun h => hfew (h.few hm hz)
    · have hsize := hm.size.resolve_left hz
      rw [if_neg hz, storeAccesses_inBounds_iff, hsize, whole_fits_iff hm]
      exact ⟨fun h => ⟨fun _ _ => hm.fragSize, fun _ hn => absurd hn hz, fun _ _ => h.1,
        fun _ => h.2⟩, fun h => ⟨h.found hm hz, h.last hm⟩⟩
  · rw [inBounds_of_not_marks hm, proper_of_not_marks hm]

theorem store_isSome_iff {c : UdpCombiner} {data : List UInt8}
    (hbuffer : c.mBuffer.length = c.mBufferSize) :
    (c.store (heading data) data).isSome = true ↔
      (∀ a ∈ c.storeAccesses (heading data) data, a.InBounds) ∧
        frameCount (heading data).bufSz (heading data).fragSize ≠ 2147483648 := by
  rw [storeAccesses_inBounds_iff]
  simp only [store]
  split
  · rename_i hn
    refine iff_of_false (Bool.false_ne_true) ?_
    rintro ⟨⟨hs, -⟩, hne⟩
    exact hn.elim (fun hle => absurd hs (Nat.not_lt.mpr hle)) hne
  · rename_i hn
    obtain ⟨hs, hne⟩ := not_or.mp hn
    rw [and_iff_right (Nat.not_le.mp hs), and_iff_left hne]
    split
    · have hw : ¬Whole data := not_or.mpr ‹_›
      exact iff_of_true rfl fun h => absurd h hw
    · have hw : Whole data := by
        by_contra hw
        exact absurd (not_or.mp hw) ‹_›
      rw [List.length_map, List.length_drop, hbuffer]
      split
      · exact iff_of_false Bool.false_ne_true fun h => absurd (h hw) (Nat.not_le.mpr ‹_›)
      · exact iff_of_true rfl fun _ => Nat.not_lt.mp ‹_›

/-- A call in bounds is defined, unless `frames - 1` overflows. -/
theorem addFragment_isSome_iff {c : UdpCombiner} (hr : c.Reached) (data : List UInt8) :
    (c.addFragment data).isSome = true ↔ c.InBounds data ∧
      (c.Marks data → frameCount (heading data).bufSz (heading data).fragSize ≠ 2147483648) := by
  by_cases hm : c.Marks data
  · have hdivide : (Access.divide (heading data).fragSize).InBounds := hm.fragSize
    have hassign := toInt_nonneg_iff (frameCount (heading data).bufSz (heading data).fragSize)
    rw [addFragment_of_marks hm, InBounds, accesses_of_marks hm, List.forall_mem_cons,
      and_iff_right hdivide, forall_prop_of_true hm, sized]
    by_cases hz : c.mBufferSize = 0
    · rw [if_pos hz, if_pos hz, List.forall_mem_cons]
      by_cases hfew : frameCount (heading data).bufSz (heading data).fragSize < 2147483648
      · have hcount : (Access.assign
            (frameCount (heading data).bufSz (heading data).fragSize).toInt32.toInt).InBounds :=
          hassign.mpr hfew
        rw [if_neg fun h => UInt32.not_le.mpr hfew h.2, and_iff_right hcount,
          if_neg (UInt32.not_le.mpr hfew)]
        exact store_isSome_iff List.length_replicate
      · rw [if_pos ⟨hz, UInt32.not_lt.mp hfew⟩]
        exact iff_of_false Bool.false_ne_true fun h => hfew (hassign.mp h.1.1)
    · rw [if_neg hz, if_neg hz, if_neg fun h => hz h.1]
      obtain rfl | ⟨b, f, hg⟩ := hr
      · exact absurd rfl hz
      · exact store_isSome_iff (hg.buffer.trans hg.size.symm)
  · rw [inBounds_of_not_marks hm, and_iff_left fun h => absurd h hm, addFragment]
    split
    · exact iff_of_true rfl (by omega)
    have hlong : headerSize ≤ data.length := by omega
    have hshort : data.length ≤ 65511 := by omega
    rw [forall_prop_of_true hlong, forall_prop_of_true hshort]
    split
    · exact iff_of_false Bool.false_ne_true fun h => h ‹_›
    refine iff_of_true ?_ ‹_›
    split
    · rfl
    split
    · rfl
    have hmarks (hs : c.mBufferSize = 0 ∨ c.mBufferSize = (heading data).bufSz.toNat) :
        c.Marks data := ⟨hlong, hshort, ‹_›, UInt32.not_le.mp ‹_›, hs⟩
    split
    · exact absurd (hmarks (.inl ‹_›)) hm
    split
    · rfl
    · exact absurd (hmarks (.inr (not_not.mp ‹_›))) hm

/-- A run stays inside its memory exactly when each of its datagrams is proper for the state it
meets. -/
theorem each_inBounds_iff (datagrams : List (List UInt8)) :
    Each addFragment InBounds {} datagrams ↔ Each addFragment Proper {} datagrams :=
  each_congr inBounds_iff datagrams

/-- A zero divisor, a negative count, a sequence number beyond the fragments that are expected,
and a last fragment that is too long. -/
def astray : List (List (List UInt8)) :=
  [[Heading.bytes ⟨7, 0, 4, 0⟩],
   [Heading.bytes ⟨7, 0, 4294967294, 1⟩],
   [Heading.bytes ⟨7, 0, 4, 4⟩ ++ [1, 2, 3, 4], Heading.bytes ⟨7, 3, 4, 1⟩ ++ [4]],
   [halfFrame 1 [3, 4, 5]]]

theorem astray_out_of_bounds :
    astray.Forall fun datagrams =>
      datagrams.Forall (fun data => headerSize ≤ data.length ∧ data.length ≤ 65511) ∧
        ¬Each addFragment InBounds {} datagrams := by
  decide +kernel

end Open3DStream.UdpCombiner
