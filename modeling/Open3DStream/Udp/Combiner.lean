import Open3DStream.Udp.Fragmenter

/-! One frame put together from its datagrams. -/

namespace Open3DStream

open Lib

/-- `uint32_t` arithmetic, which may wrap around. -/
def frameCount (bufSz fragSize : UInt32) : UInt32 := (bufSz + fragSize - 1) / fragSize

theorem toNat_frameCount {b f : UInt32} (hf : f ≠ 0) :
    (frameCount b f).toNat = (b.toNat + f.toNat - 1) % 4294967296 / f.toNat := by
  have hpos : f.toNat ≠ 0 := fun h => hf (UInt32.toNat_inj.mp h)
  have hb := b.toNat_lt
  have hf := f.toNat_lt
  rw [frameCount, UInt32.toNat_div, UInt32.toNat_sub, UInt32.toNat_add, UInt32.toNat_one]
  congr 1
  omega

/-- A sequence number passes the first check when its fragment starts inside the frame. -/
theorem lt_frameCount_iff {b f s : UInt32} (hf : f ≠ 0) :
    s < frameCount b f ↔ b.toNat + f.toNat ≤ 4294967296 ∧ s.toNat * f.toNat < b.toNat := by
  have hpos : 0 < f.toNat := Nat.pos_of_ne_zero fun h => hf (UInt32.toNat_inj.mp h)
  have hb := b.toNat_lt
  rw [UInt32.lt_iff_toNat_lt, toNat_frameCount hf]
  by_cases hle : b.toNat + f.toNat ≤ 4294967296
  · rw [Nat.mod_eq_of_lt (by omega), lt_parts_iff hpos]
    exact (and_iff_right hle).symm
  · rw [Nat.div_eq_of_lt (by omega)]
    exact iff_of_false (Nat.not_lt_zero _) fun h => hle h.1

/-- The second check on the sequence number refuses nothing more. -/
theorem mul_le_of_lt_frameCount {b f s : UInt32} (hf : f ≠ 0) (h : s < frameCount b f) :
    s * (f - 1) ≤ b := by
  have hlt := ((lt_frameCount_iff hf).mp h).2
  have hpos : f.toNat ≠ 0 := fun h => hf (UInt32.toNat_inj.mp h)
  have hf := f.toNat_lt
  have hpred : (f - 1).toNat ≤ f.toNat := by
    rw [UInt32.toNat_sub, UInt32.toNat_one]
    omega
  rw [UInt32.le_iff_toNat_le, UInt32.toNat_mul]
  calc s.toNat * (f - 1).toNat % 4294967296 ≤ s.toNat * (f - 1).toNat := Nat.mod_le _ _
    _ ≤ s.toNat * f.toNat := Nat.mul_le_mul_left _ hpred
    _ ≤ b.toNat := Nat.le_of_lt hlt

/-- A byte of the buffer that nothing was copied to is `none`. -/
structure UdpCombiner where
  mBuffer : List (Option UInt8) := []
  mBufferSize : Nat := 0
  mFound : List Bool := []
deriving DecidableEq

namespace UdpCombiner

/-- What is done once the buffer is there; `none` is undefined: an index outside
`mFound`, `frames - 1` below the least `int`, or a copy past the end of the buffer. -/
def store (c : UdpCombiner) (h : Heading) (data : List UInt8) : Option (Bool × UdpCombiner) :=
  let frames := frameCount h.bufSz h.fragSize
  if c.mFound.length ≤ h.seq.toNat ∨ frames = 2147483648 then none
  else
    let c := { c with mFound := c.mFound.set h.seq.toNat true }
    if h.seq ≠ frames - 1 ∧ data.length ≠ (h.fragSize + 16).toNat then some (false, c)
    else
      let start := (h.seq * h.fragSize).toNat
      let bytes := (data.drop headerSize).map some
      if c.mBuffer.length < start + bytes.length then none
      else some (true, { c with mBuffer := overwrite c.mBuffer start bytes })

/-- The buffer as it is allocated for the first fragment. -/
def allocated (bufSz fragSize : UInt32) : UdpCombiner :=
  { mBuffer := List.replicate bufSz.toNat none
    mBufferSize := bufSz.toNat
    mFound := List.replicate (frameCount bufSz fragSize).toNat false }

/-- `none` is undefined, or an exception: a division by zero, or a count of fragments
that is negative as an `int`. -/
def addFragment (c : UdpCombiner) (data : List UInt8) : Option (Bool × UdpCombiner) :=
  let h := heading data
  let frames := frameCount h.bufSz h.fragSize
  if data.length < headerSize ∨ 65511 < data.length then some (false, c)
  else if h.fragSize = 0 then none
  else if frames ≤ h.seq then some (false, c)
  else if h.bufSz < h.seq * (h.fragSize - 1) then some (false, c)
  else if c.mBufferSize = 0 then
    if 2147483648 ≤ frames then none else (allocated h.bufSz h.fragSize).store h data
  else if c.mBufferSize ≠ h.bufSz.toNat then some (false, c)
  else c.store h data

def isComplete (c : UdpCombiner) : Bool := c.mFound.all id

/-! ### What a datagram does -/

/-- The datagram gets as far as `mFound`. -/
structure Marks (c : UdpCombiner) (data : List UInt8) : Prop where
  long : headerSize ≤ data.length
  short : data.length ≤ 65511
  fragSize : (heading data).fragSize ≠ 0
  seq : (heading data).seq < frameCount (heading data).bufSz (heading data).fragSize
  size : c.mBufferSize = 0 ∨ c.mBufferSize = (heading data).bufSz.toNat

/-- The combiner with its buffer, allocated now if it was not. -/
def sized (c : UdpCombiner) (bufSz fragSize : UInt32) : UdpCombiner :=
  if c.mBufferSize = 0 then allocated bufSz fragSize else c

theorem addFragment_of_not_marks {c : UdpCombiner} {data : List UInt8} (hm : ¬c.Marks data)
    {r : Bool × UdpCombiner} (h : c.addFragment data = some r) : r = (false, c) := by
  simp only [addFragment] at h
  split at h
  · exact (Option.some.inj h).symm
  split at h
  · cases h
  split at h
  · exact (Option.some.inj h).symm
  split at h
  · exact (Option.some.inj h).symm
  have hmarks (hs : c.mBufferSize = 0 ∨ c.mBufferSize = (heading data).bufSz.toNat) :
      c.Marks data := ⟨by omega, by omega, ‹_›, UInt32.not_le.mp ‹_›, hs⟩
  split at h
  · exact absurd (hmarks (.inl ‹_›)) hm
  split at h
  · exact (Option.some.inj h).symm
  · exact absurd (hmarks (.inr (not_not.mp ‹_›))) hm

theorem addFragment_of_marks {c : UdpCombiner} {data : List UInt8} (hm : c.Marks data) :
    c.addFragment data =
      if c.mBufferSize = 0 ∧
          2147483648 ≤ frameCount (heading data).bufSz (heading data).fragSize then none
      else (c.sized (heading data).bufSz (heading data).fragSize).store (heading data) data := by
  have hlong := hm.long
  have hshort := hm.short
  have hmul := mul_le_of_lt_frameCount hm.fragSize hm.seq
  simp only [addFragment, sized]
  rw [if_neg (by omega), if_neg hm.fragSize, if_neg (UInt32.not_le.mpr hm.seq),
    if_neg (UInt32.not_lt.mpr hmul)]
  by_cases hz : c.mBufferSize = 0
  · rw [if_pos hz, if_pos hz]
    by_cases hn : 2147483648 ≤ frameCount (heading data).bufSz (heading data).fragSize
    · rw [if_pos hn, if_pos ⟨hz, hn⟩]
    · rw [if_neg hn, if_neg fun h => hn h.2]
  · rw [if_neg hz, if_neg hz, if_neg (not_not.mpr (hm.size.resolve_left hz)),
      if_neg fun h => hz h.1]

/-- A fragment that is not the last of its frame must be whole. -/
def Whole (data : List UInt8) : Prop :=
  (heading data).seq = frameCount (heading data).bufSz (heading data).fragSize - 1 ∨
    data.length = ((heading data).fragSize + 16).toNat

instance (data : List UInt8) : Decidable (Whole data) := inferInstanceAs (Decidable (_ ∨ _))

def start (data : List UInt8) : Nat := ((heading data).seq * (heading data).fragSize).toNat

def payload (data : List UInt8) : List (Option UInt8) := (data.drop headerSize).map some

/-- The two ways to leave `store`. -/
theorem store_cases {c : UdpCombiner} {data : List UInt8} {r : Bool × UdpCombiner}
    (h : c.store (heading data) data = some r) :
    (heading data).seq.toNat < c.mFound.length ∧
      ((¬Whole data ∧ r = (false, { c with mFound := c.mFound.set (heading data).seq.toNat true })) ∨
        (Whole data ∧ start data + (payload data).length ≤ c.mBuffer.length ∧
          r = (true, { c with mFound := c.mFound.set (heading data).seq.toNat true,
                              mBuffer := overwrite c.mBuffer (start data) (payload data) }))) := by
  simp only [store] at h
  split at h
  · cases h
  have hseq : (heading data).seq.toNat < c.mFound.length := by omega
  refine ⟨hseq, ?_⟩
  split at h
  · have hw : ¬Whole data := by
      rw [Whole, not_or]
      assumption
    exact .inl ⟨hw, (Option.some.inj h).symm⟩
  · have hw : Whole data := by
      by_contra hw
      exact absurd (not_or.mp hw) ‹_›
    split at h
    · cases h
    · exact .inr ⟨hw, Nat.not_lt.mp ‹_›, (Option.some.inj h).symm⟩

/-- The buffer is there, for a frame of `b` bytes in fragments of `f`. -/
structure Geometry (c : UdpCombiner) (b f : UInt32) : Prop where
  size : c.mBufferSize = b.toNat
  pos : 0 < b.toNat
  buffer : c.mBuffer.length = b.toNat
  fragSize : f ≠ 0
  fits : b.toNat + f.toNat ≤ 4294967296
  found : c.mFound.length = (frameCount b f).toNat
  few : frameCount b f < 2147483648

theorem Geometry.mBufferSize_ne {c : UdpCombiner} {b f : UInt32} (h : c.Geometry b f) :
    c.mBufferSize ≠ 0 := by
  have hpos := h.pos
  have hsize := h.size
  omega

theorem Geometry.few_ne {c : UdpCombiner} {b f : UInt32} (h : c.Geometry b f) :
    frameCount b f ≠ 2147483648 := by
  intro heq
  have hfew := h.few
  rw [heq] at hfew
  exact UInt32.lt_irrefl _ hfew

theorem Geometry.sized {c : UdpCombiner} {b f : UInt32} (h : c.Geometry b f) (b' f' : UInt32) :
    c.sized b' f' = c := if_neg h.mBufferSize_ne

theorem Geometry.fragSize_pos {c : UdpCombiner} {b f : UInt32} (h : c.Geometry b f) :
    0 < f.toNat := Nat.pos_of_ne_zero fun hz => h.fragSize (UInt32.toNat_inj.mp hz)

/-- Every byte lies in a fragment. -/
theorem Geometry.div_lt {c : UdpCombiner} {b f : UInt32} (h : c.Geometry b f) {i : Nat}
    (hi : i < c.mBufferSize) : i / f.toNat < c.mFound.length := by
  have hfits := h.fits
  have hpos := h.fragSize_pos
  rw [h.found, toNat_frameCount h.fragSize, Nat.mod_eq_of_lt (by omega), lt_parts_iff hpos]
  rw [h.size] at hi
  exact Nat.lt_of_le_of_lt (Nat.div_mul_le_self i f.toNat) hi

theorem Geometry.set_found {c : UdpCombiner} {b f : UInt32} (h : c.Geometry b f) (j : Nat) :
    Geometry { c with mFound := c.mFound.set j true } b f :=
  ⟨h.size, h.pos, h.buffer, h.fragSize, h.fits, List.length_set.trans h.found, h.few⟩

theorem geometry_allocated {b f s : UInt32} (hf : f ≠ 0) (hs : s < frameCount b f)
    (hfew : frameCount b f < 2147483648) : (allocated b f).Geometry b f := by
  obtain ⟨hfits, hlt⟩ := (lt_frameCount_iff hf).mp hs
  refine ⟨rfl, Nat.zero_lt_of_lt hlt, ?_, hf, hfits, ?_, hfew⟩
  · exact List.length_replicate
  · exact List.length_replicate

/-- A combiner as calls of `addFragment` leave it. -/
def Reached (c : UdpCombiner) : Prop := c = {} ∨ ∃ b f, c.Geometry b f

/-- The combiner that a marked datagram is stored in. -/
theorem Marks.geometry {c : UdpCombiner} (hr : c.Reached) {data : List UInt8} (hm : c.Marks data)
    {r : Bool × UdpCombiner} (h : c.addFragment data = some r) :
    (∃ f, (c.sized (heading data).bufSz (heading data).fragSize).Geometry (heading data).bufSz f ∧
      (c.mBufferSize = 0 → f = (heading data).fragSize)) ∧
    (c.sized (heading data).bufSz (heading data).fragSize).store (heading data) data = some r := by
  rw [addFragment_of_marks hm] at h
  by_cases hn : c.mBufferSize = 0 ∧
      2147483648 ≤ frameCount (heading data).bufSz (heading data).fragSize
  · rw [if_pos hn] at h
    cases h
  rw [if_neg hn] at h
  refine ⟨?_, h⟩
  cases hr with
  | inl hc =>
    subst hc
    have hfew := UInt32.not_le.mp fun hle => hn ⟨rfl, hle⟩
    exact ⟨_, geometry_allocated hm.fragSize hm.seq hfew, fun _ => rfl⟩
  | inr hc =>
    obtain ⟨b, f, hg⟩ := hc
    have hb : b = (heading data).bufSz := by
      apply UInt32.toNat_inj.mp
      rw [← hg.size]
      exact hm.size.resolve_left hg.mBufferSize_ne
    subst hb
    rw [hg.sized]
    exact ⟨f, hg, fun hz => absurd hz hg.mBufferSize_ne⟩

theorem Geometry.store {c : UdpCombiner} {b f : UInt32} (hg : c.Geometry b f) {data : List UInt8}
    {r : Bool × UdpCombiner} (h : c.store (heading data) data = some r) : r.2.Geometry b f := by
  have hs := hg.set_found (heading data).seq.toNat
  obtain ⟨-, ⟨-, rfl⟩ | ⟨-, hend, rfl⟩⟩ := store_cases h
  · exact hs
  · exact ⟨hs.size, hs.pos, (length_overwrite hend).trans hs.buffer, hs.fragSize, hs.fits, hs.found,
      hs.few⟩

theorem Reached.addFragment {c : UdpCombiner} (hr : c.Reached) {data : List UInt8}
    {r : Bool × UdpCombiner} (h : c.addFragment data = some r) : r.2.Reached := by
  by_cases hm : c.Marks data
  · obtain ⟨⟨f, hg, -⟩, hs⟩ := hm.geometry hr h
    exact .inr ⟨_, f, hg.store hs⟩
  · rw [addFragment_of_not_marks hm h]
    exact hr

/-! ### Completeness -/

theorem isComplete_iff {c : UdpCombiner} :
    c.isComplete = true ↔ ∀ j : Nat, c.mFound[j]? ≠ some false := by
  rw [isComplete, List.all_eq_true]
  refine ⟨fun h j hj => ?_, fun h x hx => ?_⟩
  · exact Bool.false_ne_true (h false (List.mem_of_getElem? hj))
  · obtain ⟨j, hj⟩ := List.mem_iff_getElem?.mp hx
    cases x with
    | true => rfl
    | false => exact absurd hj (h j)

theorem isComplete_of_not {c : UdpCombiner} {j : Nat} (h : c.mFound[j]? = some false) :
    c.isComplete = false := by
  rw [← Bool.not_eq_true, isComplete_iff]
  exact fun hall => hall j h

end UdpCombiner

/-- A fragment of a frame of four bytes in two fragments. -/
def halfFrame (seq : UInt32) (bytes : List UInt8) : List UInt8 :=
  Heading.bytes ⟨7, seq, 4, 2⟩ ++ bytes

end Open3DStream
