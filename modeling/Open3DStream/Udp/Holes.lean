import Open3DStream.Lib.Lists
import Open3DStream.Lib.Machine
import Open3DStream.Udp.Combiner

/-! When a complete frame has no holes. -/

namespace Open3DStream.UdpCombiner

open Lib

/-- Byte `i` has been copied into the buffer. -/
def stored (c : UdpCombiner) (i : Nat) : Bool := c.mBuffer[i]?.join.isSome

/-- The bytes of the buffer that a datagram's payload is copied to. -/
def Writes (data : List UInt8) (i : Nat) : Prop :=
  start data ≤ i ∧ i < start data + (payload data).length

instance (data : List UInt8) (i : Nat) : Decidable (Writes data i) :=
  inferInstanceAs (Decidable (_ ∧ _))

instance (c : UdpCombiner) (data : List UInt8) : Decidable (c.Marks data) :=
  decidable_of_iff
    (headerSize ≤ data.length ∧ data.length ≤ 65511 ∧ (heading data).fragSize ≠ 0 ∧
      (heading data).seq < frameCount (heading data).bufSz (heading data).fragSize ∧
      (c.mBufferSize = 0 ∨ c.mBufferSize = (heading data).bufSz.toNat))
    ⟨fun ⟨hl, hs, hf, hq, hz⟩ => ⟨hl, hs, hf, hq, hz⟩,
      fun h => ⟨h.long, h.short, h.fragSize, h.seq, h.size⟩⟩

theorem getElem?_payload_isSome {data : List UInt8} {k : Nat} (h : k < (payload data).length) :
    (payload data)[k]?.join.isSome = true := by
  rw [payload, List.length_map] at h
  rw [payload, List.getElem?_map, List.getElem?_eq_getElem h]
  rfl

theorem stored_sized {c : UdpCombiner} {b f : UInt32} {i : Nat}
    (h : (c.sized b f).stored i = true) : c.stored i = true := by
  rw [sized] at h
  split at h
  · rw [stored, allocated, List.getElem?_replicate] at h
    split at h <;> cases h
  · exact h

theorem stored_overwrite {c : UdpCombiner} {data : List UInt8}
    (h : start data + (payload data).length ≤ c.mBuffer.length) (found : List Bool) (i : Nat) :
    stored ⟨overwrite c.mBuffer (start data) (payload data), c.mBufferSize, found⟩ i =
      (decide (Writes data i) || c.stored i) := by
  rw [stored, getElem?_overwrite h]
  by_cases hw : start data ≤ i ∧ i < start data + (payload data).length
  · have hd : decide (Writes data i) = true := decide_eq_true hw
    rw [if_pos hw, hd, Bool.true_or]
    apply getElem?_payload_isSome
    omega
  · have hd : decide (Writes data i) = false := decide_eq_false hw
    rw [if_neg hw, hd, Bool.false_or]
    rfl

/-- Bytes are stored by accepted fragments only. -/
theorem stored_addFragment {c c' : UdpCombiner} {data : List UInt8} {accepted : Bool}
    (h : c.addFragment data = some (accepted, c')) {i : Nat} (hi : c'.stored i = true) :
    c.stored i = true ∨ accepted = true ∧ Writes data i := by
  by_cases hm : c.Marks data
  · rw [addFragment_of_marks hm] at h
    split at h
    · cases h
    obtain ⟨-, ⟨-, heq⟩ | ⟨-, hend, heq⟩⟩ := store_cases h
    · cases heq
      exact .inl (stored_sized hi)
    · cases heq
      rw [stored_overwrite hend, Bool.or_eq_true, decide_eq_true_eq] at hi
      exact hi.symm.imp stored_sized fun hw => ⟨rfl, hw⟩
  · cases addFragment_of_not_marks hm h
    exact .inl hi

/-! ### Runs -/

/-- The datagrams one after the other, and which of them are accepted. -/
def run (c : UdpCombiner) (datagrams : List (List UInt8)) : Option (List Bool × UdpCombiner) :=
  Lib.run addFragment c datagrams

theorem run_stored {c c' : UdpCombiner} {datagrams : List (List UInt8)} {replies : List Bool}
    (h : c.run datagrams = some (replies, c')) {i : Nat} (hi : c'.stored i = true) :
    c.stored i = true ∨
      ∃ (k : Nat) (data : List UInt8), datagrams[k]? = some data ∧ replies[k]? = some true ∧ Writes data i := by
  induction datagrams generalizing c replies with
  | nil =>
    cases h
    exact .inl hi
  | cons data datagrams ih =>
    obtain ⟨accepted, c₁, rest, h₁, h₂, rfl⟩ := run_cons_eq_some_iff.mp h
    obtain hs | ⟨k, data', hk, hr, hw⟩ := ih h₂
    · exact (stored_addFragment h₁ hs).imp id fun ⟨ha, hw⟩ => ⟨0, data, rfl, congrArg some ha, hw⟩
    · exact .inr ⟨k + 1, data', hk, hr, hw⟩

/-! ### The condition -/

/-- A marked fragment has all of its bytes afterwards: each was stored before or is now. `f` is the
fragment size of the datagram that the buffer was allocated for. -/
def Fills (f : UInt32) (c : UdpCombiner) (data : List UInt8) : Prop :=
  c.Marks data →
    (c.mBufferSize = 0 → (heading data).fragSize = f) ∧
      ∀ i < (heading data).bufSz.toNat, i / f.toNat = (heading data).seq.toNat →
        c.stored i = true ∨ (Whole data ∧ Writes data i)

instance (f : UInt32) (c : UdpCombiner) (data : List UInt8) : Decidable (Fills f c data) :=
  inferInstanceAs (Decidable (_ → _ ∧ _))

/-- Every step of a run fills the fragment that it marks. -/
def FillsEach (f : UInt32) (c : UdpCombiner) (datagrams : List (List UInt8)) : Prop :=
  Each addFragment (Fills f) c datagrams

instance (f : UInt32) (c : UdpCombiner) (datagrams : List (List UInt8)) :
    Decidable (FillsEach f c datagrams) := instDecidableEach addFragment (Fills f) datagrams c

/-- The invariant: the bytes of every fragment that is found are stored. -/
structure NoGaps (f : UInt32) (c : UdpCombiner) : Prop where
  geometry : ∃ b, c.Geometry b f
  filled : ∀ i < c.mBufferSize, c.mFound[i / f.toNat]? = some true → c.stored i = true

theorem noGaps_allocated {b f : UInt32} (h : (allocated b f).Geometry b f) :
    NoGaps f (allocated b f) := by
  refine ⟨⟨b, h⟩, ?_⟩
  intro i _ hfound
  rw [allocated, List.getElem?_replicate] at hfound
  split at hfound <;> cases hfound

theorem NoGaps.store {f : UInt32} {c : UdpCombiner} (hc : NoGaps f c) {data : List UInt8}
    (hfill : ∀ i < c.mBufferSize, i / f.toNat = (heading data).seq.toNat →
      c.stored i = true ∨ (Whole data ∧ Writes data i))
    {r : Bool × UdpCombiner} (h : c.store (heading data) data = some r) : NoGaps f r.2 := by
  obtain ⟨b, hg⟩ := hc.geometry
  refine ⟨⟨b, hg.store h⟩, ?_⟩
  obtain ⟨-, ⟨hw, rfl⟩ | ⟨-, hend, rfl⟩⟩ := store_cases h
  · intro i hi hfound
    obtain ⟨hs, -⟩ | ⟨-, hold⟩ := getElem?_set_cases hfound
    · exact (hfill i hi hs).resolve_right fun h => hw h.1
    · exact hc.filled i hi hold
  · intro i hi hfound
    rw [stored_overwrite hend, Bool.or_eq_true, decide_eq_true_eq]
    obtain ⟨hs, -⟩ | ⟨-, hold⟩ := getElem?_set_cases hfound
    · exact (hfill i hi hs).symm.imp And.right id
    · exact .inr (hc.filled i hi hold)

theorem NoGaps.step {f : UInt32} {c : UdpCombiner} (hc : c = {} ∨ NoGaps f c) {data : List UInt8}
    (hfill : Fills f c data) {r : Bool × UdpCombiner} (h : c.addFragment data = some r) :
    r.2 = {} ∨ NoGaps f r.2 := by
  by_cases hm : c.Marks data
  · have hr : c.Reached := hc.imp id fun hn => hn.geometry.imp fun b hg => ⟨f, hg⟩
    obtain ⟨⟨f', hg, hf'⟩, hs⟩ := hm.geometry hr h
    obtain ⟨hfirst, hbytes⟩ := hfill hm
    right
    cases hc with
    | inl hc =>
      subst hc
      rw [hf' rfl, hfirst rfl] at hg
      rw [hfirst rfl] at hs
      exact (noGaps_allocated hg).store (fun i hi hq => .inr ((hbytes i hi hq).resolve_left nofun)) hs
    | inr hn =>
      obtain ⟨b, hb⟩ := hn.geometry
      rw [hb.sized] at hg hs
      exact hn.store (fun i hi hq => hbytes i (hg.size ▸ hi) hq) hs
  · rw [addFragment_of_not_marks hm h]
    exact hc

theorem NoGaps.complete {f : UInt32} {c : UdpCombiner} (hc : NoGaps f c) (h : c.isComplete = true)
    {i : Nat} (hi : i < c.mBufferSize) : c.stored i = true := by
  obtain ⟨b, hg⟩ := hc.geometry
  have hlt := hg.div_lt hi
  apply hc.filled i hi
  rw [List.getElem?_eq_getElem hlt]
  exact congrArg some (List.all_eq_true.mp h _ (List.getElem_mem hlt))

/-- Where every step fills the fragment it marks, a frame that is complete has been
stored by accepted fragments, byte for byte. -/
theorem complete_stored {f : UInt32} {datagrams : List (List UInt8)}
    (hfill : FillsEach f {} datagrams) {replies : List Bool} {c : UdpCombiner}
    (h : run {} datagrams = some (replies, c)) (hc : c.isComplete = true) :
    ∀ i < c.mBufferSize,
      ∃ (k : Nat) (data : List UInt8), datagrams[k]? = some data ∧ replies[k]? = some true ∧ Writes data i := by
  intro i hi
  have hstored : c.stored i = true := by
    have hinv : c = {} ∨ NoGaps f c := Each.invariant (P := fun c => c = {} ∨ NoGaps f c)
      (fun _ _ _ hc hf ha => NoGaps.step hc hf ha) (.inl rfl) hfill h
    obtain rfl | hn := hinv
    · cases hi
    · exact hn.complete hc hi
  exact (run_stored h hstored).resolve_left nofun

theorem complete_stored_halves :
    run {} [halfFrame 1 [3, 4], halfFrame 0 [1, 2]] =
        some ([true, true], ⟨[some 1, some 2, some 3, some 4], 4, [true, true]⟩) ∧
      ∀ i < 4, ∃ (k : Nat) (data : List UInt8),
        [halfFrame 1 [3, 4], halfFrame 0 [1, 2]][k]? = some data ∧ [true, true][k]? = some true ∧
          Writes data i := by
  have hrun : run {} [halfFrame 1 [3, 4], halfFrame 0 [1, 2]] =
      some ([true, true], ⟨[some 1, some 2, some 3, some 4], 4, [true, true]⟩) := by
    decide +kernel
  exact ⟨hrun, complete_stored (f := 2) (by decide +kernel) hrun (by decide)⟩

/-- The fragment that arrives without its bytes is refused, but it counts as found. -/
theorem truncated_leaves_hole :
    ¬∀ (datagrams : List (List UInt8)) (replies : List Bool) (c : UdpCombiner),
      run {} datagrams = some (replies, c) → true ∈ replies → c.isComplete = true →
        ∀ i < c.mBufferSize, ∃ (k : Nat) (data : List UInt8),
          datagrams[k]? = some data ∧ replies[k]? = some true ∧ Writes data i := by
  intro h
  obtain ⟨k, data, hk, hr, hw⟩ := h [halfFrame 1 [3, 4], halfFrame 0 []] [true, false]
    ⟨[none, none, some 3, some 4], 4, [true, true]⟩ (by decide +kernel) (by decide) (by decide) 0
    (by decide)
  match k with
  | 0 =>
    cases hk
    exact absurd hw (by decide)
  | 1 => cases hr
  | k + 2 => cases hk

end Open3DStream.UdpCombiner
