import Mathlib.Data.List.Basic
import Open3DStream.Tcp.Framing

/-! Ticks that find all bytes of the stream there. -/

namespace Open3DStream

open Lib

namespace O3DSServer

/-- Enough calls of `Recv` for `size` bytes, each of which finds what it asks for. -/
def Plenty (size : Nat) (recvs : List (Option Nat)) : Prop :=
  size ≤ recvs.length ∧ ∀ recv ∈ recvs, ∃ k, recv = some k ∧ size ≤ k

def Available (s : O3DSServer) : Prop := Plenty s.mTcp.stream.length s.mTcp.recvs

theorem Plenty.mono {size size' : Nat} {recvs : List (Option Nat)} (h : Plenty size recvs)
    (hle : size' ≤ size) : Plenty size' recvs := by
  refine ⟨hle.trans h.1, ?_⟩
  intro recv hrecv
  obtain ⟨k, hk, hsize⟩ := h.2 recv hrecv
  exact ⟨k, hk, hle.trans hsize⟩

theorem Plenty.tail {size size' : Nat} {recv : Option Nat} {recvs : List (Option Nat)}
    (h : Plenty size (recv :: recvs)) (hle : size' ≤ size) (hlt : size' ≤ recvs.length) :
    Plenty size' recvs := by
  refine ⟨hlt, ?_⟩
  intro r hr
  obtain ⟨k, hk, hsize⟩ := h.2 r (List.mem_cons_of_mem _ hr)
  exact ⟨k, hk, hle.trans hsize⟩

/-- The receiver with `n` more bytes in its buffer. -/
def taken (s : O3DSServer) (n : Nat) (recvs : List (Option Nat)) : O3DSServer :=
  { s with mTcp := ⟨s.mTcp.stream.drop n, recvs⟩, mBuffer := s.mBuffer ++ s.mTcp.stream.take n }

theorem taken_zero (s : O3DSServer) : s.taken 0 s.mTcp.recvs = s := by
  rw [taken, List.take_zero, List.append_nil, List.drop_zero]

theorem taken_dry {s : O3DSServer} (h : s.mTcp.stream = []) (n : Nat) (recvs : List (Option Nat)) :
    s.taken n recvs = s.taken 0 recvs := by
  rw [taken, taken, h, List.take_nil, List.take_nil, List.drop_nil, List.drop_nil]

theorem taken_taken (s : O3DSServer) (m n : Nat) (recvs recvs' : List (Option Nat)) :
    (s.taken m recvs).taken n recvs' = s.taken (m + n) recvs' := by
  simp [taken, List.take_add]

theorem ReadTcp_available {s : O3DSServer} {len : Nat} (h : s.Available) (hlt : s.mPtr < len) :
    ∃ recvs, s.ReadTcp len = (!s.mTcp.stream.isEmpty, s.taken (len - s.mPtr) recvs) ∧
      (s.taken (len - s.mPtr) recvs).Available := by
  rw [ReadTcp, if_neg (not_le.mpr hlt), FSocket.Recv]
  cases hr : s.mTcp.recvs with
  | nil =>
    have hnil : s.mTcp.stream = [] := List.eq_nil_of_length_eq_zero (by simpa [hr] using h.1)
    refine ⟨[], ?_, ?_⟩
    · have htcp : s.mTcp = ⟨[], []⟩ := by rw [← hnil, ← hr]
      simp [taken, htcp]
    · simp [Available, taken, Plenty, hnil]
  | cons recv recvs =>
    have hp : Plenty s.mTcp.stream.length (recv :: recvs) := hr ▸ h
    obtain ⟨k, rfl, hk⟩ := hp.2 recv List.mem_cons_self
    have hlen : (s.mTcp.stream.drop (len - s.mPtr)).length ≤ recvs.length := by
      have := hp.1
      rw [List.length_cons] at this
      rw [List.length_drop]
      omega
    refine ⟨recvs, ?_, hp.tail ?_ hlen⟩
    rotate_left
    · exact (List.drop_sublist _ _).length_le
    have htake : s.mTcp.stream.take (min k (len - s.mPtr)) = s.mTcp.stream.take (len - s.mPtr) := by
      obtain hle | hle := Nat.le_total (len - s.mPtr) k
      · rw [Nat.min_eq_right hle]
      · rw [Nat.min_eq_left hle, List.take_of_length_le hk, List.take_of_length_le (hk.trans hle)]
    have hdrop : s.mTcp.stream.drop (min k (len - s.mPtr)) = s.mTcp.stream.drop (len - s.mPtr) := by
      obtain hle | hle := Nat.le_total (len - s.mPtr) k
      · rw [Nat.min_eq_right hle]
      · rw [Nat.min_eq_left hle, List.drop_of_length_le hk, List.drop_of_length_le (hk.trans hle)]
    have hempty : (s.mTcp.stream.take (len - s.mPtr)).isEmpty = s.mTcp.stream.isEmpty := by
      obtain ⟨m, hm⟩ : ∃ m, len - s.mPtr = m + 1 := ⟨len - s.mPtr - 1, by omega⟩
      rw [hm]
      cases s.mTcp.stream <;> rfl
    dsimp only
    rw [htake, hdrop, hempty]
    rfl

/-- A loop that has nothing left to read. -/
theorem fill_dry {s : O3DSServer} {len : Nat} (h : s.Available) (hnil : s.mTcp.stream = [])
    (hlt : s.mPtr < len) (n : Nat) : ∃ recvs, fill len n s = (false, s.taken 0 recvs) ∧
      (s.taken 0 recvs).Available := by
  cases n with
  | zero =>
    refine ⟨s.mTcp.recvs, ?_, ?_⟩
    · rw [fill, taken_zero, decide_eq_false (not_le.mpr hlt)]
    · rwa [taken_zero]
  | succ n =>
    obtain ⟨recvs, hread, havailable⟩ := ReadTcp_available h hlt
    have htaken : s.taken (len - s.mPtr) recvs = s.taken 0 recvs := taken_dry hnil _ recvs
    refine ⟨recvs, ?_, htaken ▸ havailable⟩
    rw [fill, if_neg (not_le.mpr hlt), hread, hnil, htaken]
    rfl

theorem fill_available {s : O3DSServer} {len : Nat} (h : s.Available) (hle : s.mPtr ≤ len) :
    ∃ recvs, fill len s.mTcp.recvs.length s =
        (decide (len - s.mPtr ≤ s.mTcp.stream.length), s.taken (len - s.mPtr) recvs) ∧
      (s.taken (len - s.mPtr) recvs).Available := by
  obtain heq | hlt := hle.eq_or_lt
  · refine ⟨s.mTcp.recvs, ?_, ?_⟩
    · rw [fill_of_le heq.ge, heq, Nat.sub_self, taken_zero, decide_eq_true (Nat.zero_le _)]
    · rwa [heq, Nat.sub_self, taken_zero]
  · generalize hn : s.mTcp.recvs.length = n
    cases n with
    | zero =>
      have hlen : s.mTcp.stream.length = 0 := Nat.le_zero.mp (hn ▸ h.1)
      have hs := taken_dry (List.eq_nil_of_length_eq_zero hlen) (len - s.mPtr) s.mTcp.recvs
      rw [taken_zero] at hs
      refine ⟨s.mTcp.recvs, ?_, hs.symm ▸ h⟩
      rw [fill, hs, hlen, decide_eq_false (by omega), decide_eq_false (by omega)]
    | succ n =>
      obtain ⟨recvs, hread, havailable⟩ := ReadTcp_available h hlt
      rw [fill, if_neg (not_le.mpr hlt), hread]
      cases hs : s.mTcp.stream with
      | nil =>
        refine ⟨recvs, ?_, havailable⟩
        rw [List.length_nil, decide_eq_false (by omega)]
        rfl
      | cons b rest =>
        dsimp only
        rw [List.isEmpty_cons, Bool.not_false, Bool.not_true, if_neg Bool.false_ne_true, ← hs]
        have hptr : (s.taken (len - s.mPtr) recvs).mPtr =
            s.mPtr + min (len - s.mPtr) s.mTcp.stream.length := by
          simp [mPtr, taken]
        by_cases henough : len - s.mPtr ≤ s.mTcp.stream.length
        · refine ⟨recvs, ?_, havailable⟩
          rw [fill_of_le (by omega), decide_eq_true henough]
        · have hdry : (s.taken (len - s.mPtr) recvs).mTcp.stream = [] :=
            List.drop_of_length_le (by omega)
          have hlt' : (s.taken (len - s.mPtr) recvs).mPtr < len := by omega
          obtain ⟨recvs', hfill, hleft⟩ := fill_dry havailable hdry hlt' n
          refine ⟨recvs', ?_, ?_⟩
          · rw [hfill, decide_eq_false henough, taken_taken, Nat.add_zero]
          · rwa [taken_taken, Nat.add_zero] at hleft

/-! ### `SYNC` -/

theorem compareMagic_along {common cs rest : List UInt8} {s : O3DSServer} (h : s.Available)
    (hstream : s.mTcp.stream = common ++ rest) :
    ∃ recvs, compareMagic (common ++ cs) s.mPtr s =
        compareMagic cs (s.mPtr + common.length) (s.taken common.length recvs) ∧
      (s.taken common.length recvs).Available := by
  induction common generalizing s with
  | nil =>
    refine ⟨s.mTcp.recvs, ?_, ?_⟩
    · rw [List.nil_append, List.length_nil, taken_zero, Nat.add_zero]
    · rwa [List.length_nil, taken_zero]
  | cons c common ih =>
    obtain ⟨recvs, hread, havailable⟩ := ReadTcp_available h (Nat.lt_succ_self s.mPtr)
    have hone : s.mPtr + 1 - s.mPtr = 1 := Nat.add_sub_cancel_left _ _
    rw [hone] at hread havailable
    have htaken : (s.taken 1 recvs).mBuffer = s.mBuffer ++ [c] := by
      rw [taken, hstream]
      rfl
    have hptr : (s.taken 1 recvs).mPtr = s.mPtr + 1 := by
      rw [mPtr, htaken, List.length_append, List.length_singleton, mPtr]
    have hrest : (s.taken 1 recvs).mTcp.stream = common ++ rest := by
      rw [taken, hstream]
      rfl
    obtain ⟨recvs', hcompare, hleft⟩ := ih havailable hrest
    rw [taken_taken, Nat.add_comm 1] at hcompare hleft
    refine ⟨recvs', ?_, hleft⟩
    have hget : (s.mBuffer ++ [c])[s.mPtr]? = some c := List.getElem?_concat_length
    rw [List.cons_append, compareMagic, hread]
    dsimp only
    rw [hstream, List.cons_append, List.isEmpty_cons, Bool.not_false, Bool.not_true,
      if_neg Bool.false_ne_true, htaken, hget, if_neg (not_not.mpr rfl), ← hptr, hcompare, hptr,
      List.length_cons, Nat.add_assoc, Nat.add_comm 1]

/-- What `SYNC` leaves when it has not found the magic. -/
structure Resumes (s t : O3DSServer) (rest : List UInt8) : Prop where
  mState : t.mState = .SYNC
  stream : t.mTcp.stream = rest
  received : t.received = s.received
  available : t.Available

theorem compareMagic_mismatch {k : Nat} {rest : List UInt8} {s : O3DSServer} (h : s.Available)
    (hs : s.mState = .SYNC) (hbuffer : s.mBuffer = []) (hk : k < magic.length)
    (hstream : s.mTcp.stream = magic.take k ++ rest) (hrest : rest.head? ≠ magic[k]?) :
    ∃ t, compareMagic magic 0 s = (.leave, t) ∧ Resumes s t rest.tail := by
  have hptr : s.mPtr = 0 := by rw [mPtr, hbuffer, List.length_nil]
  obtain ⟨recvs, hcompare, havailable⟩ :=
    @compareMagic_along (magic.take k) (magic.drop k) rest s h hstream
  have hlen : (magic.take k).length = k := List.length_take_of_le hk.le
  rw [List.take_append_drop, hptr, hlen, Nat.zero_add] at hcompare
  rw [hlen] at havailable
  rw [hcompare, List.drop_eq_getElem_cons hk, compareMagic]
  have hptr' : (s.taken k recvs).mPtr = k := by
    rw [mPtr, taken, hbuffer, hstream, List.nil_append, List.length_take, List.length_append, hlen]
    exact Nat.min_eq_left (Nat.le_add_right _ _)
  have hleft : (s.taken k recvs).mTcp.stream = rest := by
    rw [taken, hstream]
    exact List.drop_left' hlen
  obtain ⟨recvs', hread, hleave⟩ := ReadTcp_available havailable
    (show (s.taken k recvs).mPtr < k + 1 from hptr'.symm ▸ Nat.lt_succ_self k)
  have hone : k + 1 - k = 1 := Nat.add_sub_cancel_left _ _
  rw [hptr', hone] at hread hleave
  have hresumes : Resumes s ((s.taken k recvs).taken 1 recvs') rest.tail := by
    refine ⟨hs, ?_, rfl, hleave⟩
    rw [← List.drop_one, ← hleft]
    rfl
  refine ⟨_, ?_, hresumes⟩
  rw [hread, hleft]
  dsimp only
  cases rest with
  | nil => rw [List.isEmpty_nil, Bool.not_true, Bool.not_false, if_pos rfl]
  | cons c rest =>
    have hget : ((s.taken k recvs).taken 1 recvs').mBuffer[k]? = some c := by
      have hbytes : (s.taken k recvs).mTcp.stream.take 1 = [c] := by
        rw [hleft]
        rfl
      have hlast := List.getElem?_concat_length (l := (s.taken k recvs).mBuffer) (a := c)
      rw [show (s.taken k recvs).mBuffer.length = k from hptr'] at hlast
      rwa [taken, hbytes]
    have hne : some c ≠ some magic[k] := by
      rw [List.head?_cons, List.getElem?_eq_getElem hk] at hrest
      exact hrest
    rw [List.isEmpty_cons, Bool.not_false, Bool.not_true, if_neg Bool.false_ne_true, hget,
      if_pos hne]

/-- A turn in `SYNC` that does not find the magic loses the byte at which it sees that. -/
theorem turn_mismatch {k : Nat} {rest : List UInt8} {s : O3DSServer} (h : s.Available)
    (hs : s.mState = .SYNC) (hk : k < magic.length)
    (hstream : s.mTcp.stream = magic.take k ++ rest) (hrest : rest.head? ≠ magic[k]?) :
    ∃ flow t, s.turn = (flow, t) ∧ flow ≠ .next ∧ Resumes s t rest.tail := by
  have hturn (flow : Flow) (t : O3DSServer) (hsync : s.sync = (flow, t)) (hflow : flow ≠ .next) :
      s.turn = (flow, t) := by
    rw [turn_of_SYNC hs, hsync]
    cases flow with
    | next => exact absurd rfl hflow
    | again => rfl
    | leave => rfl
  have havailable : Available { s with mBuffer := [] } := h
  obtain rfl | hpos := Nat.eq_zero_or_pos k
  · -- the first byte is missing or not the zero
    obtain ⟨recvs, hread, hleft⟩ := ReadTcp_available havailable (Nat.zero_lt_one : 0 < 1)
    have hread' : ReadTcp { s with mBuffer := [] } 1 =
      (!s.mTcp.stream.isEmpty, taken { s with mBuffer := [] } 1 recvs) := hread
    rw [List.take_zero, List.nil_append] at hstream
    have hresumes : Resumes s (taken { s with mBuffer := [] } 1 recvs) rest.tail := by
      refine ⟨hs, ?_, rfl, hleft⟩
      rw [← List.drop_one, ← hstream]
      rfl
    cases rest with
    | nil =>
      have hsync : s.sync = (.leave, taken { s with mBuffer := [] } 1 recvs) := by
        rw [sync, hread', hstream]
        rfl
      exact ⟨_, _, hturn _ _ hsync Flow.leave_ne_next, Flow.leave_ne_next, hresumes⟩
    | cons c rest =>
      have hc : c ≠ 0x00 := by
        intro hc
        exact hrest (congrArg some hc)
      have hsync : s.sync = (.again, taken { s with mBuffer := [] } 1 recvs) := by
        have hget : (taken { s with mBuffer := [] } 1 recvs).mBuffer[0]? = some c := by
          rw [taken, hstream]
          rfl
        rw [sync, hread']
        dsimp only
        rw [hget, hstream, List.isEmpty_cons, Bool.not_false, Bool.not_true,
          if_neg Bool.false_ne_true, if_pos fun h => hc (Option.some.inj h)]
      exact ⟨_, _, hturn _ _ hsync Flow.again_ne_next, Flow.again_ne_next, hresumes⟩
  · obtain ⟨j, rfl⟩ : ∃ j, k = j + 1 := ⟨k - 1, by omega⟩
    obtain ⟨t, hcompare, hresumes⟩ :=
      compareMagic_mismatch (s := { s with mBuffer := [] }) havailable hs rfl hk hstream hrest
    have hzero : s.mTcp.stream = 0x00 :: ((magic.drop 1).take j ++ rest) := hstream
    have hsync : s.sync = (.leave, t) := (sync_eq hzero).trans hcompare
    refine ⟨.leave, t, hturn _ _ hsync Flow.leave_ne_next, Flow.leave_ne_next, ?_⟩
    exact ⟨hresumes.mState, hresumes.stream, hresumes.received, hresumes.available⟩

/-- A turn in `SYNC` that finds the magic goes on with the header. -/
theorem turn_magic {rest : List UInt8} {s : O3DSServer} (h : s.Available) (hs : s.mState = .SYNC)
    (hstream : s.mTcp.stream = magic ++ rest) :
    ∃ recvs, s.turn = turn ⟨⟨rest, recvs⟩, magic, .HEADER, s.notices⟩ ∧
      Plenty rest.length recvs := by
  have havailable : Available { s with mBuffer := [] } := h
  obtain ⟨recvs, hcompare, hleft⟩ :=
    @compareMagic_along magic [] rest _ havailable hstream
  have hsync : s.sync = (.next, ⟨⟨rest, recvs⟩, magic, .HEADER, s.notices⟩) := by
    refine (@sync_eq s (magic.drop 1 ++ rest) hstream).trans ?_
    refine hcompare.trans ?_
    rw [compareMagic, taken, hstream, List.take_left, List.drop_left]
    rfl
  refine ⟨recvs, ?_, ?_⟩
  · rw [turn_of_SYNC hs, hsync, turn_of_HEADER rfl, block,
      if_pos (show O3DSServer.mState ⟨⟨rest, recvs⟩, magic, .HEADER, s.notices⟩ = .HEADER from rfl)]
  · have hrest : (taken { s with mBuffer := [] } magic.length recvs).mTcp.stream = rest := by
      rw [taken, hstream]
      exact List.drop_left
    exact hrest ▸ hleft

end O3DSServer

end Open3DStream
