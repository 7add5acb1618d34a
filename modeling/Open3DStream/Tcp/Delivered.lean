import Mathlib.Data.List.Basic
import Open3DStream.Tcp.Available

/-! Where in the stream the payloads passed on stand. -/

namespace Open3DStream

open Lib

namespace O3DSServer

/-- A payload, and the position in the stream at which it starts. -/
structure Delivery where
  offset : Nat
  data : List UInt8
deriving DecidableEq

/-- What is passed on from `s` to `t`, the last bytes that were read of `size` bytes. -/
def passed (size : Nat) (s t : O3DSServer) : List Delivery :=
  (t.received.drop s.received.length).map fun data =>
    ⟨size - t.mTcp.stream.length - data.length, data⟩

/-- What the turns of `loop` pass on. -/
def loopDeliveries (size : Nat) : Nat → O3DSServer → List Delivery
  | 0, _ => []
  | n + 1, s =>
    match s.turn with
    | (.leave, t) => passed size s t
    | (_, t) => passed size s t ++ loopDeliveries size n t

def tickDeliveries (size : Nat) (s : O3DSServer) (recvs : List (Option Nat)) : List Delivery :=
  loopDeliveries size (recvs.length + 2) { s with mTcp := ⟨s.mTcp.stream, recvs⟩ }

/-- What one tick after the other passes on. -/
def ticksDeliveries (size : Nat) (s : O3DSServer) : List (List (Option Nat)) → List Delivery
  | [] => []
  | recvs :: ticks =>
    tickDeliveries size s recvs ++ ((s.tick recvs).elim [] (ticksDeliveries size · ticks))

def deliveries (s : O3DSServer) (ticks : List (List (Option Nat))) : List Delivery :=
  ticksDeliveries s.mTcp.stream.length s ticks

/-- A payload stands where it is said to, after a whole magic and its own size. -/
structure FramedIn (stream : List UInt8) (d : Delivery) : Prop where
  length : d.data.length ≤ 51200
  bytes : ∃ pre post, stream = pre ++ (preamble d.data ++ (d.data ++ post)) ∧
    d.offset = pre.length + 18

/-- One after the other, without overlap. -/
def Apart (ds : List Delivery) : Prop :=
  ds.Pairwise fun d e => d.offset + d.data.length ≤ e.offset

/-- Everything that is passed on is framed. -/
structure DeliversFrames (s : O3DSServer) (ticks : List (List (Option Nat))) : Prop where
  received : ∃ t, ticks.foldlM tick s = some t ∧
    t.received = s.received ++ (deliveries s ticks).map Delivery.data
  framed : ∀ d ∈ deliveries s ticks, FramedIn s.mTcp.stream d
  apart : Apart (deliveries s ticks)

/-- The 18 bytes after a whole frame begin with the magic when they begin with a zero and
give a size that is allowed and there. -/
def Genuine (stream : List UInt8) : Prop :=
  ∀ pre data head body post,
    stream = pre ++ (preamble data ++ (data ++ (head ++ (body ++ post)))) →
      data.length ≤ 51200 → head.length = 18 → head.head? = some 0x00 →
        (getUInt32 (head.drop 14)).toNat = body.length → body.length ≤ 51200 → magic <+: head

/-! ### All that is received is delivered -/

theorem turn_received (s : O3DSServer) (size : Nat) :
    s.turn.2.received = s.received ++ (passed size s s.turn.2).map Delivery.data := by
  obtain ⟨ps, hps, -⟩ := s.turn_spends
  rw [passed, hps, List.drop_left, List.map_map]
  congr 1
  exact (List.map_id ps).symm

theorem loop_received {size n : Nat} {s t : O3DSServer} (h : loop n s = some t) :
    t.received = s.received ++ (loopDeliveries size n s).map Delivery.data := by
  induction n generalizing s with
  | zero => cases h
  | succ n ih =>
    have hturn := s.turn_received size
    rw [loop] at h
    rw [loopDeliveries]
    generalize s.turn = r at hturn h
    obtain ⟨flow, u⟩ := r
    cases flow with
    | leave =>
      cases h
      exact hturn
    | next => rw [ih h, hturn, List.map_append, List.append_assoc]
    | again => rw [ih h, hturn, List.map_append, List.append_assoc]

theorem ticks_received (size : Nat) (s : O3DSServer) (ticks : List (List (Option Nat))) :
    ∃ t, ticks.foldlM tick s = some t ∧
      t.received = s.received ++ (ticksDeliveries size s ticks).map Delivery.data := by
  induction ticks generalizing s with
  | nil => exact ⟨s, rfl, (List.append_nil _).symm⟩
  | cons recvs ticks ih =>
    obtain ⟨u, hu⟩ := s.tick_returns recvs
    obtain ⟨t, ht, hreceived⟩ := ih u
    have hfirst : u.received = s.received ++ (tickDeliveries size s recvs).map Delivery.data :=
      loop_received hu
    refine ⟨t, foldlM_cons_eq_some_iff.mpr ⟨u, hu, ht⟩, ?_⟩
    rw [ticksDeliveries, hu, Option.elim_some, List.map_append, ← List.append_assoc, ← hfirst,
      hreceived]

/-! ### Where a receiver has got to -/

/-- `pre` ends with a whole frame. -/
def Ended (pre : List UInt8) : Prop :=
  ∃ p data, pre = p ++ (preamble data ++ data) ∧ data.length ≤ 51200

/-- A receiver for which `pre` is behind it: what it holds and the rest of the stream
follow. Its header is the magic, or what stands after a frame. -/
structure Tracks (stream pre : List UInt8) (s : O3DSServer) : Prop where
  bytes : pre ++ (s.start.mBuffer ++ s.mTcp.stream) = stream
  HEADER : s.mState = .HEADER → s.mPtr ≤ 18 ∧ (magic <+: s.mBuffer ∨ Ended pre)
  DATA : s.mState = .DATA → 18 ≤ s.mPtr ∧ s.mPtr ≤ s.bucketSize + 18 ∧
    (magic <+: s.mBuffer ∨ Ended pre ∧ s.mBuffer.head? = some 0x00)

/-- How a block moves a receiver along the stream. -/
inductive Advance (stream pre : List UInt8) (s t : O3DSServer) : Prop
  | reads {pre' : List UInt8} (hle : pre.length ≤ pre'.length) (tracks : Tracks stream pre' t)
      (received : t.received = s.received)
  | frame {p data : List UInt8} (hle : pre.length ≤ p.length)
      (tracks : Tracks stream (p ++ (preamble data ++ data)) t) (mBuffer : t.mBuffer = [])
      (length : data.length ≤ 51200) (received : t.received = s.received ++ [data])

theorem start_of_ne {s : O3DSServer} (h : s.mState ≠ .SYNC) : s.start = s := if_neg h

theorem Tracks.of_SYNC {stream pre : List UInt8} {s : O3DSServer} (hs : s.mState = .SYNC)
    (h : pre ++ s.mTcp.stream = stream) : Tracks stream pre s := by
  refine ⟨?_, ?_, ?_⟩
  · rw [start, if_pos hs]
    exact h
  · intro hs'
    rw [hs] at hs'
    cases hs'
  · intro hs'
    rw [hs] at hs'
    cases hs'

theorem Tracks.of_HEADER {stream pre : List UInt8} {s : O3DSServer} (hs : s.mState = .HEADER)
    (h : pre ++ (s.mBuffer ++ s.mTcp.stream) = stream) (hptr : s.mPtr ≤ 18)
    (horigin : magic <+: s.mBuffer ∨ Ended pre) : Tracks stream pre s := by
  refine ⟨?_, fun _ => ⟨hptr, horigin⟩, ?_⟩
  · rwa [start_of_ne (by rw [hs]; nofun)]
  · intro hs'
    rw [hs] at hs'
    cases hs'

theorem Tracks.of_DATA {stream pre : List UInt8} {s : O3DSServer} (hs : s.mState = .DATA)
    (h : pre ++ (s.mBuffer ++ s.mTcp.stream) = stream) (hlo : 18 ≤ s.mPtr)
    (hhi : s.mPtr ≤ s.bucketSize + 18)
    (horigin : magic <+: s.mBuffer ∨ Ended pre ∧ s.mBuffer.head? = some 0x00) :
    Tracks stream pre s := by
  refine ⟨?_, ?_, fun _ => ⟨hlo, hhi, horigin⟩⟩
  · rwa [start_of_ne (by rw [hs]; nofun)]
  · intro hs'
    rw [hs] at hs'
    cases hs'

/-- Giving up a frame leaves its bytes behind. -/
theorem Advance.malformed {stream pre : List UInt8} {s t : O3DSServer}
    (h : pre ++ (t.mBuffer ++ t.mTcp.stream) = stream) (hreceived : t.received = s.received) :
    Advance stream pre s t.malformed := by
  have hbytes : (pre ++ t.mBuffer) ++ t.malformed.mTcp.stream = stream := by
    rw [List.append_assoc]
    exact h
  refine @Advance.reads stream pre s t.malformed (pre ++ t.mBuffer) ?_ (.of_SYNC rfl hbytes) ?_
  · rw [List.length_append]
    exact Nat.le_add_right _ _
  · exact (received_OnState _ _ _).trans hreceived

theorem strncmp_eq_zero {b : UInt8} {bs : List UInt8} (h : strncmp 14 (b :: bs) magic = 0) :
    b = 0x00 := by
  rw [magic, strncmp] at h
  by_contra hb
  rw [if_pos hb] at h
  exact hb (UInt8.toNat_inj.mp (by omega))

/-- More bytes do not change the size. -/
theorem bucketSize_append {s t : O3DSServer} {bs : List UInt8} (h : t.mBuffer = s.mBuffer ++ bs)
    (hs : 18 ≤ s.mPtr) : t.bucketSize = s.bucketSize := by
  have hlen : 4 ≤ (s.mBuffer.drop 14).length := by
    rw [List.length_drop]
    rw [mPtr] at hs
    omega
  rw [bucketSize, bucketSize, h, List.drop_append_of_le_length (by rw [mPtr] at hs; omega),
    getUInt32_append hlen]

theorem eq_preamble {head data : List UInt8} (hlen : head.length = 18) (hmagic : magic <+: head)
    (hsize : (getUInt32 (head.drop 14)).toNat = data.length) : head = preamble data := by
  obtain ⟨word, rfl⟩ := hmagic
  have hword : word.length = 4 := by
    rw [List.length_append] at hlen
    exact Nat.add_left_cancel (n := 14) hlen
  have hdrop : (magic ++ word).drop 14 = word := rfl
  rw [hdrop] at hsize
  rw [preamble, ← hsize, UInt32.ofNat_toNat, putUInt32_get hword]

theorem readHeader_advance {stream pre : List UInt8} {s : O3DSServer} (hs : s.mState = .HEADER)
    (h : Tracks stream pre s) :
    Advance stream pre s s.readHeader.2 ∧
      (s.readHeader.1 = .next → Tracks stream pre s.readHeader.2 ∧
        s.readHeader.2.received = s.received) := by
  obtain ⟨hptr, horigin⟩ := h.HEADER hs
  have hbytes := h.bytes
  rw [start_of_ne (by rw [hs]; nofun)] at hbytes
  have hfill := fill_spec (le_refl s.mTcp.recvs.length) hptr
  rw [readHeader]
  generalize fill 18 s.mTcp.recvs.length s = r at hfill
  obtain ⟨ok, t⟩ := r
  obtain ⟨hreads, hstate, hptr', hok, -⟩ := hfill
  dsimp only at hreads hstate hptr' hok ⊢
  obtain ⟨bs, hbuffer, -⟩ := hreads.bytes
  have hbytes' : pre ++ (t.mBuffer ++ t.mTcp.stream) = stream := by rw [hreads.buffered, hbytes]
  have horigin' : magic <+: t.mBuffer ∨ Ended pre := by
    refine horigin.imp_left ?_
    intro hmagic
    rw [hbuffer]
    exact hmagic.trans (List.prefix_append _ _)
  cases ok with
  | false =>
    have htracks : Tracks stream pre t := .of_HEADER (hstate.trans hs) hbytes' hptr' horigin'
    exact ⟨.reads le_rfl htracks hreads.received, (absurd · Flow.leave_ne_next)⟩
  | true =>
    have hlen : t.mPtr = 18 := hok.mp rfl
    rw [Bool.not_true, if_neg Bool.false_ne_true]
    split
    · exact ⟨.malformed hbytes' hreads.received, (absurd · Flow.again_ne_next)⟩
    · rename_i hcmp
      have hhead : t.mBuffer.head? = some 0x00 := by
        rw [mPtr] at hlen
        cases hb : t.mBuffer with
        | nil => rw [hb] at hlen; cases hlen
        | cons b bs =>
          rw [hb, not_not] at hcmp
          exact congrArg some (strncmp_eq_zero hcmp)
      have htracks : Tracks stream pre { t with mState := .DATA } :=
        .of_DATA rfl hbytes' hlen.ge (hlen.le.trans (Nat.le_add_left _ _))
          (horigin'.imp_right fun hended => ⟨hended, hhead⟩)
      exact ⟨.reads le_rfl htracks hreads.received, fun _ => ⟨htracks, hreads.received⟩⟩

/-- A buffer that is full holds a whole frame. -/
theorem whole_of_full {stream pre : List UInt8} (hgenuine : Genuine stream) {t : O3DSServer}
    (hbytes : pre ++ (t.mBuffer ++ t.mTcp.stream) = stream)
    (horigin : magic <+: t.mBuffer ∨ Ended pre ∧ t.mBuffer.head? = some 0x00)
    (hfull : t.mPtr = t.bucketSize + 18) (hle : t.bucketSize ≤ 51200) :
    ∃ data, t.mBuffer = preamble data ++ data ∧ data.length = t.bucketSize := by
  rw [mPtr] at hfull
  obtain ⟨head, data, hsplit, hhead⟩ :
      ∃ head data, t.mBuffer = head ++ data ∧ head.length = 18 :=
    ⟨_, _, (List.take_append_drop 18 _).symm, List.length_take_of_le (by omega)⟩
  have hdata : data.length = t.bucketSize := by
    rw [hsplit, List.length_append, hhead] at hfull
    omega
  have hword : (getUInt32 (head.drop 14)).toNat = data.length := by
    have := bucketSize_append (s := { t with mBuffer := head }) hsplit hhead.ge
    rw [hdata, this, bucketSize]
  have hmagic : magic <+: head := by
    obtain hmagic | ⟨⟨p, d, rfl, hd⟩, hzero⟩ := horigin
    · rw [hsplit] at hmagic
      exact List.prefix_of_prefix_length_le hmagic (List.prefix_append _ _) (by rw [hhead]; decide)
    · refine hgenuine p d head data t.mTcp.stream ?_ hd hhead ?_ hword (hdata.trans_le hle)
      · rw [← hbytes, hsplit]
        simp only [List.append_assoc]
      · rw [hsplit] at hzero
        cases head with
        | nil => cases hhead
        | cons b head => exact hzero
  exact ⟨data, by rw [hsplit, eq_preamble hhead hmagic hword], hdata⟩

theorem readData_advance {stream pre : List UInt8} (hgenuine : Genuine stream) {s : O3DSServer}
    (hs : s.mState = .DATA) (h : Tracks stream pre s) : Advance stream pre s s.readData.2 := by
  obtain ⟨hlo, hhi, horigin⟩ := h.DATA hs
  have hbytes := h.bytes
  rw [start_of_ne (by rw [hs]; nofun)] at hbytes
  rw [readData]
  split
  · exact .malformed hbytes rfl
  · rename_i hsize
    have hfill := fill_spec (le_refl s.mTcp.recvs.length) hhi
    generalize fill (s.bucketSize + 18) s.mTcp.recvs.length s = r at hfill
    obtain ⟨ok, t⟩ := r
    obtain ⟨hreads, hstate, hptr, hok, -⟩ := hfill
    dsimp only at hreads hstate hptr hok ⊢
    obtain ⟨bs, hbuffer, -⟩ := hreads.bytes
    have hbucket := bucketSize_append hbuffer hlo
    have hbytes' : pre ++ (t.mBuffer ++ t.mTcp.stream) = stream := by rw [hreads.buffered, hbytes]
    have horigin' : magic <+: t.mBuffer ∨ Ended pre ∧ t.mBuffer.head? = some 0x00 := by
      rw [hbuffer]
      refine horigin.imp (fun hmagic => hmagic.trans (List.prefix_append _ _)) ?_
      intro hended
      refine ⟨hended.1, ?_⟩
      rw [List.head?_append, hended.2, Option.some_or]
    rw [← hbucket] at hptr hok hsize ⊢
    cases ok with
    | false =>
      have hlo' : 18 ≤ t.mPtr := by
        rw [mPtr, hbuffer, List.length_append]
        exact hlo.trans (Nat.le_add_right _ _)
      exact .reads le_rfl (.of_DATA (hstate.trans hs) hbytes' hlo' hptr horigin') hreads.received
    | true =>
      obtain ⟨data, hwhole, hdata⟩ :=
        whole_of_full hgenuine hbytes' horigin' (hok.mp rfl) (not_lt.mp hsize)
      rw [Bool.not_true, if_neg Bool.false_ne_true, ← hdata, hwhole,
        List.drop_left' (length_preamble data), List.take_length]
      refine .frame (p := pre) le_rfl (.of_HEADER rfl ?_ (Nat.zero_le _) (.inr ?_)) rfl
        (hdata.trans_le (not_lt.mp hsize)) ?_
      · rw [← hbytes', hwhole]
        simp only [List.append_assoc]
        rfl
      · exact ⟨pre, data, rfl, hdata.trans_le (not_lt.mp hsize)⟩
      · rw [← hreads.received]
        exact (received_OnState _ "Receiving Data" false).trans (received_OnData t data)

/-- What is in the buffer when the byte compared next is right. -/
theorem ReadTcp_byte {s t : O3DSServer} {c : UInt8} {ok : Bool}
    (h : ReadTcpSpec s (s.mPtr + 1) (ok, t)) (hc : t.mBuffer[s.mPtr]? = some c) :
    t.mBuffer = s.mBuffer ++ [c] := by
  obtain ⟨bs, hbuffer, -⟩ := h.reads.bytes
  have hptr := h.mPtr
  dsimp only at hbuffer hptr
  rw [mPtr, hbuffer, List.length_append] at hptr
  rw [hbuffer, mPtr, List.getElem?_append_right le_rfl, Nat.sub_self] at hc
  rw [hbuffer]
  congr 1
  cases bs with
  | nil => cases hc
  | cons b bs =>
    have hnil : bs = [] := by
      apply List.eq_nil_of_length_eq_zero
      rw [List.length_cons, mPtr] at hptr
      omega
    rw [List.getElem?_cons_zero] at hc
    rw [hnil, Option.some.inj hc]

/-- The comparison of the magic, `mBuffer` being right so far. -/
theorem compareMagic_compared {cs : List UInt8} {s : O3DSServer} (hs : s.mState = .SYNC)
    (hmagic : s.mBuffer ++ cs = magic) {r : Flow × O3DSServer} (hr : compareMagic cs s.mPtr s = r) :
    Reads s r.2 ∧ (r.2.mState = .SYNC ∨ r.2.mState = .HEADER ∧ r.2.mBuffer = magic) := by
  induction cs generalizing s with
  | nil =>
    rw [List.append_nil] at hmagic
    subst hr
    exact ⟨⟨⟨[], (List.append_nil _).symm, rfl⟩, le_rfl, rfl⟩, .inr ⟨rfl, hmagic⟩⟩
  | cons c cs ih =>
    have hspec := ReadTcp_spec (Nat.lt_succ_self s.mPtr)
    rw [compareMagic] at hr
    generalize s.ReadTcp (s.mPtr + 1) = q at hspec hr
    obtain ⟨ok, t⟩ := q
    have hstate : t.mState = .SYNC := hspec.mState.trans hs
    dsimp only at hr
    split at hr
    · subst hr
      exact ⟨hspec.reads, .inl hstate⟩
    · split at hr
      · subst hr
        exact ⟨hspec.reads, .inl hstate⟩
      · rename_i hc
        have hbuffer := ReadTcp_byte hspec (not_not.mp hc)
        have hptr : t.mPtr = s.mPtr + 1 := by
          rw [mPtr, hbuffer, List.length_append, List.length_singleton, mPtr]
        have hmagic' : t.mBuffer ++ cs = magic := by
          rw [hbuffer, List.append_assoc]
          exact hmagic
        obtain ⟨hreads, hend⟩ := ih hstate hmagic' (by rw [hptr, hr])
        exact ⟨hspec.reads.trans hreads, hend⟩

theorem sync_compared {s : O3DSServer} (hs : s.mState = .SYNC) :
    Reads { s with mBuffer := [] } s.sync.2 ∧
      (s.sync.2.mState = .SYNC ∨ s.sync.2.mState = .HEADER ∧ s.sync.2.mBuffer = magic) := by
  have hspec : ReadTcpSpec { s with mBuffer := [] } 1 (ReadTcp { s with mBuffer := [] } 1) :=
    ReadTcp_spec Nat.zero_lt_one
  rw [sync]
  generalize ReadTcp { s with mBuffer := [] } 1 = r at hspec
  obtain ⟨ok, t⟩ := r
  have hstate : t.mState = .SYNC := hspec.mState.trans hs
  dsimp only
  split
  · exact ⟨hspec.reads, .inl hstate⟩
  · split
    · exact ⟨hspec.reads, .inl hstate⟩
    · rename_i hzero
      have hbuffer : t.mBuffer = [0x00] := ReadTcp_byte hspec (not_not.mp hzero)
      have hptr : t.mPtr = 1 := by rw [mPtr, hbuffer, List.length_singleton]
      have hmagic : t.mBuffer ++ magic.drop 1 = magic := by
        rw [hbuffer]
        rfl
      obtain ⟨hreads, hend⟩ := compareMagic_compared hstate hmagic rfl
      rw [hptr] at hreads hend
      exact ⟨hspec.reads.trans hreads, hend⟩

theorem sync_advance {stream pre : List UInt8} {s : O3DSServer} (hs : s.mState = .SYNC)
    (h : Tracks stream pre s) :
    ∃ pre', pre.length ≤ pre'.length ∧ Tracks stream pre' s.sync.2 ∧
      s.sync.2.received = s.received := by
  have hbytes := h.bytes
  rw [start, if_pos hs] at hbytes
  obtain ⟨hreads, hend⟩ := sync_compared hs
  have hbuffered : s.sync.2.mBuffer ++ s.sync.2.mTcp.stream = s.mTcp.stream := hreads.buffered
  have hbytes' : pre ++ (s.sync.2.mBuffer ++ s.sync.2.mTcp.stream) = stream := by
    rw [hbuffered]
    exact hbytes
  obtain hend | ⟨hend, hmagic⟩ := hend
  · refine ⟨pre ++ s.sync.2.mBuffer, ?_, .of_SYNC hend ?_, hreads.received⟩
    · rw [List.length_append]
      exact Nat.le_add_right _ _
    · rw [List.append_assoc, hbytes']
  · refine ⟨pre, le_rfl, .of_HEADER hend hbytes' ?_ (.inl ?_), hreads.received⟩
    · have hlen : magic.length ≤ 18 := by decide
      exact (congrArg List.length hmagic).trans_le hlen
    · exact hmagic ▸ List.prefix_rfl

theorem Advance.trans_reads {stream pre pre' : List UInt8} {s t u : O3DSServer}
    (hle : pre.length ≤ pre'.length) (hreceived : t.received = s.received)
    (h : Advance stream pre' t u) : Advance stream pre s u := by
  cases h with
  | reads hle' tracks received => exact .reads (hle.trans hle') tracks (received.trans hreceived)
  | frame hle' tracks mBuffer length received =>
    exact .frame (hle.trans hle') tracks mBuffer length (by rw [received, hreceived])

theorem turn_HEADER_advance {stream pre : List UInt8} (hgenuine : Genuine stream) {s : O3DSServer}
    (hs : s.mState = .HEADER) (h : Tracks stream pre s) :
    Advance stream pre s (block .DATA readData s.readHeader).2 := by
  obtain ⟨hheader, hnext⟩ := readHeader_advance hs h
  have hstate := readHeader_next (s := s)
  generalize s.readHeader = r at hheader hnext hstate
  obtain ⟨flow, t⟩ := r
  cases flow with
  | next =>
    obtain ⟨htracks, hreceived⟩ := hnext rfl
    rw [block, if_pos (hstate rfl)]
    exact .trans_reads le_rfl hreceived (readData_advance hgenuine (hstate rfl) htracks)
  | again => exact hheader
  | leave => exact hheader

theorem turn_advance {stream pre : List UInt8} (hgenuine : Genuine stream) {s : O3DSServer}
    (h : Tracks stream pre s) : Advance stream pre s s.turn.2 := by
  cases hs : s.mState with
  | SYNC =>
    obtain ⟨pre', hle, htracks, hreceived⟩ := sync_advance hs h
    have hstate := sync_next (s := s)
    rw [turn_of_SYNC hs]
    generalize s.sync = r at htracks hreceived hstate
    obtain ⟨flow, t⟩ := r
    cases flow with
    | next =>
      rw [block, if_pos (hstate rfl)]
      exact .trans_reads hle hreceived (turn_HEADER_advance hgenuine (hstate rfl) htracks)
    | again => exact .reads hle htracks hreceived
    | leave => exact .reads hle htracks hreceived
  | HEADER =>
    rw [turn_of_HEADER hs]
    exact turn_HEADER_advance hgenuine hs h
  | DATA =>
    rw [turn_of_DATA hs]
    exact readData_advance hgenuine hs h

/-- Deliveries that are framed and stand one after the other from position `a` to `b`. -/
structure Laid (stream : List UInt8) (a b : Nat) (ds : List Delivery) : Prop where
  le : a ≤ b
  framed : ∀ d ∈ ds, FramedIn stream d
  inside : ∀ d ∈ ds, a ≤ d.offset ∧ d.offset + d.data.length ≤ b
  apart : Apart ds

theorem Laid.nil {stream : List UInt8} {a b : Nat} (h : a ≤ b) : Laid stream a b [] :=
  ⟨h, by simp, by simp, .nil⟩

theorem Laid.append {stream : List UInt8} {a b c : Nat} {ds es : List Delivery}
    (h : Laid stream a b ds) (h' : Laid stream b c es) : Laid stream a c (ds ++ es) := by
  refine ⟨h.le.trans h'.le, ?_, ?_, ?_⟩
  · intro d hd
    obtain hd | hd := List.mem_append.mp hd
    · exact h.framed d hd
    · exact h'.framed d hd
  · intro d hd
    obtain hd | hd := List.mem_append.mp hd
    · exact ⟨(h.inside d hd).1, (h.inside d hd).2.trans h'.le⟩
    · exact ⟨h.le.trans (h'.inside d hd).1, (h'.inside d hd).2⟩
  · refine List.pairwise_append.mpr ⟨h.apart, h'.apart, ?_⟩
    intro d hd e he
    exact (h.inside d hd).2.trans (h'.inside e he).1

/-- What an advance passes on lies where the receiver has got to. -/
theorem Advance.laid {stream pre : List UInt8} {s t : O3DSServer} (h : Advance stream pre s t) :
    ∃ pre', Tracks stream pre' t ∧
      Laid stream pre.length pre'.length (passed stream.length s t) := by
  cases h with
  | reads hle tracks received =>
    refine ⟨_, tracks, ?_⟩
    rw [passed, received, List.drop_length]
    exact .nil hle
  | frame hle tracks mBuffer length received =>
    rename_i p data
    refine ⟨_, tracks, ?_⟩
    have hbytes := tracks.bytes
    have hempty : t.start.mBuffer = [] := by
      rw [start]
      split
      · rfl
      · exact mBuffer
    rw [hempty, List.nil_append, List.append_assoc, List.append_assoc] at hbytes
    have hlen : stream.length = p.length + 18 + data.length + t.mTcp.stream.length := by
      rw [← hbytes, List.length_append, List.length_append, List.length_append, length_preamble]
      omega
    have hoffset : stream.length - t.mTcp.stream.length - data.length = p.length + 18 := by omega
    rw [passed, received, List.drop_left, List.map_singleton, hoffset]
    refine ⟨?_, ?_, ?_, List.pairwise_singleton _ _⟩
    · rw [List.length_append]
      omega
    · intro d hd
      rw [List.mem_singleton.mp hd]
      exact ⟨length, p, t.mTcp.stream, hbytes.symm, rfl⟩
    · intro d hd
      rw [List.mem_singleton.mp hd, List.length_append, List.length_append, length_preamble]
      dsimp only
      omega

theorem loop_laid {stream pre : List UInt8} (hgenuine : Genuine stream) {n : Nat}
    {s t : O3DSServer} (h : Tracks stream pre s) (hl : loop n s = some t) :
    ∃ pre', Tracks stream pre' t ∧
      Laid stream pre.length pre'.length (loopDeliveries stream.length n s) := by
  induction n generalizing s pre with
  | zero => cases hl
  | succ n ih =>
    obtain ⟨pre', htracks, hlaid⟩ := (turn_advance hgenuine h).laid
    rw [loop] at hl
    rw [loopDeliveries]
    generalize s.turn = r at htracks hlaid hl
    obtain ⟨flow, u⟩ := r
    cases flow with
    | leave =>
      cases hl
      exact ⟨pre', htracks, hlaid⟩
    | next =>
      obtain ⟨pre'', htracks', hlaid'⟩ := ih htracks hl
      exact ⟨pre'', htracks', hlaid.append hlaid'⟩
    | again =>
      obtain ⟨pre'', htracks', hlaid'⟩ := ih htracks hl
      exact ⟨pre'', htracks', hlaid.append hlaid'⟩

theorem ticks_laid {stream pre : List UInt8} (hgenuine : Genuine stream) {s : O3DSServer}
    (h : Tracks stream pre s) (ticks : List (List (Option Nat))) :
    ∃ b, Laid stream pre.length b (ticksDeliveries stream.length s ticks) := by
  induction ticks generalizing s pre with
  | nil => exact ⟨pre.length, .nil le_rfl⟩
  | cons recvs ticks ih =>
    obtain ⟨u, hu⟩ := s.tick_returns recvs
    have hstart : Tracks stream pre { s with mTcp := ⟨s.mTcp.stream, recvs⟩ } := by
      refine ⟨?_, h.HEADER, h.DATA⟩
      rw [← h.bytes, start, start]
      split <;> rfl
    obtain ⟨pre', htracks, hlaid⟩ := loop_laid hgenuine hstart hu
    obtain ⟨b, hlaid'⟩ := ih htracks
    refine ⟨b, ?_⟩
    rw [ticksDeliveries, hu, Option.elim_some]
    exact hlaid.append hlaid'

/-! ### A header that is not one -/

/-- One byte in a tick of its own is lost in `SYNC`. -/
theorem tick_skip {s : O3DSServer} {b : UInt8} {rest : List UInt8} (hs : s.mState = .SYNC)
    (hstream : s.mTcp.stream = b :: rest) :
    ∃ t, s.tick [some 1] = some t ∧ t.mState = .SYNC ∧ t.mTcp.stream = rest := by
  obtain ⟨⟨stream, recvs⟩, buffer, state, notices⟩ := s
  cases hs
  cases hstream
  by_cases hb : b = 0x00
  · subst hb
    exact ⟨_, rfl, rfl, rfl⟩
  · let u : O3DSServer := ⟨⟨rest, []⟩, [b], .SYNC, notices⟩
    have hne : some b ≠ some 0x00 := fun h => hb (Option.some.inj h)
    have hsync : sync ⟨⟨b :: rest, [some 1]⟩, buffer, .SYNC, notices⟩ = (.again, u) := by
      rw [sync]
      exact if_pos hne
    have hturn : turn ⟨⟨b :: rest, [some 1]⟩, buffer, .SYNC, notices⟩ = (.again, u) := by
      rw [turn_of_SYNC rfl, hsync]
      rfl
    refine ⟨⟨⟨rest, []⟩, [], .SYNC, notices⟩, ?_, rfl, rfl⟩
    rw [tick, loop, hturn]
    rfl

theorem ticks_skip {s : O3DSServer} {pre rest : List UInt8} (hs : s.mState = .SYNC)
    (hstream : s.mTcp.stream = pre ++ rest) :
    ∃ t, (List.replicate pre.length [some 1]).foldlM tick s = some t ∧ t.mState = .SYNC ∧
      t.mTcp.stream = rest := by
  induction pre generalizing s with
  | nil => exact ⟨s, rfl, hs, hstream⟩
  | cons b pre ih =>
    obtain ⟨u, hu, hstate, hrest⟩ := tick_skip hs hstream
    obtain ⟨t, ht, hdone⟩ := ih hstate hrest
    rw [List.length_cons, List.replicate_succ]
    exact ⟨t, foldlM_cons_eq_some_iff.mpr ⟨u, hu, ht⟩, hdone⟩

theorem mem_ticksDeliveries {size : Nat} {s t : O3DSServer} {ticks : List (List (Option Nat))}
    (h : ticks.foldlM tick s = some t) {recvs : List (Option Nat)} {d : Delivery}
    (hd : d ∈ tickDeliveries size t recvs) :
    d ∈ ticksDeliveries size s (ticks ++ [recvs]) := by
  induction ticks generalizing s with
  | nil =>
    cases h
    exact List.mem_append_left _ hd
  | cons recvs' ticks ih =>
    obtain ⟨u, hu, h⟩ := foldlM_cons_eq_some_iff.mp h
    rw [List.cons_append, ticksDeliveries, hu, Option.elim_some]
    exact List.mem_append_right _ (ih h)

theorem taken_buffer {s : O3DSServer} {n : Nat} {xs ys : List UInt8}
    (h : s.mBuffer ++ s.mTcp.stream = xs ++ ys) (hlen : xs.length = s.mPtr + n)
    (recvs : List (Option Nat)) :
    s.taken n recvs = { s with mTcp := ⟨ys, recvs⟩, mBuffer := xs } := by
  obtain ⟨zs, rfl, hstream⟩ := prefix_of_append_eq h.symm (by rw [mPtr] at hlen; omega)
  have hzs : zs.length = n := by
    rw [List.length_append, mPtr] at hlen
    omega
  rw [taken, hstream, List.take_left' hzs, List.drop_left' hzs]

theorem strncmp_zero (bs : List UInt8) : strncmp 14 (0x00 :: bs) magic = 0 := rfl

/-- A frame that is there is passed on, whatever stands between its first zero and its size. -/
theorem turn_frame {s : O3DSServer} {head body rest : List UInt8} (h : s.Available)
    (hs : s.mState = .HEADER) (hptr : s.mPtr ≤ 18)
    (hbytes : s.mBuffer ++ s.mTcp.stream = head ++ (body ++ rest)) (hhead : head.length = 18)
    (hzero : head.head? = some 0x00) (hword : (getUInt32 (head.drop 14)).toNat = body.length)
    (hle : body.length ≤ 51200) :
    ∃ t, s.turn = (.again, t) ∧ t.mState = .HEADER ∧ t.mBuffer = [] ∧ t.mTcp.stream = rest ∧
      t.received = s.received ++ [body] ∧ t.Available := by
  have hlen := congrArg List.length hbytes
  rw [List.length_append, List.length_append, List.length_append, hhead] at hlen
  have hmBuffer : s.mBuffer.length = s.mPtr := rfl
  -- the header
  obtain ⟨recvs, hfill, havailable⟩ := fill_available h hptr
  have htaken := taken_buffer hbytes (n := 18 - s.mPtr) (by omega) recvs
  rw [decide_eq_true (by omega), htaken] at hfill
  rw [htaken] at havailable
  let u : O3DSServer := { s with mTcp := ⟨body ++ rest, recvs⟩, mBuffer := head, mState := .DATA }
  have hheader : s.readHeader = (.next, u) := by
    have hcmp : strncmp 14 head magic = 0 := by
      cases head with
      | nil => cases hhead
      | cons b bs =>
        rw [Option.some.inj hzero]
        exact strncmp_zero bs
    rw [readHeader, hfill]
    dsimp only
    rw [Bool.not_true, if_neg Bool.false_ne_true, hcmp, if_neg (not_not.mpr rfl)]
  -- the payload
  have hsize : u.bucketSize = body.length := hword
  have huPtr : u.mPtr = 18 := hhead
  have huLe : u.mPtr ≤ body.length + 18 := huPtr.le.trans (Nat.le_add_left 18 body.length)
  obtain ⟨recvs', hfill', havailable'⟩ := fill_available (s := u) havailable huLe
  have hbytes' : u.mBuffer ++ u.mTcp.stream = (head ++ body) ++ rest := (List.append_assoc _ _ _).symm
  have htaken' := taken_buffer (n := body.length + 18 - u.mPtr) hbytes'
    (by rw [List.length_append]; omega) recvs'
  have henough : body.length + 18 - u.mPtr ≤ u.mTcp.stream.length := by
    rw [huPtr, Nat.add_sub_cancel, List.length_append]
    exact Nat.le_add_right _ _
  rw [decide_eq_true henough, htaken'] at hfill'
  rw [htaken'] at havailable'
  have hdata : ((head ++ body).drop 18).take body.length = body := by
    rw [List.drop_left' hhead, List.take_length]
  let v : O3DSServer := { u with mTcp := ⟨rest, recvs'⟩, mBuffer := head ++ body }
  let w : O3DSServer := (v.notify (.OnData body)).notify (.OnState "Receiving Data" false)
  refine ⟨{ w with mState := .HEADER, mBuffer := [] }, ?_, rfl, rfl, rfl, ?_, havailable'⟩
  · rw [turn_of_HEADER hs, hheader, block, if_pos (show u.mState = .DATA from rfl), readData,
      if_neg (by omega), hsize, hfill']
    dsimp only
    rw [Bool.not_true, if_neg Bool.false_ne_true, hdata]
  · exact (received_OnState _ "Receiving Data" false).trans (received_OnData v body)

theorem mem_loopDeliveries {size n : Nat} {s t : O3DSServer} (h : s.turn = (.again, t))
    {d : Delivery} (hd : d ∈ passed size s t ∨ d ∈ loopDeliveries size n t) :
    d ∈ loopDeliveries size (n + 1) s := by
  rw [loopDeliveries, h]
  exact List.mem_append.mpr hd

/-- What follows a frame in a tick that finds everything is passed on behind any header
that begins with a zero. -/
theorem tick_forged {s : O3DSServer} {data head body post : List UInt8} (size : Nat)
    (hs : s.mState = .SYNC)
    (hstream : s.mTcp.stream = preamble data ++ (data ++ (head ++ (body ++ post))))
    (hdata : data.length ≤ 51200) (hhead : head.length = 18) (hzero : head.head? = some 0x00)
    (hword : (getUInt32 (head.drop 14)).toNat = body.length) (hbody : body.length ≤ 51200)
    {recvs : List (Option Nat)} (hrecvs : Plenty s.mTcp.stream.length recvs) :
    ⟨size - post.length - body.length, body⟩ ∈ tickDeliveries size s recvs := by
  let s₀ : O3DSServer := { s with mTcp := ⟨s.mTcp.stream, recvs⟩ }
  have hmagic : s₀.mTcp.stream =
      magic ++ (putUInt32 (.ofNat data.length) ++ (data ++ (head ++ (body ++ post)))) := by
    rw [hstream, preamble, List.append_assoc]
  obtain ⟨left, hturn, hleft⟩ := turn_magic (s := s₀) hrecvs hs hmagic
  have hsize : (getUInt32 ((preamble data).drop 14)).toNat = data.length := by
    have hdrop : (preamble data).drop 14 = putUInt32 (.ofNat data.length) ++ [] := rfl
    rw [hdrop, getUInt32_put, UInt32.toNat_ofNat']
    omega
  obtain ⟨u, hu, huState, huBuffer, huStream, -, huAvailable⟩ :=
    @turn_frame ⟨⟨_, left⟩, magic, .HEADER, s.notices⟩ (preamble data) _ _ hleft rfl
      (by decide : 14 ≤ 18) (List.append_assoc _ _ _).symm rfl rfl hsize hdata
  have huBytes : u.mBuffer ++ u.mTcp.stream = head ++ (body ++ post) := by
    rw [huBuffer, huStream, List.nil_append]
  obtain ⟨v, hv, -, -, hvStream, hvReceived, -⟩ :=
    turn_frame huAvailable huState (by rw [mPtr, huBuffer]; exact Nat.zero_le _) huBytes hhead hzero
      hword hbody
  rw [tickDeliveries]
  refine mem_loopDeliveries (hturn.trans hu) (.inr ?_)
  refine mem_loopDeliveries hv (.inl ?_)
  rw [passed, hvReceived, List.drop_left, List.map_singleton, hvStream]
  exact List.mem_singleton_self _

theorem plenty_replicate (size : Nat) : Plenty size (List.replicate size (some size)) := by
  refine ⟨List.length_replicate.ge, ?_⟩
  intro recv hrecv
  exact ⟨size, List.eq_of_mem_replicate hrecv, le_rfl⟩

theorem genuine_of_delivers {s : O3DSServer} (hs : s.mState = .SYNC)
    (h : ∀ ticks, DeliversFrames s ticks) : Genuine s.mTcp.stream := by
  intro pre data head body post hstream hdata hhead hzero hword hbody
  obtain ⟨t, ht, hstate, hrest⟩ := ticks_skip hs hstream
  have hplenty := plenty_replicate t.mTcp.stream.length
  have hmem := mem_ticksDeliveries ht
    (tick_forged s.mTcp.stream.length hstate hrest hdata hhead hzero hword hbody hplenty)
  obtain ⟨p, q, hbytes, hoffset⟩ := ((h _).framed _ hmem).bytes
  dsimp only at hbytes hoffset
  -- both splittings of the stream have the 18 bytes at the same position
  have hlen := congrArg List.length hstream
  simp only [List.length_append, length_preamble, hhead] at hlen
  have hsplit : (pre ++ (preamble data ++ data)) ++ (head ++ (body ++ post)) =
      p ++ (preamble body ++ (body ++ q)) := by
    rw [← hbytes, hstream]
    simp only [List.append_assoc]
  have hp : (pre ++ (preamble data ++ data)).length = p.length := by
    simp only [List.length_append, length_preamble]
    omega
  have htail := (List.append_inj hsplit hp).2
  have hhead' : head = preamble body :=
    (List.append_inj htail (by rw [hhead, length_preamble])).1
  rw [hhead']
  exact List.prefix_append _ _

/-- A receiver that starts in `SYNC` passes on framed payloads only, however its calls of
`Recv` cut the stream, exactly when no frame in the stream is followed by a header that
begins with a zero and is not one. -/
theorem deliversFrames_iff {s : O3DSServer} (hs : s.mState = .SYNC) :
    (∀ ticks, DeliversFrames s ticks) ↔ Genuine s.mTcp.stream := by
  refine ⟨genuine_of_delivers hs, ?_⟩
  intro hgenuine ticks
  have htracks : Tracks s.mTcp.stream [] s := .of_SYNC hs (List.nil_append _)
  obtain ⟨b, hlaid⟩ := ticks_laid hgenuine htracks ticks
  exact ⟨ticks_received _ s ticks, hlaid.framed, hlaid.apart⟩

theorem deliversFrames_iff_listening :
    (∀ ticks, DeliversFrames (listening [[7, 8], []]) ticks) ↔
      Genuine (listening [[7, 8], []]).mTcp.stream :=
  deliversFrames_iff rfl

/-- After a frame, 18 bytes that begin with a zero and end with a size of one byte. -/
def forged : O3DSServer :=
  { listening [] with
    mTcp := ⟨frames [[7]] ++ (0x00 :: List.replicate 13 0x01 ++ [1, 0, 0, 0]) ++ [9], []⟩ }

/-- The byte after them is passed on. -/
theorem forged_delivered :
    ¬ DeliversFrames forged [List.replicate 14 (some 1) ++ [some 4, some 1, some 18, some 1]] := by
  intro h
  have hmem : ⟨37, [9]⟩ ∈ deliveries forged
      [List.replicate 14 (some 1) ++ [some 4, some 1, some 18, some 1]] := by decide +kernel
  obtain ⟨pre, post, hbytes, hoffset⟩ := (h.framed _ hmem).bytes
  have hpre : pre.length = 19 := by
    dsimp only at hoffset
    omega
  have hdrop := congrArg (List.drop 19) hbytes
  rw [List.drop_left' hpre] at hdrop
  have htake := congrArg (List.take 18) hdrop
  rw [List.take_left' (length_preamble [9])] at htake
  revert htake
  decide

end O3DSServer

end Open3DStream
