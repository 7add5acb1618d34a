import Mathlib.Data.Nat.Basic
import Mathlib.Order.Basic
import Open3DStream.Tcp.Server

/-! What the blocks of `tick` read, and that `tick` comes to an end. -/

namespace Open3DStream

namespace O3DSServer

/-- From `s` to `t` bytes went from the stream to the end of the buffer, and nothing was
passed on. -/
structure Reads (s t : O3DSServer) : Prop where
  bytes : ∃ bs, t.mBuffer = s.mBuffer ++ bs ∧ s.mTcp.stream = bs ++ t.mTcp.stream
  recvs : t.mTcp.recvs.length ≤ s.mTcp.recvs.length
  received : t.received = s.received

namespace Reads

variable {s t u : O3DSServer}

theorem refl (s : O3DSServer) : Reads s s := ⟨⟨[], by simp, rfl⟩, le_rfl, rfl⟩

theorem trans (h : Reads s t) (h' : Reads t u) : Reads s u := by
  obtain ⟨bs, hbuffer, hstream⟩ := h.bytes
  obtain ⟨bs', hbuffer', hstream'⟩ := h'.bytes
  refine ⟨⟨bs ++ bs', ?_, ?_⟩, h'.recvs.trans h.recvs, h'.received.trans h.received⟩
  · rw [hbuffer', hbuffer, List.append_assoc]
  · rw [hstream, hstream', List.append_assoc]

theorem buffered (h : Reads s t) :
    t.mBuffer ++ t.mTcp.stream = s.mBuffer ++ s.mTcp.stream := by
  obtain ⟨bs, hbuffer, hstream⟩ := h.bytes
  rw [hbuffer, hstream, List.append_assoc]

theorem length (h : Reads s t) :
    t.mTcp.stream.length + t.mPtr = s.mTcp.stream.length + s.mPtr := by
  have := congrArg List.length h.buffered
  simp only [List.length_append] at this
  simp only [mPtr]
  omega

end Reads

@[simp] theorem received_OnState (s : O3DSServer) (text : String) (warning : Bool) :
    (s.notify (.OnState text warning)).received = s.received := by
  simp [received, notify]

@[simp] theorem received_OnData (s : O3DSServer) (data : List UInt8) :
    (s.notify (.OnData data)).received = s.received ++ [data] := by
  simp [received, notify]

theorem ReadTcp_of_le {s : O3DSServer} {len : Nat} (h : len ≤ s.mPtr) :
    s.ReadTcp len = (true, s) := if_pos h

/-- A call of `ReadTcp` that has to read. -/
structure ReadTcpSpec (s : O3DSServer) (len : Nat) (r : Bool × O3DSServer) : Prop where
  reads : Reads s r.2
  mState : r.2.mState = s.mState
  mPtr : r.2.mPtr ≤ len
  ok : r.1 = true → r.2.mTcp.recvs.length < s.mTcp.recvs.length
  idle : r.1 = false → r.2.mPtr = s.mPtr

theorem ReadTcp_spec {s : O3DSServer} {len : Nat} (h : s.mPtr < len) :
    ReadTcpSpec s len (s.ReadTcp len) := by
  rw [ReadTcp, if_neg (not_le.mpr h), FSocket.Recv]
  cases hr : s.mTcp.recvs with
  | nil =>
    have hsame : s.mBuffer = s.mBuffer ++ [] := (List.append_nil _).symm
    refine ⟨⟨⟨[], rfl, rfl⟩, le_rfl, rfl⟩, rfl, ?_, nofun, ?_⟩
    · simpa [mPtr] using h.le
    · intro _
      exact (congrArg List.length hsame).symm
  | cons recv recvs =>
    have hlen : recvs.length < s.mTcp.recvs.length := by simp [hr]
    cases recv with
    | none =>
      refine ⟨⟨⟨[], (List.append_nil _).symm, rfl⟩, hlen.le, ?_⟩, rfl, h.le, nofun, fun _ => rfl⟩
      exact received_OnState { s with mTcp := ⟨s.mTcp.stream, recvs⟩ } _ _
    | some k =>
      refine ⟨⟨⟨_, rfl, (List.take_append_drop _ _).symm⟩, hlen.le, rfl⟩, rfl, ?_, fun _ => hlen, ?_⟩
      · simp only [mPtr, List.length_append, List.length_take] at h ⊢
        omega
      · intro hidle
        have hnil : s.mTcp.stream.take (min k (len - s.mPtr)) = [] := by simpa using hidle
        dsimp only
        rw [hnil, List.append_nil]
        rfl

theorem fill_of_le {s : O3DSServer} {len : Nat} (h : len ≤ s.mPtr) (n : Nat) :
    fill len n s = (true, s) := by
  cases n with
  | zero => rw [fill, decide_eq_true h]
  | succ n => rw [fill, if_pos h]

/-- What a loop that fills the buffer leaves. -/
structure FillSpec (s : O3DSServer) (len : Nat) (r : Bool × O3DSServer) : Prop where
  reads : Reads s r.2
  mState : r.2.mState = s.mState
  mPtr : r.2.mPtr ≤ len
  ok : r.1 = true ↔ r.2.mPtr = len
  recvs : s.mPtr < len → r.1 = true → r.2.mTcp.recvs.length < s.mTcp.recvs.length

theorem fill_spec {s : O3DSServer} {len n : Nat} (hn : s.mTcp.recvs.length ≤ n)
    (h : s.mPtr ≤ len) : FillSpec s len (fill len n s) := by
  obtain heq | hlt := h.eq_or_lt
  · rw [fill_of_le heq.ge]
    exact ⟨.refl s, rfl, heq.le, iff_of_true rfl heq, fun hlt => absurd heq hlt.ne⟩
  · induction n generalizing s with
    | zero =>
      rw [fill, decide_eq_false (not_le.mpr hlt)]
      exact ⟨.refl s, rfl, h, iff_of_false nofun hlt.ne, nofun⟩
    | succ n ih =>
      have hspec := ReadTcp_spec hlt
      rw [fill, if_neg (not_le.mpr hlt)]
      generalize s.ReadTcp len = r at hspec
      obtain ⟨ok, t⟩ := r
      obtain ⟨hreads, hstate, hptr, hok, hidle⟩ := hspec
      dsimp only at hreads hstate hptr hok hidle ⊢
      cases ok with
      | false =>
        have hlt' : t.mPtr < len := hidle rfl ▸ hlt
        exact ⟨hreads, hstate, hptr, iff_of_false nofun hlt'.ne, nofun⟩
      | true =>
        have hrecvs := hok rfl
        rw [Bool.not_true, if_neg Bool.false_ne_true]
        obtain heq | hlt' := hptr.eq_or_lt
        · rw [fill_of_le heq.ge]
          exact ⟨hreads, hstate, hptr, iff_of_true rfl heq, fun _ _ => hrecvs⟩
        · have hrest := ih (by omega) hptr hlt'
          exact ⟨hreads.trans hrest.reads, hrest.mState.trans hstate, hrest.mPtr, hrest.ok,
            fun _ h => (hrest.recvs hlt' h).trans hrecvs⟩

theorem ReadTcp_reads (s : O3DSServer) (len : Nat) : Reads s (s.ReadTcp len).2 := by
  obtain hlt | hle := Nat.lt_or_ge s.mPtr len
  · exact (ReadTcp_spec hlt).reads
  · rw [ReadTcp_of_le hle]
    exact .refl s

theorem fill_reads (s : O3DSServer) (len : Nat) : Reads s (fill len s.mTcp.recvs.length s).2 := by
  obtain hle | hge := Nat.le_total s.mPtr len
  · exact (fill_spec le_rfl hle).reads
  · rw [fill_of_le hge]
    exact .refl s

theorem fill_le {s : O3DSServer} {len : Nat} (h : (fill len s.mTcp.recvs.length s).1 = true) :
    len ≤ (fill len s.mTcp.recvs.length s).2.mPtr := by
  obtain hle | hge := Nat.le_total s.mPtr len
  · exact ((fill_spec le_rfl hle).ok.mp h).ge
  · rw [fill_of_le hge]
    exact hge

/-! ### The blocks -/

/-- What a block, or a turn, does to a receiver: it reads, and then goes on, gives up the
frame, or passes a frame on. -/
inductive Outcome (s : O3DSServer) : Flow × O3DSServer → Prop
  | next {t : O3DSServer} (reads : Reads s t) : Outcome s (.next, t)
  | leave {t : O3DSServer} (reads : Reads s t) : Outcome s (.leave, t)
  | resync {t u : O3DSServer} (reads : Reads s u) (mTcp : t.mTcp = u.mTcp)
      (mState : t.mState = .SYNC) (received : t.received = u.received) : Outcome s (.again, t)
  | frame {t u : O3DSServer} {data : List UInt8} (reads : Reads s u) (mTcp : t.mTcp = u.mTcp)
      (mState : t.mState = .HEADER) (mBuffer : t.mBuffer = [])
      (received : t.received = u.received ++ [data]) (length : data.length + 18 ≤ u.mPtr) :
      Outcome s (.again, t)

theorem Outcome.of_reads {s t : O3DSServer} {r : Flow × O3DSServer} (h : Reads s t)
    (hr : Outcome t r) : Outcome s r := by
  cases hr with
  | next reads => exact .next (h.trans reads)
  | leave reads => exact .leave (h.trans reads)
  | resync reads mTcp mState received => exact .resync (h.trans reads) mTcp mState received
  | frame reads mTcp mState mBuffer received length =>
    exact .frame (h.trans reads) mTcp mState mBuffer received length

theorem Outcome.recvs {s : O3DSServer} {r : Flow × O3DSServer} (h : Outcome s r) :
    r.2.mTcp.recvs.length ≤ s.mTcp.recvs.length := by
  cases h with
  | next reads => exact reads.recvs
  | leave reads => exact reads.recvs
  | resync reads mTcp => exact mTcp ▸ reads.recvs
  | frame reads mTcp => exact mTcp ▸ reads.recvs

theorem compareMagic_outcome (cs : List UInt8) (i : Nat) (s : O3DSServer) :
    Outcome s (compareMagic cs i s) := by
  induction cs generalizing i s with
  | nil => exact .next ⟨⟨[], (List.append_nil _).symm, rfl⟩, le_rfl, rfl⟩
  | cons c cs ih =>
    have hreads := s.ReadTcp_reads (i + 1)
    rw [compareMagic]
    generalize s.ReadTcp (i + 1) = r at hreads
    obtain ⟨ok, t⟩ := r
    dsimp only at hreads ⊢
    split
    · exact .leave hreads
    · split
      · exact .leave hreads
      · exact .of_reads hreads (ih (i + 1) t)

/-- The state in which `SYNC` starts to read. -/
def start (s : O3DSServer) : O3DSServer := if s.mState = .SYNC then { s with mBuffer := [] } else s

theorem sync_outcome {s : O3DSServer} (hs : s.mState = .SYNC) :
    Outcome { s with mBuffer := [] } s.sync ∧
      (s.sync.1 ≠ .leave → s.sync.2.mTcp.recvs.length < s.mTcp.recvs.length) := by
  have hspec : ReadTcpSpec { s with mBuffer := [] } 1 (ReadTcp { s with mBuffer := [] } 1) :=
    ReadTcp_spec Nat.zero_lt_one
  rw [sync]
  generalize ReadTcp { s with mBuffer := [] } 1 = r at hspec
  obtain ⟨ok, t⟩ := r
  obtain ⟨hreads, hstate, -, hok, -⟩ := hspec
  dsimp only at hreads hstate hok ⊢
  cases ok with
  | false => exact ⟨.leave hreads, fun h => absurd rfl h⟩
  | true =>
    rw [Bool.not_true, if_neg Bool.false_ne_true]
    split
    · exact ⟨.resync hreads rfl (hstate.trans hs) rfl, fun _ => hok rfl⟩
    · have hrest := compareMagic_outcome (magic.drop 1) 1 t
      exact ⟨.of_reads hreads hrest, fun _ => hrest.recvs.trans_lt (hok rfl)⟩

theorem Outcome.malformed {s t : O3DSServer} (h : Reads s t) :
    Outcome s (.again, t.malformed) :=
  .resync h rfl rfl (received_OnState _ _ _)

theorem readHeader_outcome (s : O3DSServer) : Outcome s s.readHeader ∧
    (s.mPtr < 18 → s.readHeader.1 ≠ .leave →
      s.readHeader.2.mTcp.recvs.length < s.mTcp.recvs.length) := by
  have hreads := fill_reads s 18
  have hrecvs (h : s.mPtr < 18) := (fill_spec (le_refl s.mTcp.recvs.length) h.le).recvs h
  rw [readHeader]
  generalize fill 18 s.mTcp.recvs.length s = r at hreads hrecvs
  obtain ⟨ok, t⟩ := r
  dsimp only at hreads hrecvs ⊢
  cases ok with
  | false => exact ⟨.leave hreads, fun _ h => absurd rfl h⟩
  | true =>
    rw [Bool.not_true, if_neg Bool.false_ne_true]
    split
    · exact ⟨.malformed hreads, fun h _ => hrecvs h rfl⟩
    · exact ⟨.next ⟨hreads.bytes, hreads.recvs, hreads.received⟩, fun h _ => hrecvs h rfl⟩

theorem readData_outcome (s : O3DSServer) : Outcome s s.readData ∧ s.readData.1 ≠ .next := by
  have hreads := fill_reads s (s.bucketSize + 18)
  have hle := @fill_le s (s.bucketSize + 18)
  rw [readData]
  split
  · exact ⟨.malformed (.refl s), nofun⟩
  · generalize fill (s.bucketSize + 18) s.mTcp.recvs.length s = r at hreads hle
    obtain ⟨ok, t⟩ := r
    dsimp only at hreads hle ⊢
    cases ok with
    | false => exact ⟨.leave hreads, nofun⟩
    | true =>
      have hlen := hle rfl
      rw [Bool.not_true, if_neg Bool.false_ne_true]
      have hreceived := (received_OnState _ "Receiving Data" false).trans
        (received_OnData t ((t.mBuffer.drop 18).take s.bucketSize))
      refine ⟨.frame hreads rfl rfl rfl hreceived ?_, nofun⟩
      rw [List.length_take]
      omega

/-! ### Turns -/

/-- A turn from here takes a call of `Recv`. -/
def Prompt (s : O3DSServer) : Prop := s.mState = .SYNC ∨ (s.mState = .HEADER ∧ s.mPtr < 18)

theorem turn_of_SYNC {s : O3DSServer} (h : s.mState = .SYNC) :
    s.turn = block .DATA readData (block .HEADER readHeader s.sync) := by
  rw [turn, block, if_pos h]

theorem turn_of_HEADER {s : O3DSServer} (h : s.mState = .HEADER) :
    s.turn = block .DATA readData s.readHeader := by
  rw [turn, block, if_neg (by rw [h]; nofun), block, if_pos h]

theorem turn_of_DATA {s : O3DSServer} (h : s.mState = .DATA) : s.turn = s.readData := by
  rw [turn, block, if_neg (by rw [h]; nofun), block, if_neg (by rw [h]; nofun), block, if_pos h]

theorem Outcome.block {s : O3DSServer} {r : Flow × O3DSServer} (h : Outcome s r) {state : EState}
    {f : O3DSServer → Flow × O3DSServer} (hf : ∀ t, Outcome t (f t)) :
    Outcome s (block state f r) := by
  cases h with
  | next reads =>
    rw [O3DSServer.block]
    split
    · exact .of_reads reads (hf _)
    · exact .next reads
  | leave reads => exact .leave reads
  | resync reads mTcp mState received => exact .resync reads mTcp mState received
  | frame reads mTcp mState mBuffer received length =>
    exact .frame reads mTcp mState mBuffer received length

theorem turn_outcome (s : O3DSServer) : Outcome s.start s.turn := by
  have hdata := fun t => (readData_outcome t).1
  have hheader := fun t => (readHeader_outcome t).1
  cases h : s.mState with
  | SYNC =>
    rw [turn_of_SYNC h, start, if_pos h]
    exact ((sync_outcome h).1.block hheader).block hdata
  | HEADER =>
    rw [turn_of_HEADER h, start, if_neg (by rw [h]; nofun)]
    exact (hheader s).block hdata
  | DATA =>
    rw [turn_of_DATA h, start, if_neg (by rw [h]; nofun)]
    exact hdata s

theorem block_leave {r : Flow × O3DSServer} (h : r.1 = .leave) (state : EState)
    (f : O3DSServer → Flow × O3DSServer) : block state f r = r := by
  obtain ⟨flow, t⟩ := r
  cases h
  rfl

theorem block_recvs {f : O3DSServer → Flow × O3DSServer} (hf : ∀ t, Outcome t (f t))
    (state : EState) (r : Flow × O3DSServer) :
    (block state f r).2.mTcp.recvs.length ≤ r.2.mTcp.recvs.length := by
  obtain ⟨flow, t⟩ := r
  cases flow with
  | next =>
    have houtcome : Outcome t (block state f (.next, t)) := (Outcome.next (.refl t)).block hf
    exact houtcome.recvs
  | again => exact le_rfl
  | leave => exact le_rfl

/-- A turn that goes on has taken a call of `Recv`. -/
theorem turn_recvs {s : O3DSServer} (h : s.Prompt) (hgo : s.turn.1 ≠ .leave) :
    s.turn.2.mTcp.recvs.length < s.mTcp.recvs.length := by
  have hdata := block_recvs (fun t => (readData_outcome t).1) .DATA
  have hheader := block_recvs (fun t => (readHeader_outcome t).1) .HEADER
  obtain hs | ⟨hs, hlt⟩ := h
  · rw [turn_of_SYNC hs] at hgo ⊢
    have hsync : s.sync.1 ≠ .leave := by
      intro hl
      rw [block_leave hl, block_leave hl] at hgo
      exact hgo hl
    exact ((hdata _).trans (hheader _)).trans_lt ((sync_outcome hs).2 hsync)
  · rw [turn_of_HEADER hs] at hgo ⊢
    have hread : s.readHeader.1 ≠ .leave := by
      intro hl
      rw [block_leave hl] at hgo
      exact hgo hl
    exact (hdata _).trans_lt ((readHeader_outcome s).2 hlt hread)

theorem compareMagic_next {cs : List UInt8} {i : Nat} {s : O3DSServer}
    (h : (compareMagic cs i s).1 = .next) : (compareMagic cs i s).2.mState = .HEADER := by
  induction cs generalizing i s with
  | nil => rfl
  | cons c cs ih =>
    rw [compareMagic] at h ⊢
    dsimp only at h ⊢
    split at h
    · cases h
    · rename_i hok
      rw [if_neg hok]
      split at h
      · cases h
      · rename_i hc
        rw [if_neg hc]
        exact ih h

theorem sync_next {s : O3DSServer} (h : s.sync.1 = .next) : s.sync.2.mState = .HEADER := by
  rw [sync] at h ⊢
  dsimp only at h ⊢
  split at h
  · cases h
  · rename_i hok
    rw [if_neg hok]
    split at h
    · cases h
    · rename_i hc
      rw [if_neg hc]
      exact compareMagic_next h

theorem readHeader_next {s : O3DSServer} (h : s.readHeader.1 = .next) :
    s.readHeader.2.mState = .DATA := by
  rw [readHeader] at h ⊢
  dsimp only at h ⊢
  split at h
  · cases h
  · rename_i hok
    rw [if_neg hok]
    split at h
    · cases h
    · rename_i hc
      rw [if_neg hc]

/-- A block that follows is run when the one before goes on in its state. -/
theorem block_ne_next {f : O3DSServer → Flow × O3DSServer} {state : EState} {r : Flow × O3DSServer}
    (hr : r.1 = .next → r.2.mState = state) (hf : ∀ t, (f t).1 ≠ .next) :
    (block state f r).1 ≠ .next := by
  obtain ⟨flow, t⟩ := r
  cases flow with
  | next =>
    rw [block, if_pos (hr rfl)]
    exact hf t
  | again => nofun
  | leave => nofun

theorem turn_ne_next (s : O3DSServer) : s.turn.1 ≠ .next := by
  have hdata := fun t => (readData_outcome t).2
  cases h : s.mState with
  | SYNC =>
    rw [turn_of_SYNC h]
    refine block_ne_next ?_ hdata
    generalize hr : s.sync = r
    obtain ⟨flow, t⟩ := r
    cases flow with
    | next =>
      have ht : t.mState = .HEADER := by simpa only [hr] using sync_next (s := s) (by rw [hr])
      rw [block, if_pos ht]
      exact readHeader_next
    | again => nofun
    | leave => nofun
  | HEADER =>
    rw [turn_of_HEADER h]
    exact block_ne_next readHeader_next hdata
  | DATA =>
    rw [turn_of_DATA h]
    exact hdata s

@[simp] theorem start_mTcp (s : O3DSServer) : s.start.mTcp = s.mTcp := by
  rw [start]
  split <;> rfl

@[simp] theorem start_received (s : O3DSServer) : s.start.received = s.received := by
  rw [start]
  split <;> rfl

theorem loop_returns {n : Nat} {s : O3DSServer}
    (h : (s.Prompt ∧ s.mTcp.recvs.length < n) ∨ s.mTcp.recvs.length + 1 < n) :
    ∃ t, loop n s = some t := by
  induction n generalizing s with
  | zero => omega
  | succ n ih =>
    have hout := s.turn_outcome
    have hnext := s.turn_ne_next
    have hrecvs : s.turn.1 ≠ .leave → s.turn.2.mTcp.recvs.length < n := by
      intro hgo
      have hle := hout.recvs
      rw [start_mTcp] at hle
      obtain ⟨hp, hlt⟩ | hlt := h
      · have := turn_recvs hp hgo
        omega
      · omega
    rw [loop]
    generalize s.turn = r at hout hrecvs hnext
    cases hout with
    | next reads => exact absurd rfl hnext
    | leave reads => exact ⟨_, rfl⟩
    | resync reads mTcp mState received =>
      exact ih (.inl ⟨.inl mState, hrecvs nofun⟩)
    | frame reads mTcp mState mBuffer received length =>
      have hptr (t : O3DSServer) (ht : t.mBuffer = []) : t.mPtr < 18 := by simp [mPtr, ht]
      exact ih (.inl ⟨.inr ⟨mState, hptr _ mBuffer⟩, hrecvs nofun⟩)

theorem tick_returns (s : O3DSServer) (recvs : List (Option Nat)) : ∃ t, s.tick recvs = some t :=
  loop_returns (.inr (by simp))

end O3DSServer

end Open3DStream
