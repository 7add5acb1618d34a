import Mathlib.Data.List.Basic
import Open3DStream.Lib.Partial
import Open3DStream.Tcp.Reads

/-! What arrives of the frames that are written on one connection. -/

namespace Open3DStream

open Lib

/-- The stream of payloads written one after the other. -/
def frames (payloads : List (List UInt8)) : List UInt8 :=
  payloads.flatMap fun data => (WriteTcp data).flatten

/-- What a frame has before its payload. -/
def preamble (data : List UInt8) : List UInt8 := magic ++ putUInt32 (.ofNat data.length)

theorem frames_cons (data : List UInt8) (payloads : List (List UInt8)) :
    frames (data :: payloads) = preamble data ++ (data ++ frames payloads) := by
  simp [frames, WriteTcp, preamble]

theorem frames_append (ps qs : List (List UInt8)) : frames (ps ++ qs) = frames ps ++ frames qs :=
  List.flatMap_append

theorem length_preamble (data : List UInt8) : (preamble data).length = 18 := rfl

theorem length_frames_cons (data : List UInt8) (payloads : List (List UInt8)) :
    (frames (data :: payloads)).length = 18 + data.length + (frames payloads).length := by
  rw [frames_cons, List.length_append, List.length_append, length_preamble]
  omega

theorem frames_eq_nil_iff (payloads : List (List UInt8)) :
    (frames payloads).length = 0 ↔ payloads = [] := by
  cases payloads with
  | nil => exact iff_of_true rfl rfl
  | cons data payloads =>
    rw [length_frames_cons]
    exact iff_of_false (by omega) nofun

theorem prefix_of_append_eq {γ : Type} {a b c d : List γ} (h : a ++ b = c ++ d)
    (hl : c.length ≤ a.length) : ∃ x, a = c ++ x ∧ d = x ++ b := by
  obtain ⟨x, rfl, hb⟩ | ⟨x, rfl, hd⟩ := List.append_eq_append_iff.mp h
  · have hx : x = [] := by
      rw [List.length_append] at hl
      exact List.eq_nil_of_length_eq_zero (by omega)
    subst hx
    exact ⟨[], by simp, hb.symm⟩
  · exact ⟨x, rfl, hd⟩

namespace O3DSServer

/-! ### Every byte is used once -/

/-- The bytes a receiver still holds between two turns; `SYNC` drops its buffer. -/
def held (s : O3DSServer) : Nat := s.start.mPtr

theorem held_le (s : O3DSServer) : s.held ≤ s.mPtr := by
  rw [held, start]
  split
  · exact Nat.zero_le _
  · exact le_rfl

theorem held_of_SYNC {s : O3DSServer} (h : s.mState = .SYNC) : s.held = 0 := by
  rw [held, start, if_pos h]
  rfl

/-- The frames that a turn passes on take no more bytes than it uses up. -/
theorem turn_spends (s : O3DSServer) : ∃ ps, s.turn.2.received = s.received ++ ps ∧
    s.turn.2.mTcp.stream.length + s.turn.2.held + (frames ps).length ≤
      s.mTcp.stream.length + s.held := by
  have hout := s.turn_outcome
  have hheld : s.start.mPtr = s.held := rfl
  have hnil : (frames []).length = 0 := rfl
  generalize s.turn = r at hout
  cases hout with
  | next reads | leave reads =>
    rename_i t
    have hlen := reads.length
    have hle := t.held_le
    rw [start_mTcp] at hlen
    refine ⟨[], ?_, ?_⟩
    · rw [reads.received, start_received, List.append_nil]
    · dsimp only
      omega
  | resync reads mTcp mState received =>
    have hlen := reads.length
    rw [start_mTcp] at hlen
    refine ⟨[], ?_, ?_⟩
    · rw [received, reads.received, start_received, List.append_nil]
    · dsimp only
      rw [held_of_SYNC mState, mTcp]
      omega
  | frame reads mTcp mState mBuffer received length =>
    rename_i t u data
    have hlen := reads.length
    rw [start_mTcp] at hlen
    have hempty : t.held = 0 := by
      have := t.held_le
      rw [mPtr, mBuffer] at this
      exact Nat.le_zero.mp this
    refine ⟨[data], ?_, ?_⟩
    · rw [received, reads.received, start_received]
    · dsimp only
      rw [hempty, mTcp, length_frames_cons]
      omega

theorem loop_spends {n : Nat} {s t : O3DSServer} (h : loop n s = some t) :
    ∃ ps, t.received = s.received ++ ps ∧
      t.mTcp.stream.length + t.held + (frames ps).length ≤ s.mTcp.stream.length + s.held := by
  induction n generalizing s with
  | zero => cases h
  | succ n ih =>
    obtain ⟨ps, hps, hle⟩ := s.turn_spends
    rw [loop] at h
    generalize s.turn = r at hps hle h
    obtain ⟨flow, u⟩ := r
    dsimp only at hps hle
    have hgo (h : loop n u = some t) : ∃ qs, t.received = s.received ++ qs ∧
        t.mTcp.stream.length + t.held + (frames qs).length ≤ s.mTcp.stream.length + s.held := by
      obtain ⟨qs, hqs, hle'⟩ := ih h
      refine ⟨ps ++ qs, ?_, ?_⟩
      · rw [hqs, hps, List.append_assoc]
      · rw [frames_append, List.length_append]
        omega
    cases flow with
    | next => exact hgo h
    | again => exact hgo h
    | leave =>
      cases h
      exact ⟨ps, hps, hle⟩

theorem tick_spends {s t : O3DSServer} {recvs : List (Option Nat)} (h : s.tick recvs = some t) :
    ∃ ps, t.received = s.received ++ ps ∧
      t.mTcp.stream.length + t.held + (frames ps).length ≤ s.mTcp.stream.length + s.held := by
  obtain ⟨ps, hps, hle⟩ := loop_spends h
  have hheld : held { s with mTcp := ⟨s.mTcp.stream, recvs⟩ } = s.held := by
    simp only [held, start]
    split <;> rfl
  rw [hheld] at hle
  exact ⟨ps, hps, hle⟩

theorem ticks_spend {s t : O3DSServer} {ticks : List (List (Option Nat))}
    (h : ticks.foldlM tick s = some t) :
    ∃ ps, t.received = s.received ++ ps ∧
      t.mTcp.stream.length + t.held + (frames ps).length ≤ s.mTcp.stream.length + s.held := by
  refine foldlM_keeps (R := fun u => ∃ ps, u.received = s.received ++ ps ∧
    u.mTcp.stream.length + u.held + (frames ps).length ≤ s.mTcp.stream.length + s.held) ?_
    ⟨[], (List.append_nil _).symm, le_rfl⟩ h
  rintro u v recvs ⟨ps, hps, hle⟩ hv
  obtain ⟨qs, hqs, hle'⟩ := tick_spends hv
  refine ⟨ps ++ qs, ?_, ?_⟩
  · rw [hqs, hps, List.append_assoc]
  · rw [frames_append, List.length_append]
    omega

theorem ticks_return (s : O3DSServer) (ticks : List (List (Option Nat))) :
    ∃ t, ticks.foldlM tick s = some t := by
  induction ticks generalizing s with
  | nil => exact ⟨s, rfl⟩
  | cons recvs ticks ih =>
    obtain ⟨u, hu⟩ := s.tick_returns recvs
    obtain ⟨t, ht⟩ := ih u
    exact ⟨t, foldlM_cons_eq_some_iff.mpr ⟨u, hu, ht⟩⟩

/-! ### A receiver that is in step -/

/-- The buffer and the stream together hold the frames still to come, and the buffer
does not reach the end of the first one. -/
structure Framed (s : O3DSServer) (ps : List (List UInt8)) : Prop where
  bytes : s.mBuffer ++ s.mTcp.stream = frames ps
  state : (s.mState = .HEADER ∧ s.mPtr < 18) ∨
    (s.mState = .DATA ∧ 18 ≤ s.mPtr ∧ ∃ data rest, ps = data :: rest ∧ s.mPtr < data.length + 18)

theorem Framed.nil {s : O3DSServer} {ps : List (List UInt8)} (h : Framed s ps)
    (hs : s.mTcp.stream = []) : ps = [] := by
  have hlen := congrArg List.length h.bytes
  rw [hs, List.append_nil] at hlen
  cases ps with
  | nil => rfl
  | cons data ps =>
    rw [length_frames_cons] at hlen
    have hptr : s.mPtr = s.mBuffer.length := rfl
    obtain ⟨-, hlt⟩ | ⟨-, -, d, rest, heq, hlt⟩ := h.state
    · omega
    · cases heq
      omega

theorem strncmp_magic (xs : List UInt8) : strncmp 14 (magic ++ xs) magic = 0 := rfl

theorem bucketSize_of_preamble {s : O3DSServer} {data xs : List UInt8}
    (h : s.mBuffer = preamble data ++ xs) (hd : data.length ≤ 51200) :
    s.bucketSize = data.length := by
  have hdrop : (preamble data ++ xs).drop 14 = putUInt32 (.ofNat data.length) ++ xs := rfl
  rw [bucketSize, h, hdrop, getUInt32_put, UInt32.toNat_ofNat']
  omega

/-- The payload of a frame whose length has been read. -/
theorem readData_framed {s : O3DSServer} {data : List UInt8} {ps : List (List UInt8)}
    (hd : data.length ≤ 51200) (hbytes : s.mBuffer ++ s.mTcp.stream = frames (data :: ps))
    (hs : s.mState = .DATA) (hlo : 18 ≤ s.mPtr) (hhi : s.mPtr ≤ data.length + 18) :
    ∃ qs rs, data :: ps = qs ++ rs ∧ Framed s.readData.2 rs ∧
      s.readData.2.received = s.received ++ qs := by
  have hframe := hbytes
  rw [frames_cons] at hframe
  obtain ⟨xs, hxs, -⟩ := prefix_of_append_eq hframe hlo
  have hsize := bucketSize_of_preamble hxs hd
  have hfill := fill_spec (le_refl s.mTcp.recvs.length) hhi
  rw [readData, if_neg (by omega), hsize]
  generalize fill (data.length + 18) s.mTcp.recvs.length s = r at hfill
  obtain ⟨ok, t⟩ := r
  obtain ⟨hreads, hstate, hptr, hok, -⟩ := hfill
  dsimp only at hreads hstate hptr hok ⊢
  have hbuffered := hreads.buffered.trans hbytes
  cases ok with
  | false =>
    have hlt : t.mPtr < data.length + 18 :=
      lt_of_le_of_ne hptr fun heq => Bool.false_ne_true (hok.mpr heq)
    have hge : 18 ≤ t.mPtr := by
      obtain ⟨bs, hbs, -⟩ := hreads.bytes
      rw [mPtr, hbs, List.length_append]
      exact hlo.trans (Nat.le_add_right _ _)
    refine ⟨[], data :: ps, rfl, ⟨hbuffered, .inr ⟨hstate.trans hs, hge, data, ps, rfl, hlt⟩⟩, ?_⟩
    exact hreads.received.trans (List.append_nil _).symm
  | true =>
    rw [frames_cons, ← List.append_assoc] at hbuffered
    have hlen : t.mBuffer.length = data.length + 18 := hok.mp rfl
    have hfit : (preamble data ++ data).length ≤ t.mBuffer.length := by
      rw [List.length_append, length_preamble, hlen, Nat.add_comm]
    obtain ⟨ys, hys, hrest⟩ := prefix_of_append_eq hbuffered hfit
    have hnil : ys = [] := by
      apply List.eq_nil_of_length_eq_zero
      rw [hys, List.length_append, List.length_append, length_preamble] at hlen
      omega
    have hdata : (t.mBuffer.drop 18).take data.length = data := by
      rw [hys, hnil, List.append_nil, ← length_preamble data, List.drop_left, List.take_length]
    refine ⟨[data], ps, rfl, ⟨?_, .inl ⟨rfl, Nat.zero_lt_succ 17⟩⟩, ?_⟩
    · change [] ++ t.mTcp.stream = frames ps
      rw [hrest, hnil]
    · rw [Bool.not_true, if_neg Bool.false_ne_true, hdata, ← hreads.received]
      exact (received_OnState _ "Receiving Data" false).trans (received_OnData t data)

theorem turn_framed {s : O3DSServer} {ps : List (List UInt8)} (hps : ∀ p ∈ ps, p.length ≤ 51200)
    (h : Framed s ps) :
    ∃ qs rs, ps = qs ++ rs ∧ Framed s.turn.2 rs ∧ s.turn.2.received = s.received ++ qs := by
  obtain ⟨hs, hlt⟩ | ⟨hs, hge, data, rest, rfl, hlt⟩ := h.state
  · have hfill := fill_spec (le_refl s.mTcp.recvs.length) hlt.le
    rw [turn_of_HEADER hs, readHeader]
    generalize fill 18 s.mTcp.recvs.length s = r at hfill
    obtain ⟨ok, t⟩ := r
    obtain ⟨hreads, hstate, hptr, hok, -⟩ := hfill
    dsimp only at hreads hstate hptr hok ⊢
    have hbuffered := hreads.buffered.trans h.bytes
    cases ok with
    | false =>
      have hlt' : t.mPtr < 18 := lt_of_le_of_ne hptr fun heq => Bool.false_ne_true (hok.mpr heq)
      refine ⟨[], ps, rfl, ⟨hbuffered, .inl ⟨hstate.trans hs, hlt'⟩⟩, ?_⟩
      exact hreads.received.trans (List.append_nil _).symm
    | true =>
      have hlen : t.mBuffer.length = 18 := hok.mp rfl
      cases ps with
      | nil =>
        have := congrArg List.length hbuffered
        rw [List.length_append, hlen] at this
        exact absurd this (by simp [frames])
      | cons data rest =>
        have hframe := hbuffered
        rw [frames_cons] at hframe
        obtain ⟨xs, hxs, -⟩ := prefix_of_append_eq hframe hlen.ge
        have hcmp : strncmp 14 t.mBuffer magic = 0 := by
          rw [hxs, preamble, List.append_assoc]
          exact strncmp_magic _
        rw [Bool.not_true, if_neg Bool.false_ne_true, hcmp, if_neg (by decide), block, if_pos rfl]
        have hdata := readData_framed (s := { t with mState := .DATA })
          (hps data List.mem_cons_self) hbuffered rfl hlen.ge (hlen.le.trans (Nat.le_add_left _ _))
        rw [← hreads.received]
        exact hdata
  · rw [turn_of_DATA hs]
    exact readData_framed (hps data List.mem_cons_self) h.bytes hs hge hlt.le

theorem loop_framed {n : Nat} {s t : O3DSServer} {ps : List (List UInt8)}
    (hps : ∀ p ∈ ps, p.length ≤ 51200) (h : Framed s ps) (hl : loop n s = some t) :
    ∃ qs rs, ps = qs ++ rs ∧ Framed t rs ∧ t.received = s.received ++ qs := by
  induction n generalizing s ps with
  | zero => cases hl
  | succ n ih =>
    obtain ⟨qs, rs, rfl, hframed, hreceived⟩ := turn_framed hps h
    rw [loop] at hl
    generalize s.turn = r at hframed hreceived hl
    obtain ⟨flow, u⟩ := r
    have hgo (hl : loop n u = some t) :
        ∃ qs' rs', qs ++ rs = qs' ++ rs' ∧ Framed t rs' ∧ t.received = s.received ++ qs' := by
      obtain ⟨qs', rs', rfl, hframed', hreceived'⟩ :=
        ih (fun p hp => hps p (List.mem_append_right _ hp)) hframed hl
      refine ⟨qs ++ qs', rs', (List.append_assoc _ _ _).symm, hframed', ?_⟩
      rw [hreceived', hreceived, List.append_assoc]
    cases flow with
    | next => exact hgo hl
    | again => exact hgo hl
    | leave =>
      cases hl
      exact ⟨qs, rs, rfl, hframed, hreceived⟩

theorem tick_framed {s t : O3DSServer} {ps : List (List UInt8)} (hps : ∀ p ∈ ps, p.length ≤ 51200)
    (h : Framed s ps) {recvs : List (Option Nat)} (ht : s.tick recvs = some t) :
    ∃ qs rs, ps = qs ++ rs ∧ Framed t rs ∧ t.received = s.received ++ qs :=
  loop_framed (s := { s with mTcp := ⟨s.mTcp.stream, recvs⟩ }) hps ⟨h.bytes, h.state⟩ ht

theorem ticks_framed {s t : O3DSServer} {ticks : List (List (Option Nat))}
    {ps : List (List UInt8)} (hps : ∀ p ∈ ps, p.length ≤ 51200) (h : Framed s ps)
    (hrun : ticks.foldlM tick s = some t) :
    ∃ qs rs, ps = qs ++ rs ∧ Framed t rs ∧ t.received = s.received ++ qs := by
  refine foldlM_keeps (R := fun u => ∃ qs rs, ps = qs ++ rs ∧ Framed u rs ∧
    u.received = s.received ++ qs) ?_ ⟨[], ps, rfl, h, (List.append_nil _).symm⟩ hrun
  rintro u v recvs ⟨qs, rs, rfl, hframed, hreceived⟩ hv
  obtain ⟨qs', rs', rfl, hframed', hreceived'⟩ :=
    tick_framed (fun p hp => hps p (List.mem_append_right _ hp)) hframed hv
  refine ⟨qs ++ qs', rs', (List.append_assoc _ _ _).symm, hframed', ?_⟩
  rw [hreceived', hreceived, List.append_assoc]

/-! ### Getting in step -/

/-- A call of `Recv` that finds data while there is some. -/
def finds : Option Nat → Bool
  | some (_ + 1) => true
  | _ => false

/-- The number of calls of `Recv` before the first that finds nothing. -/
def unbroken (recvs : List (Option Nat)) : Nat := (recvs.takeWhile finds).length

theorem unbroken_succ {recvs : List (Option Nat)} {n : Nat} (h : unbroken recvs = n + 1) :
    ∃ recv rest, recvs = recv :: rest ∧ finds recv = true ∧ unbroken rest = n := by
  cases recvs with
  | nil => cases h
  | cons recv rest =>
    by_cases hfinds : finds recv = true
    · rw [unbroken, List.takeWhile_cons_of_pos hfinds, List.length_cons] at h
      exact ⟨recv, rest, rfl, hfinds, Nat.succ.inj h⟩
    · rw [unbroken, List.takeWhile_cons_of_neg hfinds] at h
      cases h

theorem ReadTcp_one {s : O3DSServer} {b : UInt8} {rest : List UInt8}
    (hstream : s.mTcp.stream = b :: rest) {recv : Option Nat} {recvs : List (Option Nat)}
    (hrecvs : s.mTcp.recvs = recv :: recvs) (h : finds recv = true) :
    s.ReadTcp (s.mPtr + 1) =
      (true, { s with mTcp := ⟨rest, recvs⟩, mBuffer := s.mBuffer ++ [b] }) := by
  cases recv with
  | none => cases h
  | some k =>
    cases k with
    | zero => cases h
    | succ k =>
      have hmin : min (k + 1) (s.mPtr + 1 - s.mPtr) = 1 := by omega
      rw [ReadTcp, if_neg (by omega), FSocket.Recv, hrecvs, hstream]
      dsimp only
      rw [hmin]
      rfl

theorem ReadTcp_idle {s : O3DSServer} (h : unbroken s.mTcp.recvs = 0) :
    (s.ReadTcp (s.mPtr + 1)).1 = false ∧
      (s.ReadTcp (s.mPtr + 1)).2.mTcp.stream = s.mTcp.stream := by
  rw [ReadTcp, if_neg (by omega), FSocket.Recv]
  cases hr : s.mTcp.recvs with
  | nil => exact ⟨rfl, rfl⟩
  | cons recv recvs =>
    rw [hr] at h
    cases recv with
    | none => exact ⟨rfl, rfl⟩
    | some k =>
      cases k with
      | zero =>
        have hmin : min 0 (s.mPtr + 1 - s.mPtr) = 0 := Nat.zero_min _
        dsimp only
        rw [hmin]
        exact ⟨rfl, rfl⟩
      | succ k =>
        rw [unbroken, List.takeWhile_cons_of_pos rfl] at h
        cases h

/-- How far the comparison gets along bytes that are right. -/
theorem compareMagic_stream {cs rest : List UInt8} {i : Nat} {s : O3DSServer}
    (hi : s.mPtr = i) (hstream : s.mTcp.stream = cs ++ rest) :
    (cs.length ≤ unbroken s.mTcp.recvs → ∃ recvs, compareMagic cs i s =
        (.next, { s with mTcp := ⟨rest, recvs⟩, mBuffer := s.mBuffer ++ cs, mState := .HEADER })) ∧
      (unbroken s.mTcp.recvs < cs.length →
        (compareMagic cs i s).1 = .leave ∧ (compareMagic cs i s).2.mState = s.mState ∧
        (compareMagic cs i s).2.mTcp.stream = (cs ++ rest).drop (unbroken s.mTcp.recvs)) := by
  induction cs generalizing i s with
  | nil =>
    refine ⟨fun _ => ⟨s.mTcp.recvs, ?_⟩, fun hlt => absurd hlt (Nat.not_lt_zero _)⟩
    rw [compareMagic, List.append_nil]
    have htcp : (⟨rest, s.mTcp.recvs⟩ : FSocket) = s.mTcp :=
      congrArg (FSocket.mk · s.mTcp.recvs) hstream.symm
    rw [htcp]
  | cons c cs ih =>
    subst hi
    rw [compareMagic]
    cases hu : unbroken s.mTcp.recvs with
    | zero =>
      obtain ⟨hidle, hsame⟩ := ReadTcp_idle hu
      have hspec := ReadTcp_spec (Nat.lt_succ_self s.mPtr)
      refine ⟨fun hle => absurd hle (Nat.not_succ_le_zero _), fun _ => ?_⟩
      dsimp only
      rw [hidle, Bool.not_false, if_pos rfl]
      exact ⟨rfl, hspec.mState, hsame.trans hstream⟩
    | succ n =>
      obtain ⟨recv, recvs, hr, hfinds, hrest⟩ := unbroken_succ hu
      have hget : (s.mBuffer ++ [c])[s.mPtr]? = some c := List.getElem?_concat_length
      rw [ReadTcp_one hstream hr hfinds]
      dsimp only
      rw [Bool.not_true, if_neg Bool.false_ne_true, hget, if_neg (not_not.mpr rfl)]
      have hptr : mPtr { s with mTcp := ⟨cs ++ rest, recvs⟩, mBuffer := s.mBuffer ++ [c] } =
          s.mPtr + 1 := List.length_append
      obtain ⟨hall, hpart⟩ := ih hptr rfl
      dsimp only at hall hpart
      rw [hrest] at hall hpart
      refine ⟨?_, ?_⟩
      · intro hle
        obtain ⟨left, hleft⟩ := hall (Nat.le_of_succ_le_succ hle)
        refine ⟨left, ?_⟩
        refine hleft.trans ?_
        rw [List.append_assoc]
        rfl
      · intro hlt
        exact hpart (Nat.lt_of_succ_lt_succ hlt)

/-- On a right first byte `SYNC` does what the comparison of the whole magic does. -/
theorem sync_eq {s : O3DSServer} {rest : List UInt8} (hstream : s.mTcp.stream = 0x00 :: rest) :
    s.sync = compareMagic magic 0 { s with mBuffer := [] } := by
  have hmagic : compareMagic magic 0 { s with mBuffer := [] } =
      (let r := ReadTcp { s with mBuffer := [] } 1
        if !r.1 then (.leave, r.2)
        else if r.2.mBuffer[0]? ≠ some 0x00 then (.leave, r.2)
        else compareMagic (magic.drop 1) 1 r.2) := rfl
  rw [hmagic, sync]
  cases hu : unbroken s.mTcp.recvs with
  | zero =>
    have hidle := (ReadTcp_idle (s := { s with mBuffer := [] }) hu).1
    have hidle' : (ReadTcp { s with mBuffer := [] } 1).1 = false := hidle
    dsimp only
    rw [hidle', Bool.not_false, if_pos rfl, if_pos rfl]
  | succ n =>
    obtain ⟨recv, recvs, hr, hfinds, -⟩ := unbroken_succ hu
    have hread := ReadTcp_one (s := { s with mBuffer := [] }) hstream hr hfinds
    have hread' : ReadTcp { s with mBuffer := [] } 1 = _ := hread
    rw [hread']
    rfl

/-- What `SYNC` makes of the first magic. -/
theorem tick_first {s t : O3DSServer} {ps : List (List UInt8)} {recvs : List (Option Nat)}
    (hps : ∀ p ∈ ps, p.length ≤ 51200) (hne : ps ≠ []) (hs : s.mState = .SYNC)
    (hstream : s.mTcp.stream = frames ps) (h : s.tick recvs = some t) :
    (14 ≤ unbroken recvs →
        ∃ qs rs, ps = qs ++ rs ∧ Framed t rs ∧ t.received = s.received ++ qs) ∧
      (unbroken recvs < 14 → t.mState = .SYNC ∧ t.received = s.received ∧
        t.mTcp.stream = (frames ps).drop (unbroken recvs)) := by
  obtain ⟨data, payloads, rfl⟩ := List.exists_cons_of_ne_nil hne
  let s₀ : O3DSServer := { s with mTcp := ⟨s.mTcp.stream, recvs⟩ }
  obtain ⟨rest, hrest⟩ : ∃ rest, frames (data :: payloads) = magic ++ rest :=
    ⟨_, (frames_cons data payloads).trans (List.append_assoc _ _ _)⟩
  have hs₀ : s₀.mTcp.stream = magic ++ rest := hstream.trans hrest
  have hsync := sync_eq hs₀
  obtain ⟨hall, hpart⟩ := compareMagic_stream (i := 0) (s := { s₀ with mBuffer := [] }) rfl hs₀
  refine ⟨?_, ?_⟩
  · intro hle
    obtain ⟨left, hleft⟩ := hall hle
    let u : O3DSServer := ⟨⟨rest, left⟩, magic, .HEADER, s.notices⟩
    have hu : s₀.sync = (.next, u) := hsync.trans hleft
    have hturn : s₀.turn = u.turn := by
      rw [turn_of_SYNC (s := s₀) hs, hu, turn_of_HEADER (s := u) rfl, block,
        if_pos (show u.mState = .HEADER from rfl)]
    have hloop : loop (recvs.length + 2) u = some t := by
      rw [← h, tick, loop, loop, ← hturn]
    exact loop_framed (s := u) hps ⟨hrest.symm, .inl ⟨rfl, (by decide : 14 < 18)⟩⟩ hloop
  · intro hlt
    obtain ⟨hflow, hstate, hdrop⟩ := hpart hlt
    rw [← hsync] at hflow hstate hdrop
    have hturn : s₀.turn = s₀.sync := by
      rw [turn_of_SYNC (s := s₀) hs, block_leave hflow, block_leave hflow]
    have hout := (sync_outcome (s := s₀) hs).1
    rw [tick, loop, hturn] at h
    generalize s₀.sync = r at hflow hstate hdrop hout h
    cases hout with
    | leave reads =>
      cases h
      exact ⟨hstate.trans hs, reads.received, hdrop.trans (congrArg (List.drop _) hrest.symm)⟩
    | next reads => cases hflow
    | resync reads mTcp mState received => cases hflow
    | frame reads mTcp mState mBuffer received length => cases hflow

/-- The first tick that finds data finds the bytes of the magic one by one without a break. -/
def SyncedAtOnce (ticks : List (List (Option Nat))) : Prop :=
  ∀ recvs ∈ ticks.find? fun recvs => decide (0 < unbroken recvs), 14 ≤ unbroken recvs

theorem received_iff {s t : O3DSServer} {ps : List (List UInt8)}
    {ticks : List (List (Option Nat))} (hps : ∀ p ∈ ps, p.length ≤ 51200) (hne : ps ≠ [])
    (hs : s.mState = .SYNC) (hstream : s.mTcp.stream = frames ps)
    (hrun : ticks.foldlM tick s = some t) (hdone : t.mTcp.stream = []) :
    t.received = s.received ++ ps ↔ SyncedAtOnce ticks := by
  induction ticks generalizing s with
  | nil =>
    cases hrun
    have hnil := (frames_eq_nil_iff ps).mp (by rw [← hstream, hdone]; rfl)
    exact absurd hnil hne
  | cons recvs ticks ih =>
    obtain ⟨u, hu, hrun⟩ := foldlM_cons_eq_some_iff.mp hrun
    obtain ⟨hall, hpart⟩ := tick_first hps hne hs hstream hu
    rw [SyncedAtOnce]
    obtain hzero | hpos := Nat.eq_zero_or_pos (unbroken recvs)
    · -- nothing was found, and nothing has changed
      obtain ⟨hstate, hreceived, hdrop⟩ := hpart (by omega)
      rw [hzero, List.drop_zero] at hdrop
      rw [List.find?_cons_of_neg (by simp [hzero]), ← hreceived]
      exact ih hstate hdrop hrun
    · rw [List.find?_cons_of_pos (by simpa using hpos)]
      simp only [Option.mem_def, Option.some.injEq, forall_eq']
      obtain hlt | hge := Nat.lt_or_ge (unbroken recvs) 14
      · -- the bytes that were read are lost
        obtain ⟨hstate, hreceived, hdrop⟩ := hpart hlt
        refine iff_of_false ?_ (not_le.mpr hlt)
        intro hall
        obtain ⟨qs, hqs, hle⟩ := ticks_spend hrun
        rw [held_of_SYNC hstate, hdrop, List.length_drop] at hle
        rw [hreceived] at hqs
        have hqs' : qs = ps := List.append_cancel_left (hqs.symm.trans hall)
        have hlen : (frames ps).length ≠ 0 := fun h => hne ((frames_eq_nil_iff ps).mp h)
        rw [hqs'] at hle
        omega
      · obtain ⟨qs, rs, rfl, hframed, hreceived⟩ := hall hge
        obtain ⟨qs', rs', rfl, hframed', hreceived'⟩ :=
          ticks_framed (fun p hp => hps p (List.mem_append_right _ hp)) hframed hrun
        refine iff_of_true ?_ hge
        rw [hreceived', hreceived, hframed'.nil hdone, List.append_nil, List.append_assoc]

/-- A receiver that starts in `SYNC` at the start of the stream, and is ticked until it has
read the stream, passes on the payloads written exactly when it reads the first magic in
one tick. -/
theorem payloads_received_iff {s : O3DSServer} (hs : s.mState = .SYNC)
    {payloads : List (List UInt8)} (hpayloads : ∀ p ∈ payloads, p.length ≤ 51200)
    (hstream : s.mTcp.stream = frames payloads) (ticks : List (List (Option Nat))) :
    ∃ t, ticks.foldlM tick s = some t ∧ (t.mTcp.stream = [] →
      (t.received = s.received ++ payloads ↔ payloads = [] ∨ SyncedAtOnce ticks)) := by
  obtain ⟨t, ht⟩ := s.ticks_return ticks
  refine ⟨t, ht, fun hdone => ?_⟩
  by_cases hne : payloads = []
  · subst hne
    obtain ⟨ps, hps, hle⟩ := ticks_spend ht
    have hnil : ps = [] := by
      rw [held_of_SYNC hs, hstream] at hle
      have hzero : (frames []).length = 0 := rfl
      exact (frames_eq_nil_iff ps).mp (by omega)
    exact iff_of_true (hps.trans (by rw [hnil])) (.inl rfl)
  · rw [or_iff_right hne]
    exact received_iff hpayloads hne hs hstream ht hdone

/-- A receiver before anything has been read. -/
def listening (payloads : List (List UInt8)) : O3DSServer :=
  ⟨⟨frames payloads, []⟩, [], .SYNC, []⟩

/-- Two payloads in one tick; the calls of `Recv` after the first magic find the length,
the first payload, and the second frame in two parts. -/
def wholeTick : List (Option Nat) := List.replicate 14 (some 1) ++ [some 4, some 2, some 9, some 9]

theorem payloads_received_iff_whole : ∃ t,
    [[some 0], wholeTick].foldlM tick (listening [[7, 8], []]) = some t ∧ (t.mTcp.stream = [] →
      (t.received = [] ++ [[7, 8], []] ↔ [[7, 8], []] = ([] : List (List UInt8)) ∨
        SyncedAtOnce [[some 0], wholeTick])) :=
  payloads_received_iff (s := listening [[7, 8], []]) rfl (by decide) rfl _

/-- One tick ends within the magic, and the payload is never seen. -/
theorem split_magic_lost : ∃ t,
    [[some 1], List.replicate 18 (some 1), List.replicate 18 (some 1)].foldlM tick
      (listening [[7]]) = some t ∧ t.mTcp.stream = [] ∧ t.received = [] := by
  refine ⟨_, rfl, by decide, by decide⟩

end O3DSServer

end Open3DStream
