import Mathlib.Data.List.Basic
import Open3DStream.Lib.Scan
import Open3DStream.Tcp.Available

/-! What arrives of the frames that follow bytes of something else. -/

namespace Open3DStream

open Lib

namespace O3DSServer

/-! ### Ticks use up what is there -/

theorem Outcome.stream {s : O3DSServer} {r : Flow × O3DSServer} (h : Outcome s r) :
    r.2.mTcp.stream.length ≤ s.mTcp.stream.length := by
  have hreads {t : O3DSServer} (reads : Reads s t) :
      t.mTcp.stream.length ≤ s.mTcp.stream.length := by
    obtain ⟨bs, -, hstream⟩ := reads.bytes
    rw [hstream, List.length_append]
    exact Nat.le_add_left _ _
  cases h with
  | next reads => exact hreads reads
  | leave reads => exact hreads reads
  | resync reads mTcp => exact mTcp ▸ hreads reads
  | frame reads mTcp => exact mTcp ▸ hreads reads

/-- What a block that finds everything there leaves. -/
structure Settles (r : Flow × O3DSServer) : Prop where
  available : r.2.Available
  leave : r.1 = .leave → r.2.mTcp.stream = [] ∨ r.2.mState = .SYNC

theorem taken_all {s : O3DSServer} {n : Nat} (h : ¬ n ≤ s.mTcp.stream.length)
    (recvs : List (Option Nat)) : (s.taken n recvs).mTcp.stream = [] :=
  List.drop_of_length_le (by omega)

theorem readData_settles {s : O3DSServer} (h : s.Available) (hptr : s.mPtr ≤ s.bucketSize + 18) :
    Settles s.readData := by
  obtain ⟨recvs, hfill, havailable⟩ := fill_available h hptr
  rw [readData]
  split
  · exact ⟨h, (absurd · Flow.again_ne_leave)⟩
  · rw [hfill]
    dsimp only
    split
    · rename_i hok
      refine ⟨havailable, fun _ => .inl (taken_all ?_ recvs)⟩
      simpa using hok
    · exact ⟨havailable, (absurd · Flow.again_ne_leave)⟩

theorem readHeader_settles {s : O3DSServer} (h : s.Available) (hs : s.mState = .HEADER)
    (hptr : s.mPtr ≤ 18) : Settles s.turn := by
  obtain ⟨recvs, hfill, havailable⟩ := fill_available h hptr
  have hptr' : (s.taken (18 - s.mPtr) recvs).mPtr ≤ 18 := by
    rw [mPtr, taken, List.length_append, List.length_take]
    rw [mPtr] at hptr ⊢
    omega
  rw [turn_of_HEADER hs, readHeader, hfill]
  dsimp only
  split
  · rename_i hok
    refine ⟨havailable, fun _ => .inl (taken_all ?_ recvs)⟩
    simpa using hok
  · split
    · exact ⟨havailable, (absurd · Flow.again_ne_leave)⟩
    · rw [block, if_pos rfl]
      exact readData_settles havailable (hptr'.trans (Nat.le_add_left _ _))

theorem turn_settles {s : O3DSServer} (h : s.Available) (hs : s.Prompt) :
    Settles s.turn ∧
      (s.mState = .SYNC → s.mTcp.stream ≠ [] →
        s.turn.2.mTcp.stream.length < s.mTcp.stream.length) := by
  obtain hs | ⟨hs, hlt⟩ := hs
  · obtain ⟨rest, hrest⟩ | ⟨k, rest, hk, hne, hstream⟩ := compared magic s.mTcp.stream
    · obtain ⟨recvs, hturn, hplenty⟩ := turn_magic h hs hrest.symm
      have hread := (turn_outcome ⟨⟨rest, recvs⟩, magic, .HEADER, s.notices⟩).stream
      rw [start_mTcp, ← hturn] at hread
      have hlen : magic.length + rest.length = s.mTcp.stream.length := by
        rw [← hrest, List.length_append]
      refine ⟨?_, fun _ _ => hread.trans_lt ?_⟩
      · rw [hturn]
        exact readHeader_settles hplenty rfl (by decide : 14 ≤ 18)
      · rw [← hlen]
        exact Nat.lt_add_of_pos_left (by decide)
    · obtain ⟨flow, t, hturn, -, hresumes⟩ := turn_mismatch h hs hk hstream hne
      rw [hturn]
      refine ⟨⟨hresumes.available, fun _ => .inr hresumes.mState⟩, fun _ hdata => ?_⟩
      have hpos := List.length_pos_iff.mpr hdata
      rw [hresumes.stream, List.length_tail]
      rw [hstream, List.length_append] at hpos ⊢
      omega
  · refine ⟨readHeader_settles h hs hlt.le, fun hs' => ?_⟩
    rw [hs] at hs'
    cases hs'

theorem loop_stream {n : Nat} {s t : O3DSServer} (h : loop n s = some t) :
    t.mTcp.stream.length ≤ s.mTcp.stream.length := by
  induction n generalizing s with
  | zero => cases h
  | succ n ih =>
    have hle := s.turn_outcome.stream
    rw [start_mTcp] at hle
    rw [loop] at h
    generalize s.turn = r at hle h
    obtain ⟨flow, u⟩ := r
    cases flow with
    | leave =>
      cases h
      exact hle
    | next => exact (ih h).trans hle
    | again => exact (ih h).trans hle

theorem loop_settles {n : Nat} {s t : O3DSServer} (h : s.Available) (hs : s.Prompt)
    (hl : loop n s = some t) :
    (t.mTcp.stream = [] ∨ t.mState = .SYNC) ∧
      (s.mState = .SYNC → s.mTcp.stream ≠ [] →
        t.mTcp.stream.length < s.mTcp.stream.length) := by
  induction n generalizing s with
  | zero => cases hl
  | succ n ih =>
    obtain ⟨hsettles, hlt⟩ := turn_settles h hs
    have hout := s.turn_outcome
    have hnext := s.turn_ne_next
    rw [loop] at hl
    generalize s.turn = r at hsettles hlt hout hnext hl
    cases hout with
    | next reads => exact absurd rfl hnext
    | leave reads =>
      cases hl
      exact ⟨hsettles.leave rfl, hlt⟩
    | resync reads mTcp mState received =>
      obtain ⟨hend, -⟩ := ih hsettles.available (.inl mState) hl
      exact ⟨hend, fun hs hne => (loop_stream hl).trans_lt (hlt hs hne)⟩
    | frame reads mTcp mState mBuffer received length =>
      rename_i u v data
      have hprompt : u.Prompt := by
        refine .inr ⟨mState, ?_⟩
        rw [mPtr, mBuffer]
        exact Nat.zero_lt_succ 17
      obtain ⟨hend, -⟩ := ih hsettles.available hprompt hl
      exact ⟨hend, fun hs hne => (loop_stream hl).trans_lt (hlt hs hne)⟩

/-- Ticks that find everything there use up the stream. -/
theorem ticks_consume {size : Nat} {s t : O3DSServer} {ticks : List (List (Option Nat))}
    (hs : s.mTcp.stream = [] ∨ s.mState = .SYNC) (hsize : s.mTcp.stream.length ≤ size)
    (hticks : ∀ recvs ∈ ticks, Plenty size recvs) (hlen : s.mTcp.stream.length ≤ ticks.length)
    (h : ticks.foldlM tick s = some t) : t.mTcp.stream = [] := by
  induction ticks generalizing s with
  | nil =>
    cases h
    exact List.eq_nil_of_length_eq_zero (Nat.le_zero.mp hlen)
  | cons recvs ticks ih =>
    obtain ⟨u, hu, h⟩ := foldlM_cons_eq_some_iff.mp h
    have hle := loop_stream hu
    dsimp only at hle
    have hplenty := (hticks recvs List.mem_cons_self).mono hsize
    have hnext : (u.mTcp.stream = [] ∨ u.mState = .SYNC) ∧ u.mTcp.stream.length ≤ ticks.length := by
      rw [List.length_cons] at hlen
      by_cases hnil : s.mTcp.stream = []
      · rw [hnil, List.length_nil] at hle
        have hnil' := List.eq_nil_of_length_eq_zero (Nat.le_zero.mp hle)
        exact ⟨.inl hnil', hnil' ▸ Nat.zero_le _⟩
      · have hsync := hs.resolve_left hnil
        obtain ⟨hend, hlt⟩ := loop_settles (s := { s with mTcp := ⟨s.mTcp.stream, recvs⟩ })
          hplenty (.inl hsync) hu
        have := hlt hsync hnil
        dsimp only at this
        exact ⟨hend, by omega⟩
    exact ih hnext.1 (hle.trans hsize) (fun r hr => hticks r (List.mem_cons_of_mem _ hr)) hnext.2 h

/-! ### What the scan of `SYNC` leaves -/

/-- The loop goes through what a scan drops, and goes on from there. -/
theorem loop_scans {w rest : List UInt8} (hw : Dropped magic w) {n : Nat} {s t : O3DSServer}
    (h : s.Available) (hs : s.mState = .SYNC) (hstream : s.mTcp.stream = w ++ rest)
    (hl : loop n s = some t) :
    (t.mState = .SYNC ∧ t.received = s.received ∧
        ∃ w', Dropped magic w' ∧ t.mTcp.stream = w' ++ rest) ∨
      ∃ m u, u.Available ∧ u.mState = .SYNC ∧ u.mTcp.stream = rest ∧ u.received = s.received ∧
        loop m u = some t := by
  induction hw generalizing n s with
  | nil => exact .inr ⟨n, s, h, hs, hstream, rfl, hl⟩
  | @mismatch k c w hk hc hw ih =>
    rw [List.append_assoc, List.cons_append] at hstream
    obtain ⟨flow, u, hturn, hflow, hresumes⟩ := turn_mismatch h hs hk hstream hc.symm
    cases n with
    | zero => cases hl
    | succ n =>
      rw [loop, hturn] at hl
      cases flow with
      | next => exact absurd rfl hflow
      | leave =>
        cases hl
        exact .inl ⟨hresumes.mState, hresumes.received, w, hw, hresumes.stream⟩
      | again =>
        rw [← hresumes.received]
        exact ih hresumes.available hresumes.mState hresumes.stream hl

/-- The rule for what comes after bytes that a scan drops: `R` holds once the loop has been
at what follows, and later ticks keep it. -/
theorem ticks_scan {size : Nat} {rest : List UInt8} {R : O3DSServer → Prop} {s : O3DSServer}
    (hrest : ∀ n u v, u.Available → u.mState = .SYNC → u.mTcp.stream = rest →
      u.received = s.received → loop n u = some v → R v)
    (hR : ∀ u v recvs, R u → u.tick recvs = some v → R v) {w : List UInt8} (hw : Dropped magic w)
    (hs : s.mState = .SYNC) (hstream : s.mTcp.stream = w ++ rest)
    (hsize : s.mTcp.stream.length ≤ size) {ticks : List (List (Option Nat))}
    (hticks : ∀ recvs ∈ ticks, Plenty size recvs) {t : O3DSServer}
    (h : ticks.foldlM tick s = some t) :
    (t.received = s.received ∧ ∃ w', Dropped magic w' ∧ t.mTcp.stream = w' ++ rest) ∨ R t := by
  induction ticks generalizing s w with
  | nil =>
    cases h
    exact .inl ⟨rfl, w, hw, hstream⟩
  | cons recvs ticks ih =>
    obtain ⟨u, hu, h⟩ := foldlM_cons_eq_some_iff.mp h
    have hplenty := (hticks recvs List.mem_cons_self).mono hsize
    obtain ⟨hstate, hreceived, w', hw', hstream'⟩ | ⟨m, v, havailable, hstate, hleft, hreceived, hl⟩ :=
      loop_scans (s := { s with mTcp := ⟨s.mTcp.stream, recvs⟩ }) hw hplenty hs hstream hu
    · have hreceived' : u.received = s.received := hreceived
      rw [← hreceived']
      refine ih (by rwa [hreceived']) hw' hstate hstream' ?_
        (fun r hr => hticks r (List.mem_cons_of_mem _ hr)) h
      exact (loop_stream hu).trans hsize
    · exact .inr (foldlM_keeps hR (hrest m v u havailable hstate hleft hreceived hl) h)

/-! ### Frames after other bytes -/

/-- Some payloads arrived in order, and the receiver is in step with the others. -/
def InStep (received payloads : List (List UInt8)) (t : O3DSServer) : Prop :=
  ∃ qs rs, payloads = qs ++ rs ∧ Framed t rs ∧ t.received = received ++ qs

/-- What is left cannot hold all of the payloads. -/
def Behind (received payloads : List (List UInt8)) (t : O3DSServer) : Prop :=
  ∃ qs, t.received = received ++ qs ∧
    t.mTcp.stream.length + t.held + (frames qs).length < (frames payloads).length

theorem InStep.tick {received payloads : List (List UInt8)}
    (hpayloads : ∀ p ∈ payloads, p.length ≤ 51200) {u v : O3DSServer} {recvs : List (Option Nat)}
    (h : InStep received payloads u) (hv : u.tick recvs = some v) :
    InStep received payloads v := by
  obtain ⟨qs, rs, rfl, hframed, hreceived⟩ := h
  obtain ⟨qs', rs', rfl, hframed', hreceived'⟩ :=
    tick_framed (fun p hp => hpayloads p (List.mem_append_right _ hp)) hframed hv
  refine ⟨qs ++ qs', rs', (List.append_assoc _ _ _).symm, hframed', ?_⟩
  rw [hreceived', ← List.append_assoc, ← hreceived]

theorem Behind.tick {received payloads : List (List UInt8)} {u v : O3DSServer}
    {recvs : List (Option Nat)} (h : Behind received payloads u) (hv : u.tick recvs = some v) :
    Behind received payloads v := by
  obtain ⟨qs, hreceived, hlt⟩ := h
  obtain ⟨qs', hreceived', hle⟩ := tick_spends hv
  refine ⟨qs ++ qs', ?_, ?_⟩
  · rw [hreceived', hreceived, List.append_assoc]
  · rw [frames_append, List.length_append]
    omega

theorem loop_congr {s t : O3DSServer} (h : s.turn = t.turn) (n : Nat) : loop n s = loop n t := by
  cases n with
  | zero => rfl
  | succ n => rw [loop, loop, h]

/-- At the first frame the receiver gets in step. -/
theorem inStep_of_frames {received payloads : List (List UInt8)} (hne : payloads ≠ [])
    (hpayloads : ∀ p ∈ payloads, p.length ≤ 51200) {n : Nat} {u v : O3DSServer} (h : u.Available)
    (hs : u.mState = .SYNC) (hstream : u.mTcp.stream = frames payloads)
    (hreceived : u.received = received) (hl : loop n u = some v) :
    InStep received payloads v := by
  obtain ⟨data, rest, rfl⟩ := List.exists_cons_of_ne_nil hne
  have hmagic : u.mTcp.stream =
      magic ++ (putUInt32 (.ofNat data.length) ++ (data ++ frames rest)) := by
    rw [hstream, frames_cons, preamble, List.append_assoc]
  obtain ⟨recvs, hturn, -⟩ := turn_magic h hs hmagic
  rw [loop_congr hturn] at hl
  have hbytes : magic ++ (putUInt32 (.ofNat data.length) ++ (data ++ frames rest)) =
      frames (data :: rest) := hmagic.symm.trans hstream
  have hframed₀ : Framed ⟨⟨_, recvs⟩, magic, .HEADER, u.notices⟩ (data :: rest) :=
    ⟨hbytes, .inl ⟨rfl, (by decide : 14 < 18)⟩⟩
  obtain ⟨qs, rs, hps, hframed, hreceived'⟩ := loop_framed hpayloads hframed₀ hl
  refine ⟨qs, rs, hps, hframed, hreceived'.trans ?_⟩
  rw [← hreceived]
  rfl

theorem magic_ne_zero {k : Nat} (hpos : 0 < k) (hk : k < magic.length) :
    some 0x00 ≠ magic[k]? := by
  have hall : ∀ k < magic.length, 0 < k → some 0x00 ≠ magic[k]? := by decide
  exact hall k hk hpos

/-- Within the magic the first byte of the first frame is lost. -/
theorem behind_of_pending {received payloads : List (List UInt8)} (hne : payloads ≠ []) {k : Nat}
    (hpos : 0 < k) (hk : k < magic.length) {n : Nat} {u v : O3DSServer} (h : u.Available)
    (hs : u.mState = .SYNC) (hstream : u.mTcp.stream = magic.take k ++ frames payloads)
    (hreceived : u.received = received) (hl : loop n u = some v) :
    Behind received payloads v := by
  obtain ⟨data, rest, rfl⟩ := List.exists_cons_of_ne_nil hne
  have hhead : (frames (data :: rest)).head? = some 0x00 := by
    rw [frames_cons]
    rfl
  have hlen : (frames (data :: rest)).length ≠ 0 := by
    rw [length_frames_cons]
    omega
  obtain ⟨flow, t, hturn, hflow, hresumes⟩ :=
    turn_mismatch h hs hk hstream (hhead ▸ magic_ne_zero hpos hk)
  have hlost : t.mTcp.stream.length + t.held < (frames (data :: rest)).length := by
    rw [hresumes.stream, held_of_SYNC hresumes.mState, List.length_tail]
    omega
  cases n with
  | zero => cases hl
  | succ n =>
    rw [loop, hturn] at hl
    cases flow with
    | next => exact absurd rfl hflow
    | leave =>
      cases hl
      refine ⟨[], ?_, hlost⟩
      rw [hresumes.received, hreceived, List.append_nil]
    | again =>
      obtain ⟨qs, hqs, hle⟩ := loop_spends hl
      refine ⟨qs, ?_, hle.trans_lt hlost⟩
      rw [hqs, hresumes.received, hreceived]

theorem short_of_frame {ps : List (List UInt8)} (h : (frames ps).length < 18) : ps = [] := by
  cases ps with
  | nil => rfl
  | cons data ps =>
    rw [length_frames_cons] at h
    omega

/-- Too little is left for a frame. -/
def Dry (received : List (List UInt8)) (t : O3DSServer) : Prop :=
  t.received = received ∧ t.mTcp.stream.length + t.held < 18

theorem Dry.of_spends {received : List (List UInt8)} {u v : O3DSServer} (h : Dry received u)
    (hv : ∃ ps, v.received = u.received ++ ps ∧
      v.mTcp.stream.length + v.held + (frames ps).length ≤ u.mTcp.stream.length + u.held) :
    Dry received v := by
  obtain ⟨hreceived, hlt⟩ := h
  obtain ⟨ps, hps, hle⟩ := hv
  have hnil : ps = [] := short_of_frame (by omega)
  subst hnil
  refine ⟨?_, by omega⟩
  rw [hps, hreceived, List.append_nil]

section resync

variable {size : Nat} {s t : O3DSServer} {w : List UInt8} {payloads : List (List UInt8)}
  {ticks : List (List (Option Nat))}

/-- Without a frame nothing is passed on. -/
theorem nothing_received {k : Nat} (hk : k < magic.length) (hw : Dropped magic w)
    (hs : s.mState = .SYNC) (hstream : s.mTcp.stream = w ++ magic.take k)
    (hsize : s.mTcp.stream.length ≤ size) (hticks : ∀ recvs ∈ ticks, Plenty size recvs)
    (h : ticks.foldlM tick s = some t) : t.received = s.received := by
  have hrest (n : Nat) (u v : O3DSServer) (_ : u.Available) (hu : u.mState = .SYNC)
      (hleft : u.mTcp.stream = magic.take k) (hreceived : u.received = s.received)
      (hl : loop n u = some v) : Dry s.received v := by
    have hlen : magic.length = 14 := rfl
    refine .of_spends ⟨hreceived, ?_⟩ (loop_spends hl)
    rw [hleft, held_of_SYNC hu, List.length_take]
    omega
  have hkeep (u v : O3DSServer) (recvs : List (Option Nat)) (hu : Dry s.received u)
      (hv : u.tick recvs = some v) : Dry s.received v := hu.of_spends (tick_spends hv)
  exact (ticks_scan hrest hkeep hw hs hstream hsize hticks h).elim And.left And.left

theorem resynced (hne : payloads ≠ []) (hpayloads : ∀ p ∈ payloads, p.length ≤ 51200)
    (hw : Dropped magic w) (hs : s.mState = .SYNC) (hstream : s.mTcp.stream = w ++ frames payloads)
    (hsize : s.mTcp.stream.length ≤ size) (hticks : ∀ recvs ∈ ticks, Plenty size recvs)
    (h : ticks.foldlM tick s = some t) (hdone : t.mTcp.stream = []) :
    t.received = s.received ++ payloads := by
  obtain ⟨-, w', -, hleft⟩ | ⟨qs, rs, rfl, hframed, hreceived⟩ :=
    ticks_scan (R := InStep s.received payloads)
      (fun n u v => inStep_of_frames hne hpayloads) (fun u v recvs hu => hu.tick hpayloads)
      hw hs hstream hsize hticks h
  · rw [hdone] at hleft
    have hnil := (List.append_eq_nil_iff.mp hleft.symm).2
    exact absurd ((frames_eq_nil_iff payloads).mp (by rw [hnil]; rfl)) hne
  · rw [hreceived, hframed.nil hdone, List.append_nil]

theorem not_resynced (hne : payloads ≠ []) {k : Nat} (hpos : 0 < k) (hk : k < magic.length)
    (hw : Dropped magic w) (hs : s.mState = .SYNC)
    (hstream : s.mTcp.stream = w ++ (magic.take k ++ frames payloads))
    (hsize : s.mTcp.stream.length ≤ size) (hticks : ∀ recvs ∈ ticks, Plenty size recvs)
    (h : ticks.foldlM tick s = some t) (hdone : t.mTcp.stream = []) :
    t.received ≠ s.received ++ payloads := by
  obtain ⟨-, w', -, hleft⟩ | ⟨qs, hreceived, hlt⟩ :=
    ticks_scan (R := Behind s.received payloads)
      (fun n u v => behind_of_pending hne hpos hk) (fun u v recvs hu => hu.tick)
      hw hs hstream hsize hticks h
  · rw [hdone] at hleft
    have hnil := (List.append_eq_nil_iff.mp (List.append_eq_nil_iff.mp hleft.symm).2).2
    exact absurd ((frames_eq_nil_iff payloads).mp (by rw [hnil]; rfl)) hne
  · intro hall
    rw [List.append_cancel_left (hreceived.symm.trans hall)] at hlt
    omega

/-- A receiver in `SYNC` that finds all bytes there uses them up, and passes on all of the
frames that follow bytes without the magic exactly when its scan drops these bytes to the
last one, and is not comparing a part of the magic where they end. -/
theorem payloads_resynced_iff (hs : s.mState = .SYNC) {g : List UInt8}
    (hg : ∀ u v, g ++ magic = u ++ (magic ++ v) → v = [])
    (hpayloads : ∀ p ∈ payloads, p.length ≤ 51200) (hstream : s.mTcp.stream = g ++ frames payloads)
    (hticks : ∀ recvs ∈ ticks, Plenty s.mTcp.stream.length recvs) :
    ∃ t, ticks.foldlM tick s = some t ∧
      (s.mTcp.stream.length ≤ ticks.length → t.mTcp.stream = []) ∧
      (t.mTcp.stream = [] →
        (t.received = s.received ++ payloads ↔ payloads = [] ∨ Dropped magic g)) := by
  obtain ⟨t, ht⟩ := s.ticks_return ticks
  refine ⟨t, ht, fun hlen => ticks_consume (.inr hs) le_rfl hticks hlen ht, fun hdone => ?_⟩
  obtain ⟨w, k, hk, hw, rfl⟩ : ∃ w k, k < magic.length ∧ Dropped magic w ∧
      g = w ++ magic.take k := by
    apply dropped_pending
    rintro u v rfl
    have hnil := hg u (v ++ magic) (by simp only [List.append_assoc])
    exact absurd (List.append_eq_nil_iff.mp hnil).2 (by decide)
  by_cases hne : payloads = []
  · subst hne
    have hstream' : s.mTcp.stream = w ++ magic.take k := hstream.trans (List.append_nil _)
    have hnone := nothing_received hk hw hs hstream' le_rfl hticks ht
    exact iff_of_true (hnone.trans (List.append_nil _).symm) (.inl rfl)
  · rw [or_iff_right hne]
    have hgood := fun h => resynced hne hpayloads h hs hstream le_rfl hticks ht hdone
    refine ⟨?_, hgood⟩
    intro hall
    obtain rfl | hpos := Nat.eq_zero_or_pos k
    · rwa [List.take_zero, List.append_nil]
    · rw [List.append_assoc] at hstream
      exact absurd hall (not_resynced hne hpos hk hw hs hstream le_rfl hticks ht hdone)

end resync

/-- What has the magic nowhere before its end. -/
theorem magic_last {g : List UInt8}
    (h : ∀ i < g.length, ((g ++ magic).drop i).take magic.length ≠ magic) (u v : List UInt8)
    (huv : g ++ magic = u ++ (magic ++ v)) : v = [] := by
  by_contra hv
  have hlen := congrArg List.length huv
  have hpos := List.length_pos_iff.mpr hv
  simp only [List.length_append] at hlen
  refine h u.length (by omega) ?_
  rw [huv, List.drop_left, List.take_left]

/-- A receiver before bytes that end with two zeros. -/
def noisy (g : List UInt8) (payloads : List (List UInt8)) : O3DSServer :=
  ⟨⟨g ++ frames payloads, []⟩, [], .SYNC, []⟩

theorem payloads_resynced_iff_zeros : ∃ t,
    (List.replicate 41 (List.replicate 41 (some 41))).foldlM tick (noisy [5, 0, 0] [[7, 8], []]) =
      some t ∧
    (41 ≤ (List.replicate 41 (List.replicate 41 (some 41))).length → t.mTcp.stream = []) ∧
    (t.mTcp.stream = [] → (t.received = [] ++ [[7, 8], []] ↔
      [[7, 8], []] = ([] : List (List UInt8)) ∨ Dropped magic [5, 0, 0])) := by
  refine payloads_resynced_iff (s := noisy [5, 0, 0] [[7, 8], []]) rfl (magic_last (by decide))
    (by decide) rfl ?_
  intro recvs hrecvs
  rw [List.eq_of_mem_replicate hrecvs]
  exact ⟨by decide, by decide⟩

/-- After a single zero the frame is not seen. -/
theorem zero_before_magic_lost : (∃ t,
    (List.replicate 20 (List.replicate 20 (some 20))).foldlM tick (noisy [0] [[7]]) = some t ∧
      t.mTcp.stream = [] ∧ t.received = []) ∧
    ∀ u v, [0] ++ magic = u ++ (magic ++ v) → v = [] := by
  refine ⟨⟨_, rfl, by decide +kernel, by decide +kernel⟩, magic_last (by decide)⟩

end O3DSServer

end Open3DStream
