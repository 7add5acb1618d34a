import Open3DStream.Lossy
import Open3DStream.Nng.Contract
import Open3DStream.Nng.Leaks

/-! The repeater: what it pulls it publishes, and what becomes of a stream on its way through. -/

namespace Open3DStream

open Lib

/-- A read that fails returns zero. -/
def ReadResult.size : ReadResult → Nat
  | .reads n => n
  | .fails => 0

/-- The loop between its two connectors. -/
structure Repeater where
  listener : Reader
  broadcast : AsyncHandles

/-- What a turn of the loop meets: a message, a request for memory, and the calls of a write. -/
structure Turn where
  recv : Recvmsg
  how : Allocation
  o : Nng.WriteReturns
deriving DecidableEq

namespace Repeater

/-- What there is when the loop begins, or what the program returns. `listens` is whether the listener
starts. It is not checked whether there is memory for the buffer. -/
def main (argv : List String) (listens : Bool) (o : Nng.Returns) (how : Allocation) :
    Except Nat Repeater :=
  match argv with
  | _ :: _ :: url :: _ =>
    if !listens then .error 2
    else
      let (ok, broadcast) := AsyncPublisher.start {} url o
      if !ok then .error 3
      else
        let bufsz := 81920
        let (data, heap) := Heap.malloc ⟨[]⟩ bufsz how
        .ok { listener := { heap := heap, data := data, len := bufsz }, broadcast := broadcast }
  | _ => .error 1

/-- A turn, with the bytes that are written. -/
def turn (r : Repeater) (t : Turn) : Option (Option (List UInt8) × Repeater) := do
  let (answer, listener) ← BlockingNngConnector.readGrowing r.listener true t.recv t.how
  let sz := answer.result.size
  if 0 < sz then do
    let data ← listener.heap.block listener.data
    if sz ≤ data.length then
      let data := data.take sz
      some (some data, ⟨listener, (r.broadcast.write data t.o).2⟩)
    else none
  else some (none, { r with listener := listener })

end Repeater

/-- The bytes of the message, if there are any. -/
def Turn.body (t : Turn) : Option (List UInt8) :=
  if t.recv.ret = 0 then (t.recv.msg.map NngMsg.body).filter (· ≠ []) else none

/-! ### The buffer -/

namespace Reader

/-- There is no buffer yet, or it can be read into. -/
def Ready (r : Reader) : Prop := r.data = none ∨ r.Valid

end Reader

open Reader

namespace BlockingNngConnector

variable {r : Reader}

/-- Only a request that fails leaves no room for a message. -/
theorem ensure_ready (h : r.Ready) (n : Nat) (how : Allocation) :
    (how = .fails ∧ ensure r n how = some (none, r.heap)) ∨
    ∃ buf heap b, ensure r n how = some (buf, heap) ∧ buf ≠ none ∧ heap.block buf = some b ∧
      n ≤ b.length := by
  by_cases hhow : how = .fails
  · obtain hnone | hv := h
    · refine .inl ⟨hhow, ?_⟩
      rw [ensure, hnone, hhow]
      rfl
    · obtain he | he := ensure_cases hv n how
      · exact .inl ⟨hhow, he⟩
      · exact .inr he
  · refine .inr ?_
    obtain hnone | ⟨b, hb, hlen⟩ := h
    · have hmalloc : r.heap.malloc n how = r.heap.alloc (resize [] n) := by
        cases how with
        | fails => exact absurd rfl hhow
        | inPlace => rfl
        | moves => rfl
      refine ⟨_, _, resize [] n, ?_, Option.some_ne_none _, Heap.block_alloc_fst r.heap _,
        (length_resize ([] : List UInt8) n).ge⟩
      rw [ensure, hnone]
      exact congrArg some hmalloc
    · cases hdata : r.data with
      | none =>
        rw [hdata] at hb
        cases hb
      | some i =>
        rw [ensure, hdata]
        dsimp only
        split
        · obtain ⟨buf, heap, hrealloc, hne, hblock, -⟩ := Heap.realloc_live (hdata ▸ hb) n hhow
          exact ⟨buf, heap, _, hrealloc, hne, hblock, (length_resize b n).ge⟩
        · rename_i hle
          exact ⟨_, _, b, rfl, Option.some_ne_none i, hdata ▸ hb, (Nat.le_of_not_lt hle).trans hlen⟩

/-- A read of the growing overload goes through. It gives nothing back if nothing is received or
there is no memory, and otherwise the message, which is in the buffer. -/
theorem readGrowing_ready (h : r.Ready) (recv : Recvmsg) (how : Allocation) :
    ∃ answer t, readGrowing r true recv how = some (answer, t) ∧ t.Ready ∧
      (answer.result.size = 0 ∨ ∃ b msg, recv.msg = some msg ∧ t.heap.block t.data = some b ∧
        answer.result.size = msg.body.length ∧ msg.body <+: b) ∧
      (recv.ret ≠ 0 → answer.result.size = 0) ∧
      (recv.ret = 0 → how ≠ .fails → ∀ msg ∈ recv.msg, answer.result.size = msg.body.length) := by
  rw [readGrowing, if_neg (by decide)]
  split
  · rename_i hret
    exact ⟨_, _, rfl, h, .inl rfl, fun _ => rfl, fun h => absurd h hret⟩
  · rename_i hret
    obtain ⟨msg, hmsg⟩ := recv.exists_msg (not_not.mp hret)
    have hsame : ∀ msg' ∈ recv.msg, msg' = msg := fun msg' h => Option.some.inj (h.symm.trans hmsg)
    rw [hmsg, Option.bind_eq_bind, Option.bind_some]
    obtain ⟨hhow, he⟩ | ⟨buf, heap, b, he, hne, hb, hle⟩ := ensure_ready h msg.body.length how
    · rw [he]
      exact ⟨_, _, rfl, h, .inl rfl, fun h => absurd h hret, fun _ h => absurd hhow h⟩
    · rw [he, Option.bind_eq_bind, Option.bind_some]
      dsimp only
      rw [if_neg hne]
      split
      · rename_i hbody
        have hnil : msg.body = [] := by
          by_contra hnonempty
          rw [msg.hasBody_of_ne hnonempty] at hbody
          cases hbody
        refine ⟨_, _, rfl, .inr ⟨b, hb, hle⟩, .inl rfl, fun h => absurd h hret, ?_⟩
        intro _ _ msg' hmsg'
        rw [hsame msg' (hmsg ▸ hmsg'), hnil]
        rfl
      · let t : Reader := { r with heap := heap, data := buf, len := msg.body.length }
        obtain ⟨heap', -, hblock, hcopy⟩ := copy_of_block (r := t) hb hle
        refine ⟨_, _, hcopy, .inr ⟨_, hblock, length_append_drop msg.body hle hle⟩,
          .inr ⟨_, msg, rfl, hblock, rfl, List.prefix_append ..⟩, fun h => absurd h hret, ?_⟩
        intro _ _ msg' hmsg'
        rw [hsame msg' (hmsg ▸ hmsg')]
        rfl

end BlockingNngConnector

/-! ### The loop -/

namespace Repeater

variable {r : Repeater}

/-- What is written in a turn is the message of the turn, if there was memory for it. -/
def Forwards (t : Turn) (data : Option (List UInt8)) : Prop :=
  data = t.body ∨ data = none ∧ t.how = .fails

theorem turn_eq (h : r.listener.Ready) (t : Turn) :
    ∃ data r', r.turn t = some (data, r') ∧ r'.listener.Ready ∧ Forwards t data ∧
      r'.broadcast = data.elim r.broadcast fun data => (r.broadcast.write data t.o).2 := by
  obtain ⟨answer, listener, hread, hready, hanswer, hret, hsize⟩ :=
    BlockingNngConnector.readGrowing_ready h t.recv t.how
  rw [turn, hread, Option.bind_eq_bind, Option.bind_some]
  dsimp only
  by_cases hpos : 0 < answer.result.size
  · obtain hzero | ⟨b, msg, hmsg, hb, hlength, rest, rfl⟩ := hanswer
    · omega
    · have hzero : t.recv.ret = 0 := by
        by_contra hne
        exact hpos.ne' (hret hne)
      have hbody : t.body = some msg.body := by
        rw [Turn.body, if_pos hzero, hmsg, Option.map_some, Option.filter_some, if_pos]
        rw [hlength] at hpos
        simpa using List.ne_nil_of_length_pos hpos
      rw [if_pos hpos, hb, Option.bind_eq_bind, Option.bind_some, hlength,
        if_pos (by rw [List.length_append]; omega), List.take_left]
      exact ⟨_, _, rfl, hready, .inl hbody.symm, rfl⟩
  · rw [if_neg hpos]
    refine ⟨_, _, rfl, hready, ?_, rfl⟩
    by_cases hhow : t.how = .fails
    · exact .inr ⟨rfl, hhow⟩
    · refine .inl ?_
      rw [Turn.body]
      split
      · rename_i hzero
        obtain ⟨msg, hmsg⟩ := t.recv.exists_msg hzero
        have hnil : msg.body = [] := by
          rw [← List.length_eq_zero_iff, ← hsize hzero hhow msg hmsg]
          omega
        rw [hmsg, Option.map_some, Option.filter_some, hnil, if_neg (by simp)]
      · rfl

/-- The buffer is as it was asked for, and the publisher has what its start has left. -/
theorem main_ok {argv : List String} {listens : Bool} {o : Nng.Returns} {how : Allocation}
    (h : main argv listens o how = .ok r) :
    r.listener.Ready ∧ ∃ hs, AsyncHandles.Account r.broadcast.dealings r.broadcast.mSocket
      r.broadcast.mDialer r.broadcast.aio hs := by
  unfold main at h
  split at h
  · rename_i url _
    split at h
    · cases h
    · obtain ⟨⟨hs, haccount, -⟩, -⟩ :=
        AsyncHandles.started_AsyncPublisher AsyncHandles.owes_empty (fun _ => rfl) url o
      dsimp only at h
      split at h
      · cases h
      · cases h
        refine ⟨?_, hs, haccount⟩
        cases how with
        | fails => exact .inl rfl
        | inPlace | moves =>
          exact .inr ⟨_, Heap.block_alloc_fst ⟨[]⟩ (resize [] 81920), (length_resize _ _).ge⟩
  · cases h

/-- What is read can be written, and is not lost. -/
theorem account_elim {s : AsyncHandles} {hs : List (Nat × Nng.Resource)}
    (h : AsyncHandles.Account s.dealings s.mSocket s.mDialer s.aio hs) (o : Nng.WriteReturns)
    (data : Option (List UInt8)) {t : AsyncHandles}
    (ht : t = data.elim s fun data => (s.write data o).2) :
    AsyncHandles.Account t.dealings t.mSocket t.mDialer t.aio hs := by
  cases data with
  | none => exact ht ▸ h
  | some data =>
    obtain ⟨hwrite, hsocket, hdialer, haio⟩ := h.write data o
    rw [ht, Option.elim_some, hsocket, hdialer, haio]
    exact hwrite

theorem run_forwards (h : r.listener.Ready) {hs : List (Nat × Nng.Resource)}
    (hb : AsyncHandles.Account r.broadcast.dealings r.broadcast.mSocket r.broadcast.mDialer
      r.broadcast.aio hs) (turns : List Turn) :
    ∃ datas r', run turn r turns = some (datas, r') ∧ List.Forall₂ Forwards turns datas ∧
      Balanced r'.broadcast.dealings hs := by
  induction turns generalizing r with
  | nil => exact ⟨[], r, rfl, .nil, hb.balanced⟩
  | cons t turns ih =>
    obtain ⟨data, r₁, hr₁, hready, hdata, hbroadcast⟩ := turn_eq h t
    obtain ⟨datas, r₂, hr₂, hdatas, hbalanced⟩ := ih hready (account_elim hb t.o data hbroadcast)
    exact ⟨_, r₂, run_cons_eq_some_iff.mpr ⟨data, r₁, datas, hr₁, hr₂, rfl⟩, .cons hdata hdatas,
      hbalanced⟩

/-- Whatever is received, and whatever becomes of memory and of the writes: the loop goes on, and
every message that is not empty is written once, as it is and in its turn, unless there was no
memory for it; the publisher uses no handle that it does not have, and has what it had. -/
theorem forwards {argv : List String} {listens : Bool} {o : Nng.Returns} {how : Allocation}
    (h : main argv listens o how = .ok r) (turns : List Turn) :
    ∃ datas r', run turn r turns = some (datas, r') ∧ List.Forall₂ Forwards turns datas ∧
      Proper r'.broadcast.dealings ∧
      holdings r'.broadcast.dealings = holdings r.broadcast.dealings := by
  obtain ⟨hready, hs, hb⟩ := main_ok h
  obtain ⟨datas, r', hrun, hdatas, hbalanced⟩ := run_forwards hready hb turns
  refine ⟨datas, r', hrun, hdatas, hbalanced.proper, ?_⟩
  rw [hbalanced.holdings, hb.balanced.holdings]

end Repeater

end Open3DStream
