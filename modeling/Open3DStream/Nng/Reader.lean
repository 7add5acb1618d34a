import Open3DStream.Async
import Open3DStream.Lib.Heap
import Open3DStream.Lib.Machine

/-! Connectors of nng that are read from, into a buffer of the caller's. -/

namespace Open3DStream

open Lib

/-- A message: its body, and what can be read behind it. The pointer to an empty body may be
null. -/
structure NngMsg where
  body : List UInt8
  behind : List UInt8
  hasBody : Bool
  hasBody_of_ne : body ≠ [] → hasBody = true
deriving DecidableEq

/-- As `nng.h` has it. -/
def NNG_EAGAIN : Int := 8

/-- What a call of `nng_recvmsg` gives. -/
structure Recvmsg where
  ret : Int
  msg : Option NngMsg
  isSome_of_ret : ret = 0 → msg.isSome = true
deriving DecidableEq

/-- A connector, and the memory of its caller, who passes `data` and `len` to all of the reads. -/
structure Reader where
  heap : Heap UInt8
  data : Option Nat
  len : Nat
  mState : Connector.EState := .STARTED
  mError : Option (String × Option Int) := none
deriving DecidableEq

/-- What a read returns; one that fails returns zero. -/
inductive ReadResult where
  | reads (n : Nat)
  | fails
deriving DecidableEq

/-- The result, and how many bytes were copied out of the message. -/
structure ReadAnswer where
  result : ReadResult
  copied : Nat
deriving DecidableEq

namespace Reader

def setError (r : Reader) (msg : String) (ret : Option Int) : Reader :=
  { r with mError := some (msg, ret), mState := .STATE_ERROR }

def failed (r : Reader) : ReadAnswer × Reader := (⟨.fails, 0⟩, r)

/-- `memcpy(data, msgBody, n)`, and then the read returns `msglen`. -/
def copy (r : Reader) (msg : NngMsg) (n : Nat) : Option (ReadAnswer × Reader) :=
  let memory := msg.body ++ msg.behind
  if n ≤ memory.length then do
    let heap ← r.heap.store r.data (memory.take n)
    some (⟨.reads msg.body.length, n⟩, { r with heap := heap })
  else none

end Reader

open Reader

namespace BlockingNngConnector

def read (r : Reader) (recv : Recvmsg) : Option (ReadAnswer × Reader) :=
  if recv.ret ≠ 0 then some (r.setError "Receiving message" recv.ret).failed
  else do
    let msg ← recv.msg
    if r.len < msg.body.length then some (r.setError "Message too large" none).failed
    else if !msg.hasBody then some (r.setError "Invalid Message" none).failed
    else r.copy msg msg.body.length

/-- The buffer for a message, if there is memory for it. -/
def ensure (r : Reader) (msglen : Nat) (how : Allocation) : Option (Option Nat × Heap UInt8) :=
  match r.data with
  | none => some (r.heap.malloc msglen how)
  | some _ =>
    if r.len < msglen then r.heap.realloc r.data msglen how else some (r.data, r.heap)

/-- The overload that grows the buffer. `passed` says that neither parameter is null. -/
def readGrowing (r : Reader) (passed : Bool) (recv : Recvmsg) (how : Allocation) :
    Option (ReadAnswer × Reader) :=
  if !passed then some (r.setError "Invalid parameter" none).failed
  else if recv.ret ≠ 0 then some (r.setError "Receiving message" recv.ret).failed
  else do
    let msg ← recv.msg
    let (buf, heap) ← ensure r msg.body.length how
    if buf = none then some r.failed
    else
      let r := { r with heap := heap, data := buf, len := msg.body.length }
      if !msg.hasBody then some (r.setError "Invalid Message" none).failed
      else r.copy msg msg.body.length

end BlockingNngConnector

namespace AsyncNngConnector

def read (r : Reader) (recv : Recvmsg) : Option (ReadAnswer × Reader) :=
  if recv.ret = NNG_EAGAIN then some r.failed
  else if recv.ret ≠ 0 then some (r.setError "Receiving message" recv.ret).failed
  else
    match recv.msg with
    | none => some r.failed
    | some msg =>
      if r.len < msg.body.length then some (r.setError "Message too large" none).failed
      else if !msg.hasBody then some (r.setError "Invalid Message" none).failed
      else do
        -- as many bytes as the buffer has room for
        let (answer, r) ← r.copy msg r.len
        some (answer, { r with mState := .READING })

/-- `data` is left as it is, also when the buffer has moved. -/
def ensure (r : Reader) (msglen : Nat) (how : Allocation) : Option (Option Reader) :=
  if r.len < msglen then do
    let (buf, heap) ← r.heap.realloc r.data msglen how
    if buf = none then some none else some (some { r with heap := heap, len := msglen })
  else some (some r)

def readGrowing (r : Reader) (passed : Bool) (recv : Recvmsg) (how : Allocation) :
    Option (ReadAnswer × Reader) :=
  if !passed then some (r.setError "Invalid parameter" none).failed
  else if recv.ret = NNG_EAGAIN then some r.failed
  else if recv.ret ≠ 0 then some (r.setError "Receiving message" recv.ret).failed
  else
    match recv.msg with
    | none => some r.failed
    | some msg => do
      match ← ensure r msg.body.length how with
      | none => some r.failed
      | some r =>
        if !msg.hasBody then some (r.setError "Invalid Message" none).failed
        else r.copy msg msg.body.length

end AsyncNngConnector

/-- The classes that are read from. -/
inductive NngConnector where
  | blocking | async
deriving DecidableEq

/-- A call of one of the overloads, with what it receives and what becomes of a request for
memory. -/
inductive ReadCall where
  | fixed (recv : Recvmsg)
  | growing (passed : Bool) (recv : Recvmsg) (how : Allocation)
deriving DecidableEq

namespace Reader

def step : NngConnector → Reader → ReadCall → Option (ReadAnswer × Reader)
  | .blocking, r, .fixed recv => BlockingNngConnector.read r recv
  | .blocking, r, .growing passed recv how => BlockingNngConnector.readGrowing r passed recv how
  | .async, r, .fixed recv => AsyncNngConnector.read r recv
  | .async, r, .growing passed recv how => AsyncNngConnector.readGrowing r passed recv how

/-- `data` designates a live block of `len` bytes or more. -/
def Valid (r : Reader) : Prop := ∃ b, r.heap.block r.data = some b ∧ r.len ≤ b.length

/-- ... which begins with `bytes`. -/
def Holds (r : Reader) (bytes : List UInt8) : Prop :=
  ∃ rest, r.heap.block r.data = some (bytes ++ rest) ∧ r.len ≤ (bytes ++ rest).length

/-- `bytes` were written to the buffer, and nothing else. -/
def Wrote (r : Reader) (bytes : List UInt8) (t : Reader) : Prop :=
  r.heap.store r.data bytes = some t.heap ∧ t.data = r.data ∧ t.len = r.len

/-- What `Connector::read` promises of a read that gives back `n`. -/
def Delivers (r t : Reader) (n copied : Nat) : ReadCall → Prop
  | .fixed recv => ∃ msg ∈ recv.msg, n = msg.body.length ∧ copied = n ∧ r.Wrote msg.body t
  | .growing _ recv _ => ∃ msg ∈ recv.msg, n = msg.body.length ∧ copied = n ∧ t.Holds msg.body

/-- A read that stays within the buffer and the message, leaves a buffer that can be read into,
and delivers what it says it does. -/
def Ends (r : Reader) (c : ReadCall) (o : Option (ReadAnswer × Reader)) : Prop :=
  ∃ answer t, o = some (answer, t) ∧ t.Valid ∧
    ∀ n, answer.result = .reads n → r.Delivers t n answer.copied c

def Honoured (kind : NngConnector) (r : Reader) (c : ReadCall) : Prop := r.Ends c (step kind r c)

/-- No message with a body is shorter than the buffer it is to fill, and none makes a buffer move
that is to grow. -/
def Sound : NngConnector → Reader → ReadCall → Prop
  | .blocking, _, _ => True
  | .async, r, .fixed recv =>
    recv.ret = 0 → ∀ msg ∈ recv.msg, msg.hasBody = true → r.len ≤ msg.body.length
  | .async, r, .growing passed recv how =>
    passed = true → recv.ret = 0 → ∀ msg ∈ recv.msg, r.len < msg.body.length → how ≠ .moves

instance : ∀ (kind : NngConnector) (r : Reader) (c : ReadCall), Decidable (Sound kind r c)
  | .blocking, _, _ => inferInstanceAs (Decidable True)
  | .async, r, .fixed recv => inferInstanceAs (Decidable (recv.ret = 0 → ∀ msg ∈ recv.msg,
      msg.hasBody = true → r.len ≤ msg.body.length))
  | .async, r, .growing passed recv how => inferInstanceAs (Decidable (passed = true →
      recv.ret = 0 → ∀ msg ∈ recv.msg, r.len < msg.body.length → how ≠ .moves))

end Reader

end Open3DStream
