import Open3DStream.Lib.Buffer

/-! The TCP side of the receiver, and of the device that writes to it. -/

namespace Open3DStream

open Lib

/-- The bytes a frame starts with: four that are no text, then `O3DS-START`. -/
def magic : List UInt8 :=
  [0x00, 0xff, 0x03, 0xfe, 0x4f, 0x33, 0x44, 0x53, 0x2d, 0x53, 0x54, 0x41, 0x52, 0x54]

/-- What `WriteTcp` passes to `Send`, call by call. -/
def WriteTcp (data : List UInt8) : List (List UInt8) :=
  [magic, putUInt32 (.ofNat data.length), data]

/-- The bytes on their way, and what the next calls of `Recv` do: fail, or find at most
some number of bytes. -/
structure FSocket where
  stream : List UInt8
  recvs : List (Option Nat)

/-- At most `n` bytes; past the end of `recvs` there is no data. -/
def FSocket.Recv (tcp : FSocket) (n : Nat) : Option (List UInt8) × FSocket :=
  match tcp.recvs with
  | [] => (some [], tcp)
  | none :: recvs => (none, ⟨tcp.stream, recvs⟩)
  | some k :: recvs => (some (tcp.stream.take (min k n)), ⟨tcp.stream.drop (min k n), recvs⟩)

inductive EState where
  | SYNC | HEADER | DATA
deriving DecidableEq

/-- A call of a delegate. -/
inductive Notice where
  | OnData (data : List UInt8)
  | OnState (text : String) (warning : Bool)
deriving DecidableEq

/-- `mBuffer` holds the first `mPtr` bytes of the buffer. -/
structure O3DSServer where
  mTcp : FSocket
  mBuffer : List UInt8
  mState : EState
  notices : List Notice

/-- `strncmp`: the difference at the first byte that differs, up to a common zero. -/
def strncmp : Nat → List UInt8 → List UInt8 → Int
  | n + 1, a :: as, b :: bs =>
    if a ≠ b then (a.toNat : Int) - b.toNat else if a = 0 then 0 else strncmp n as bs
  | _, _, _ => 0

/-- How a block of the loop in `tick` ends: the next block follows, the loop starts
again, or it is left, by `break` or by `return`. -/
inductive Flow where
  | next | again | leave
deriving DecidableEq

theorem Flow.again_ne_next : Flow.again ≠ .next := by decide

theorem Flow.leave_ne_next : Flow.leave ≠ .next := by decide

theorem Flow.again_ne_leave : Flow.again ≠ .leave := by decide

namespace O3DSServer

def mPtr (s : O3DSServer) : Nat := s.mBuffer.length

def notify (s : O3DSServer) (n : Notice) : O3DSServer := { s with notices := s.notices ++ [n] }

/-- False when no data was read. -/
def ReadTcp (s : O3DSServer) (len : Nat) : Bool × O3DSServer :=
  if len ≤ s.mPtr then (true, s)
  else
    match s.mTcp.Recv (len - s.mPtr) with
    | (none, tcp) => (false, { s with mTcp := tcp }.notify (.OnState "TCP Error" true))
    | (some bytes, tcp) => (!bytes.isEmpty, { s with mTcp := tcp, mBuffer := s.mBuffer ++ bytes })

/-- The loop over the bytes of the magic after the first. -/
def compareMagic : List UInt8 → Nat → O3DSServer → Flow × O3DSServer
  | [], _, s => (.next, { s with mState := .HEADER })
  | c :: cs, i, s =>
    let (ok, s) := s.ReadTcp (i + 1)
    if !ok then (.leave, s)
    else if s.mBuffer[i]? ≠ some c then (.leave, s)
    else compareMagic cs (i + 1) s

def sync (s : O3DSServer) : Flow × O3DSServer :=
  let s := { s with mBuffer := [] }
  let (ok, s) := s.ReadTcp 1
  if !ok then (.leave, s)
  else if s.mBuffer[0]? ≠ some 0x00 then (.again, s)
  else compareMagic (magic.drop 1) 1 s

/-- The loops `while (mPtr < len)`; each turn takes one of the `n` calls of `Recv` left. -/
def fill (len : Nat) : Nat → O3DSServer → Bool × O3DSServer
  | 0, s => (decide (len ≤ s.mPtr), s)
  | n + 1, s =>
    if len ≤ s.mPtr then (true, s)
    else
      let (ok, s) := s.ReadTcp len
      if !ok then (false, s) else fill len n s

def malformed (s : O3DSServer) : O3DSServer :=
  { s with mState := .SYNC }.notify (.OnState "Malformed Data" true)

def readHeader (s : O3DSServer) : Flow × O3DSServer :=
  let (ok, s) := fill 18 s.mTcp.recvs.length s
  if !ok then (.leave, s)
  else if strncmp 14 s.mBuffer magic ≠ 0 then (.again, s.malformed)
  else (.next, { s with mState := .DATA })

def bucketSize (s : O3DSServer) : Nat := (getUInt32 (s.mBuffer.drop 14)).toNat

def readData (s : O3DSServer) : Flow × O3DSServer :=
  if 1024 * 50 < s.bucketSize then (.again, s.malformed)
  else
    let (ok, s') := fill (s.bucketSize + 18) s.mTcp.recvs.length s
    if !ok then (.leave, s')
    else
      let data := (s'.mBuffer.drop 18).take s.bucketSize
      let s' := (s'.notify (.OnData data)).notify (.OnState "Receiving Data" false)
      (.again, { s' with mState := .HEADER, mBuffer := [] })

/-- A block of the loop with the state it is for. -/
def block (state : EState) (f : O3DSServer → Flow × O3DSServer) :
    Flow × O3DSServer → Flow × O3DSServer
  | (.next, s) => if s.mState = state then f s else (.next, s)
  | r => r

/-- One turn of the loop. -/
def turn (s : O3DSServer) : Flow × O3DSServer :=
  block .DATA readData (block .HEADER readHeader (block .SYNC sync (.next, s)))

/-- The loop of `tick`, for at most `n` turns. -/
def loop : Nat → O3DSServer → Option O3DSServer
  | 0, _ => none
  | n + 1, s =>
    match s.turn with
    | (.leave, s) => some s
    | (_, s) => loop n s

/-- `tick` with what its calls of `Recv` find. -/
def tick (s : O3DSServer) (recvs : List (Option Nat)) : Option O3DSServer :=
  loop (recvs.length + 2) { s with mTcp := ⟨s.mTcp.stream, recvs⟩ }

/-- What has been passed to `OnData`. -/
def received (s : O3DSServer) : List (List UInt8) :=
  s.notices.filterMap fun
    | .OnData data => some data
    | .OnState _ _ => none

end O3DSServer

end Open3DStream
