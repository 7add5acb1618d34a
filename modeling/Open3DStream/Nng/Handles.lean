import Open3DStream.Lib.Ledger
import Open3DStream.Nng.Reader

/-! The handles that the connectors of nng make, and what becomes of them. -/

namespace Open3DStream

open Lib

namespace Nng

inductive Resource where
  | socket
  | dialer (socket : Nat) (url : String)
  | aio
  | message
  | tls_config
deriving DecidableEq

/-- A call of nng that is given one of them. -/
inductive Usage where
  | setopt
  | dial (url : String)
  | listen (url : String)
  | pipe_notify
  | dialer_set_ptr
  | dialer_start
  | recv_aio
  | aio_stop
  | config_psk
  | append (data : List UInt8)
  | sendmsg
deriving DecidableEq

/-- What the calls of a `start` return: opening the socket, allocating the aio, dialing or
listening, subscribing, creating the dialer, the three calls for the key, asking for the events of
pipes, and starting the dialer. -/
structure Returns where
  opened : Int := 0
  allocated : Int := 0
  attached : Int := 0
  subscribed : Int := 0
  created : Int := 0
  configured : Int := 0
  keyed : Int := 0
  set : Int := 0
  notified : Int := 0
  started : Int := 0
deriving DecidableEq

/-- What the calls of a `write` return. -/
structure WriteReturns where
  alloc : Int := 0
  append : Int := 0
  sendmsg : Int := 0
deriving DecidableEq

/-- A dialer is closed with its socket. -/
def Resource.dials (k : Nat) : Resource → Bool
  | .dialer j _ => j = k
  | _ => false

end Nng

/-- An asynchronous connector and its handles, which are numbered by their place in the ledger. -/
structure AsyncHandles where
  mSocket : Option Nat := none
  mDialer : Option Nat := none
  aio : Option Nat := none
  mPskIdentity : String := ""
  mPskKey : List UInt8 := []
  mState : Connector.EState := .NOTSTARTED
  mError : Option (String × Int) := none
  mDropped : UInt64 := 0
  dealings : List (Dealing Nng.Resource Nng.Usage) := []
deriving DecidableEq

namespace AsyncHandles

open Nng

def setError (s : AsyncHandles) (msg : String) (ret : Int) : AsyncHandles :=
  { s with mError := some (msg, ret), mState := .STATE_ERROR }

def NNG_ERROR (s : AsyncHandles) (msg : String) (ret : Int)
    (next : AsyncHandles → Bool × AsyncHandles) : Bool × AsyncHandles :=
  if ret ≠ 0 then (false, s.setError msg ret) else next s

def acquire (s : AsyncHandles) (r : Resource) : AsyncHandles :=
  { s with dealings := s.dealings ++ [.acquired s.dealings.length r] }

/-- A handle is used that may not be there. -/
def use (s : AsyncHandles) (k : Option Nat) (u : Usage) : AsyncHandles :=
  { s with dealings := s.dealings ++ k.toList.map (.used · u) }

def release (s : AsyncHandles) (ks : List Nat) : AsyncHandles :=
  { s with dealings := s.dealings ++ ks.map .released }

section fields

variable (s : AsyncHandles) (r : Resource) (k : Option Nat) (u : Usage) (ks : List Nat)

@[simp] theorem acquire_mSocket : (s.acquire r).mSocket = s.mSocket := rfl

@[simp] theorem acquire_mDialer : (s.acquire r).mDialer = s.mDialer := rfl

@[simp] theorem acquire_aio : (s.acquire r).aio = s.aio := rfl

@[simp] theorem use_mSocket : (s.use k u).mSocket = s.mSocket := rfl

@[simp] theorem use_mDialer : (s.use k u).mDialer = s.mDialer := rfl

@[simp] theorem use_aio : (s.use k u).aio = s.aio := rfl

@[simp] theorem release_mSocket : (s.release ks).mSocket = s.mSocket := rfl

@[simp] theorem release_mDialer : (s.release ks).mDialer = s.mDialer := rfl

@[simp] theorem release_aio : (s.release ks).aio = s.aio := rfl

end fields

/-! ### Calls of nng -/

/-- A new socket takes the place of the one before. -/
def opened (s : AsyncHandles) : AsyncHandles :=
  { s.acquire .socket with mSocket := some s.dealings.length }

def allocated (s : AsyncHandles) : AsyncHandles :=
  { s.acquire .aio with aio := some s.dealings.length }

def created (s : AsyncHandles) (k : Nat) (url : String) : AsyncHandles :=
  { s.acquire (.dialer k url) with mDialer := some s.dealings.length }

def nng_open (s : AsyncHandles) (ret : Int) : AsyncHandles := if ret = 0 then s.opened else s

def nng_aio_alloc (s : AsyncHandles) (ret : Int) : AsyncHandles := if ret = 0 then s.allocated else s

def nng_dialer_create (s : AsyncHandles) (url : String) (ret : Int) : AsyncHandles :=
  match s.mSocket with
  | some k => if ret = 0 then s.created k url else s
  | none => s

/-- The socket is closed, and the dialers that it has. -/
def nng_close (s : AsyncHandles) (k : Nat) : AsyncHandles :=
  (s.release (((holdings s.dealings).filter (·.2.dials k)).map Prod.fst)).release [k]

/-- A handle that is not valid any more only gives an error. -/
def nng_dialer_close (s : AsyncHandles) (d : Option Nat) : AsyncHandles :=
  s.release (d.toList.filter (· ∈ held s.dealings))

/-! ### The connector -/

def setTlsPsk (s : AsyncHandles) (identity : String) (key : List UInt8) : AsyncHandles :=
  { s with mPskIdentity := identity, mPskKey := key }

/-- The configuration is dropped in any case once it is made. -/
def applyTlsPsk (s : AsyncHandles) (o : Returns) : Int × AsyncHandles :=
  if s.mPskIdentity.isEmpty || s.mPskKey.isEmpty then (0, s)
  else if o.configured ≠ 0 then (o.configured, s)
  else
    let cfg := s.dealings.length
    let s := (s.acquire .tls_config).use cfg .config_psk
    let (ret, s) := if o.keyed = 0 then (o.set, s.use s.mDialer .dialer_set_ptr) else (o.keyed, s)
    (ret, s.release [cfg])

def stop (s : AsyncHandles) : AsyncHandles :=
  match s.mSocket with
  | none => s
  | some k =>
    let s := { s.nng_close k with mSocket := none }
    let s := s.nng_dialer_close s.mDialer
    { s.use s.aio .aio_stop with aio := none }

/-- `~AsyncNngConnector`. -/
def destroy (s : AsyncHandles) : AsyncHandles :=
  let s := s.stop
  s.release s.aio.toList

/-- A message is made, and the bytes are put into it. -/
def appended (s : AsyncHandles) (data : List UInt8) : AsyncHandles :=
  (s.acquire .message).use s.dealings.length (.append data)

/-- It is offered to the socket. -/
def offered (s : AsyncHandles) (data : List UInt8) : AsyncHandles :=
  ((s.appended data).use s.mSocket .sendmsg).use s.dealings.length .sendmsg

section fields

variable (s : AsyncHandles) (data : List UInt8)

@[simp] theorem appended_mSocket : (s.appended data).mSocket = s.mSocket := rfl

@[simp] theorem appended_mDialer : (s.appended data).mDialer = s.mDialer := rfl

@[simp] theorem appended_aio : (s.appended data).aio = s.aio := rfl

@[simp] theorem offered_mSocket : (s.offered data).mSocket = s.mSocket := rfl

@[simp] theorem offered_mDialer : (s.offered data).mDialer = s.mDialer := rfl

@[simp] theorem offered_aio : (s.offered data).aio = s.aio := rfl

end fields

def write (s : AsyncHandles) (data : List UInt8) (o : WriteReturns) : Bool × AsyncHandles :=
  s.NNG_ERROR "Message alloc" o.alloc fun s =>
    let msg := s.dealings.length
    if o.append ≠ 0 then
      (false, ((s.appended data).release [msg]).setError "Creating message" o.append)
    else
      -- a message that is sent belongs to nng, and one that is not is freed
      let s := (s.offered data).release [msg]
      if o.sendmsg = 0 then (true, s)
      else if o.sendmsg = NNG_EAGAIN then (true, { s with mDropped := s.mDropped + 1 })
      else (false, s.setError "Sending message" o.sendmsg)

def recv_aio (s : AsyncHandles) : AsyncHandles := (s.use s.mSocket .recv_aio).use s.aio .recv_aio

/-- Opening a socket that receives, with the texts of what may go wrong. -/
def startReceiving (opening allocating attaching : String) (attach : Usage) (s : AsyncHandles)
    (o : Returns) : Bool × AsyncHandles :=
  (s.nng_open o.opened).NNG_ERROR opening o.opened fun s =>
    (s.nng_aio_alloc o.allocated).NNG_ERROR allocating o.allocated fun s =>
      (s.use s.mSocket attach).NNG_ERROR attaching o.attached fun s =>
        (true, { s.recv_aio with mState := .STARTED })

end AsyncHandles

open AsyncHandles

def AsyncPairClient.start (s : AsyncHandles) (url : String) (o : Nng.Returns) : Bool × AsyncHandles :=
  startReceiving "Async pair client connection" "Async pair client connecting aio alloc"
    "Async pair client dial connecting" (.dial url) s o

def AsyncPairServer.start (s : AsyncHandles) (url : String) (o : Nng.Returns) : Bool × AsyncHandles :=
  startReceiving "Async pair server connecting" "Async pair Server aio alloc"
    "Async pair server listening" (.listen url) s o

def AsyncRequest.start (s : AsyncHandles) (url : String) (o : Nng.Returns) : Bool × AsyncHandles :=
  startReceiving "Creating request socket" "Creating request socket aio"
    "Conecting request socket" (.dial url) s o

def AsyncReply.start (s : AsyncHandles) (url : String) (o : Nng.Returns) : Bool × AsyncHandles :=
  startReceiving "Creating reply socket" "Creating reply socket aio"
    "Listening on reply socket" (.listen url) s o

/-- Nothing is received here, and there is no aio. -/
def AsyncPublisher.start (s : AsyncHandles) (url : String) (o : Nng.Returns) : Bool × AsyncHandles :=
  (s.nng_open o.opened).NNG_ERROR "Creating publish scocket" o.opened fun s =>
    (s.use s.mSocket (.listen url)).NNG_ERROR "Could not listen" o.attached fun s =>
      (true, { s with mState := .STARTED })

/-- The aio comes last. -/
def AsyncSubscriber.start (s : AsyncHandles) (url : String) (o : Nng.Returns) : Bool × AsyncHandles :=
  (s.nng_open o.opened).NNG_ERROR "Async Subscriber open socket" o.opened fun s =>
    (s.use s.mSocket .setopt).NNG_ERROR "Setting subscribe flag" o.subscribed fun s =>
      (s.nng_dialer_create url o.created).NNG_ERROR "Creating dialer" o.created fun s =>
        let (ret, s) := s.applyTlsPsk o
        s.NNG_ERROR "Applying TLS-PSK config" ret fun s =>
          (s.use s.mSocket .pipe_notify).NNG_ERROR "Setting pipe notify" o.notified fun s =>
            (s.use s.mDialer .dialer_start).NNG_ERROR "Subscriber async dialier" o.started fun s =>
              (s.nng_aio_alloc o.allocated).NNG_ERROR "Subscriber async aio alloc" o.allocated fun s =>
                (true, { s.recv_aio with mState := .STARTED })

namespace AsyncPipelinePush

/-- What is made by a start that cannot dial is taken apart, so that it can be tried again. -/
def retract (s : AsyncHandles) : AsyncHandles :=
  let s := { s.nng_dialer_close s.mDialer with mDialer := none }
  let s := { s.release s.aio.toList with aio := none }
  match s.mSocket with
  | none => s
  | some k => { s.nng_close k with mSocket := none }

def start (s : AsyncHandles) (url : String) (o : Nng.Returns) : Bool × AsyncHandles :=
  (s.nng_open o.opened).NNG_ERROR "Pipeline push open" o.opened fun s =>
    let s := s.use s.mSocket .setopt
    (s.nng_aio_alloc o.allocated).NNG_ERROR "Pipeline push aio alloc" o.allocated fun s =>
      (s.nng_dialer_create url o.created).NNG_ERROR "Pipeline push dialer create" o.created fun s =>
        let (ret, s) := s.applyTlsPsk o
        s.NNG_ERROR "Pipeline push TLS-PSK config" ret fun s =>
          let s := s.use s.mDialer .dialer_start
          if o.started ≠ 0 then (false, retract (s.setError "Pipeline push dial" o.started))
          else (true, s.recv_aio)

end AsyncPipelinePush

/-- Nothing is said of what goes wrong. -/
def AsyncPipelinePull.start (s : AsyncHandles) (url : String) (o : Nng.Returns) : Bool × AsyncHandles :=
  let s := s.nng_open o.opened
  if o.opened ≠ 0 then (false, s)
  else
    let s := s.nng_aio_alloc o.allocated
    if o.allocated ≠ 0 then (false, s)
    else
      let s := s.use s.mSocket (.listen url)
      if o.attached ≠ 0 then (false, s) else (true, s.recv_aio)

/-! ### Runs -/

inductive AsyncKind where
  | AsyncPairClient | AsyncPairServer | AsyncRequest | AsyncReply | AsyncPublisher | AsyncSubscriber
  | AsyncPipelinePush | AsyncPipelinePull
deriving DecidableEq

namespace AsyncHandles

inductive Call where
  | setTlsPsk (identity : String) (key : List UInt8)
  | start (url : String) (o : Nng.Returns)
  | write (data : List UInt8) (o : Nng.WriteReturns)
  | stop
deriving DecidableEq

def start (kind : AsyncKind) : AsyncHandles → String → Nng.Returns → Bool × AsyncHandles :=
  match kind with
  | .AsyncPairClient => AsyncPairClient.start
  | .AsyncPairServer => AsyncPairServer.start
  | .AsyncRequest => AsyncRequest.start
  | .AsyncReply => AsyncReply.start
  | .AsyncPublisher => AsyncPublisher.start
  | .AsyncSubscriber => AsyncSubscriber.start
  | .AsyncPipelinePush => AsyncPipelinePush.start
  | .AsyncPipelinePull => AsyncPipelinePull.start

/-- A call and what it returns. A subscriber writes nothing. -/
def call (kind : AsyncKind) (s : AsyncHandles) : Call → Option (Bool × AsyncHandles)
  | .setTlsPsk identity key => some (true, s.setTlsPsk identity key)
  | .start url o => some (start kind s url o)
  | .write data o => some (if kind = .AsyncSubscriber then (false, s) else s.write data o)
  | .stop => some (true, s.stop)

end AsyncHandles

end Open3DStream
