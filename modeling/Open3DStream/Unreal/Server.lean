import Open3DStream.Lib.Ledger
import Open3DStream.Lib.Machine
import Open3DStream.Tcp.Server
import Open3DStream.Unreal.Source

/-! What the Unreal plugin's server makes, and what it takes apart again. -/

namespace Open3DStream.Unreal

open Lib

inductive Resource where
  | AsyncSubscriber | AsyncPairClient | AsyncPairServer
  | udp (ip port : List Char)
  | FUdpSocketReceiver
  | tcp
deriving DecidableEq

/-- A call of a member function of one of them. -/
inductive Usage where
  | setFunc
  | start (url : String)
  | stop
  | write
  | BindLambda
  | Start
  | Stop
  | Connect (ip port : List Char)
  | SetNonBlocking
  | Recv
  | Close
deriving DecidableEq

/-- What a call of `start` meets: the error of a connector that does not start, and whether the
sockets can be made and connected. -/
structure Outcome where
  started : Option String
  udp : Bool
  tcp : Bool
  connected : Bool
deriving DecidableEq

/-- A pointer is `none` or the number of what it designates, which is the place of its making in
the ledger. -/
structure Server where
  mServer : Option Nat := none
  mTcp : Option Nat := none
  mUdp : Option Nat := none
  mUdpReceiver : Option Nat := none
  mState : EState := .SYNC
  dealings : List (Dealing Resource Usage) := []
  notices : List (String × Bool) := []
deriving DecidableEq

/-- `FString::StartsWith`, which ignores case. -/
def StartsWith (s p : List Char) : Bool := (s.take p.length).map Char.toLower = p

/-- `FString::FindChar`. -/
def FindChar (c : Char) (s : List Char) : Option Nat := s.findIdx? (· = c)

/-- An address without its six letters of scheme. -/
def withoutScheme (scheme : String) (parseme : List Char) : List Char :=
  if StartsWith parseme scheme.toList then parseme.drop 6 else parseme

/-- The part of an address before its first colon and the part after it. -/
def endpoint (parseme : List Char) : Option (List Char × List Char) :=
  (FindChar ':' parseme).map fun pos => (parseme.take pos, parseme.drop (pos + 1))

namespace Server

def acquire (s : Server) (r : Resource) : Nat × Server :=
  (s.dealings.length, { s with dealings := s.dealings ++ [.acquired s.dealings.length r] })

def use (s : Server) (k : Nat) (u : Usage) : Server :=
  { s with dealings := s.dealings ++ [.used k u] }

def release (s : Server) (k : Nat) : Server := { s with dealings := s.dealings ++ [.released k] }

def OnState (s : Server) (text : String) (warning : Bool) : Server :=
  { s with notices := s.notices ++ [(text, warning)] }

/-- `none` is a null pointer that is followed. -/
def stop (s : Server) : Option Server := do
  let s := match s.mServer with
    | none => s
    | some k => { (s.use k .stop).release k with mServer := none }
  let s ← match s.mUdp with
    | none => some s
    | some k => do
      let receiver ← s.mUdpReceiver
      let s := { (s.use receiver .Stop).release receiver with mUdpReceiver := none }
      some { (s.use k .Close).release k with mUdp := none }
  match s.mTcp with
  | none => some s
  | some k => some { (s.use k .Close).release k with mTcp := none }

/-- `new` of a connector. -/
def connector (s : Server) (r : Resource) : Server :=
  let (k, s) := s.acquire r
  { s with mServer := some k }

/-- `strncmp` with as many characters as there are in the second string. -/
def makeConnector (s : Server) (sprotocol : String) : Server :=
  let s := if "NNG Subscribe".toList <+: sprotocol.toList then s.connector .AsyncSubscriber else s
  let s := if "NNG Client".toList <+: sprotocol.toList then s.connector .AsyncPairClient else s
  if "NNG Server".toList <+: sprotocol.toList then s.connector .AsyncPairServer else s

def startConnector (s : Server) (k : Nat) (surl : String) (o : Outcome) : Option (Bool × Server) :=
  let s := (s.use k .setFunc).use k (.start surl)
  match o.started with
  | none => some (true, s)
  | some err => do
    let s ← (s.OnState err true).stop
    some (false, s)

def startUdp (s : Server) (surl : String) (o : Outcome) : Bool × Server :=
  let parseme := withoutScheme "udp://" surl.toList
  if StartsWith parseme "tcp://".toList then (false, s.OnState "Invalid Address (TCP)" true)
  else
    match endpoint parseme with
    | none => (true, s)
    | some (ip, port) =>
      if !o.udp then (false, { s with mUdp := none }.OnState "Could not create udp socket" true)
      else
        let (k, s) := s.acquire (.udp ip port)
        let s := { s with mUdp := some k }
        let s := match s.mUdpReceiver with
          | none => s
          | some receiver => s.release receiver
        let (receiver, s) := s.acquire .FUdpSocketReceiver
        let s := { s with mUdpReceiver := some receiver }
        (true, (s.use receiver .BindLambda).use receiver .Start)

/-- The socket that cannot be used is taken apart. -/
def dropTcp (s : Server) (k : Nat) : Bool × Server :=
  (false, { (s.use k .Close).release k with mTcp := none })

def startTcp (s : Server) (surl : String) (o : Outcome) : Option (Bool × Server) :=
  let s := { s with mState := .SYNC }
  let s := if o.tcp then
      let (k, s) := s.acquire .tcp
      { s with mTcp := some k }
    else { s with mTcp := none }
  match endpoint (withoutScheme "tcp://" surl.toList) with
  | some (ip, port) => do
    let k ← s.mTcp
    let s := s.use k (.Connect ip port)
    if !o.connected then some ((s.OnState "TCP Not Connected" true).dropTcp k)
    else some (true, (s.use k .SetNonBlocking).OnState "TCP Connected" false)
  | none => do
    let k ← s.mTcp
    some ((s.OnState "Invalid Address" true).dropTcp k)

def start (s : Server) (Url Protocol : String) (o : Outcome) : Option (Bool × Server) := do
  let s ← s.stop
  let sprotocol := c_str Protocol
  let surl := c_str Url
  let s := s.makeConnector sprotocol
  match s.mServer with
  | some k => s.startConnector k surl o
  | none =>
    if sprotocol = "UDP Server" then some (s.startUdp surl o)
    else if sprotocol = "TCP Client" then s.startTcp surl o
    else some (true, s)

def write (s : Server) (written : Bool) : Bool × Server :=
  match s.mServer with
  | none => (false, s)
  | some k => (written, s.use k .write)

/-- The calls of `Recv` that `tick` makes. -/
def tick (s : Server) (recvs : Nat) : Server :=
  match s.mTcp with
  | none => s
  | some k => (List.replicate recvs Usage.Recv).foldl (fun s u => s.use k u) s

/-- What is done with the server. -/
inductive Call where
  | start (Url Protocol : String) (o : Outcome)
  | stop
  | write (written : Bool)
  | tick (recvs : Nat)
deriving DecidableEq

def call (s : Server) : Call → Option (Bool × Server)
  | .start Url Protocol o => s.start Url Protocol o
  | .stop => do
    let s ← s.stop
    some (true, s)
  | .write written => some (s.write written)
  | .tick recvs => some (true, s.tick recvs)

/-! ### The ledger -/

/-- The ledger is in order, and the resources `ks` are held. -/
def Books (s : Server) (ks : List Nat) : Prop :=
  ∃ hs, Balanced s.dealings hs ∧ hs.map Prod.fst = ks

theorem Books.nodup {s : Server} {ks : List Nat} (h : Books s ks) : ks.Nodup := by
  obtain ⟨hs, hbalanced, rfl⟩ := h
  exact hbalanced.nodup

theorem Books.proper {s : Server} {ks : List Nat} (h : Books s ks) : Proper s.dealings := by
  obtain ⟨hs, hbalanced, -⟩ := h
  exact hbalanced.proper

theorem Books.held {s : Server} {ks : List Nat} (h : Books s ks) : held s.dealings = ks := by
  obtain ⟨hs, hbalanced, rfl⟩ := h
  rw [Lib.held, hbalanced.holdings]

theorem Books.acquire {s : Server} {ks : List Nat} (h : Books s ks) (r : Resource) :
    Books (s.acquire r).2 (ks ++ [(s.acquire r).1]) := by
  obtain ⟨hs, hbalanced, rfl⟩ := h
  exact ⟨_, hbalanced.acquire r, List.map_append⟩

theorem Books.use {s : Server} {ks : List Nat} (h : Books s ks) {k : Nat} (hk : k ∈ ks) (u : Usage) :
    Books (s.use k u) ks := by
  obtain ⟨hs, hbalanced, rfl⟩ := h
  exact ⟨hs, hbalanced.use hk u, rfl⟩

/-- Something is used for the last time. -/
theorem Books.finish {s : Server} {ks : List Nat} (h : Books s ks) {k : Nat} (hk : k ∈ ks) (u : Usage) :
    Books ((s.use k u).release k) (ks.filter (· ≠ k)) := by
  obtain ⟨hs, hbalanced, rfl⟩ := h.use hk u
  refine ⟨_, hbalanced.release hk, ?_⟩
  rw [List.filter_map]
  rfl

/-! ### The pointers -/

def owned (s : Server) : List Nat :=
  s.mServer.toList ++ (s.mUdp.toList ++ (s.mUdpReceiver.toList ++ s.mTcp.toList))

/-- One way of receiving at a time. -/
inductive Transport (s : Server) : Prop where
  | idle (server : s.mServer = none) (udp : s.mUdp = none) (receiver : s.mUdpReceiver = none)
      (tcp : s.mTcp = none)
  | nng (k : Nat) (server : s.mServer = some k) (udp : s.mUdp = none) (receiver : s.mUdpReceiver = none)
      (tcp : s.mTcp = none)
  | udp (k r : Nat) (server : s.mServer = none) (udp : s.mUdp = some k)
      (receiver : s.mUdpReceiver = some r) (tcp : s.mTcp = none)
  | tcp (k : Nat) (server : s.mServer = none) (udp : s.mUdp = none) (receiver : s.mUdpReceiver = none)
      (tcp : s.mTcp = some k)

/-- The pointers designate what is held. -/
structure Kept (s : Server) : Prop where
  books : Books s s.owned
  transport : Transport s

/-- Nothing is held. -/
structure Idle (s : Server) : Prop where
  books : Books s []
  server : s.mServer = none
  udp : s.mUdp = none
  receiver : s.mUdpReceiver = none
  tcp : s.mTcp = none

theorem Idle.owned {s : Server} (h : Idle s) : s.owned = [] := by
  rw [Server.owned, h.server, h.udp, h.receiver, h.tcp]
  rfl

theorem Idle.kept {s : Server} (h : Idle s) : Kept s :=
  ⟨h.owned ▸ h.books, .idle h.server h.udp h.receiver h.tcp⟩

theorem Kept.stop {s : Server} (h : Kept s) : ∃ s', s.stop = some s' ∧ Idle s' := by
  have hbooks := h.books
  have hnodup := hbooks.nodup
  rw [Server.owned] at hbooks hnodup
  cases h.transport with
  | idle hserver hudp hreceiver htcp =>
    rw [hserver, hudp, hreceiver, htcp] at hbooks
    refine ⟨s, ?_, hbooks, hserver, hudp, hreceiver, htcp⟩
    simp only [Server.stop, hserver, hudp, htcp, Option.bind_eq_bind, Option.bind_some]
  | nng k hserver hudp hreceiver htcp =>
    rw [hserver, hudp, hreceiver, htcp] at hbooks
    refine ⟨{ (s.use k .stop).release k with mServer := none }, ?_, ?_, rfl, hudp, hreceiver, htcp⟩
    · simp only [Server.stop, hserver, Server.use, Server.release, hudp, htcp, Option.bind_eq_bind,
        Option.bind_some]
    · have hfinish := hbooks.finish (k := k) (by simp) .stop
      simp at hfinish
      exact hfinish
  | udp k r hserver hudp hreceiver htcp =>
    rw [hserver, hudp, hreceiver, htcp] at hbooks hnodup
    have hne : k ≠ r := by
      rintro rfl
      simp at hnodup
    -- the receiver goes before the socket that it reads from
    have hreceived : Books { (s.use r .Stop).release r with mUdpReceiver := none } [k] := by
      have hfinish := hbooks.finish (k := r) (by simp) .Stop
      simp [hne] at hfinish
      exact hfinish
    refine ⟨{ (({ (s.use r .Stop).release r with mUdpReceiver := none } : Server).use k .Close).release k
      with mUdp := none }, ?_, ?_, hserver, rfl, rfl, htcp⟩
    · simp only [Server.stop, hserver, Server.use, Server.release, hudp, hreceiver, htcp,
        Option.bind_eq_bind, Option.bind_some]
    · have hfinish := hreceived.finish (k := k) (by simp) .Close
      simp at hfinish
      exact hfinish
  | tcp k hserver hudp hreceiver htcp =>
    rw [hserver, hudp, hreceiver, htcp] at hbooks
    refine ⟨{ (s.use k .Close).release k with mTcp := none }, ?_, ?_, hserver, hudp, hreceiver, rfl⟩
    · simp only [Server.stop, hserver, Server.use, Server.release, hudp, htcp, Option.bind_eq_bind,
        Option.bind_some]
    · have hfinish := hbooks.finish (k := k) (by simp) .Close
      simp at hfinish
      exact hfinish

theorem Transport.of_pointers {s t : Server} (h : Transport s) (hserver : t.mServer = s.mServer)
    (hudp : t.mUdp = s.mUdp) (hreceiver : t.mUdpReceiver = s.mUdpReceiver) (htcp : t.mTcp = s.mTcp) :
    Transport t := by
  cases h with
  | idle h₁ h₂ h₃ h₄ =>
    exact .idle (hserver.trans h₁) (hudp.trans h₂) (hreceiver.trans h₃) (htcp.trans h₄)
  | nng k h₁ h₂ h₃ h₄ =>
    exact .nng k (hserver.trans h₁) (hudp.trans h₂) (hreceiver.trans h₃) (htcp.trans h₄)
  | udp k r h₁ h₂ h₃ h₄ =>
    exact .udp k r (hserver.trans h₁) (hudp.trans h₂) (hreceiver.trans h₃) (htcp.trans h₄)
  | tcp k h₁ h₂ h₃ h₄ =>
    exact .tcp k (hserver.trans h₁) (hudp.trans h₂) (hreceiver.trans h₃) (htcp.trans h₄)

theorem Kept.use {s : Server} (h : Kept s) {k : Nat} (hk : k ∈ s.owned) (u : Usage) :
    Kept (s.use k u) :=
  ⟨h.books.use hk u, h.transport.of_pointers rfl rfl rfl rfl⟩

theorem Kept.OnState {s : Server} (h : Kept s) (text : String) (warning : Bool) :
    Kept (s.OnState text warning) :=
  ⟨h.books, h.transport.of_pointers rfl rfl rfl rfl⟩

/-! ### Starting -/

/-- The connector for a protocol. -/
def connectorOf (sprotocol : String) : Option Resource :=
  if "NNG Subscribe".toList <+: sprotocol.toList then some .AsyncSubscriber
  else if "NNG Client".toList <+: sprotocol.toList then some .AsyncPairClient
  else if "NNG Server".toList <+: sprotocol.toList then some .AsyncPairServer
  else none

theorem makeConnector_eq (s : Server) (sprotocol : String) :
    s.makeConnector sprotocol = ((connectorOf sprotocol).map s.connector).getD s := by
  have hclient (h : "NNG Subscribe".toList <+: sprotocol.toList) :
      ¬ "NNG Client".toList <+: sprotocol.toList := fun h' =>
    (List.prefix_or_prefix_of_prefix h h').elim (by decide) (by decide)
  have hserver (h : "NNG Subscribe".toList <+: sprotocol.toList) :
      ¬ "NNG Server".toList <+: sprotocol.toList := fun h' =>
    (List.prefix_or_prefix_of_prefix h h').elim (by decide) (by decide)
  have hpair (h : "NNG Client".toList <+: sprotocol.toList) :
      ¬ "NNG Server".toList <+: sprotocol.toList := fun h' =>
    (List.prefix_or_prefix_of_prefix h h').elim (by decide) (by decide)
  rw [makeConnector, connectorOf]
  by_cases hs : "NNG Subscribe".toList <+: sprotocol.toList
  · simp only [hs, hclient hs, hserver hs, if_true, if_false, Option.map_some, Option.getD_some]
  · by_cases hc : "NNG Client".toList <+: sprotocol.toList
    · simp only [hs, hc, hpair hc, if_true, if_false, Option.map_some, Option.getD_some]
    · simp only [hs, hc, if_false]
      split <;> rfl

/-- Nothing is there to receive on: no such transport, or one that is given no port. -/
def Unheard (Url Protocol : String) : Prop :=
  connectorOf (c_str Protocol) = none ∧ c_str Protocol ≠ "TCP Client" ∧
    (c_str Protocol = "UDP Server" → endpoint (withoutScheme "udp://" (c_str Url).toList) = none)

instance (Url Protocol : String) : Decidable (Unheard Url Protocol) :=
  inferInstanceAs (Decidable (_ ∧ _ ∧ _))

/-- What a call of `start` leaves: something to receive on exactly when it reports success and
`unheard` is not the case. -/
structure Started (r : Bool × Server) (unheard : Prop) : Prop where
  kept : Kept r.2
  owned : r.2.owned = [] ↔ r.1 = false ∨ unheard

theorem Started.of_idle {s : Server} (h : Idle s) (ok : Bool) {unheard : Prop}
    (hok : ok = false ∨ unheard) : Started (ok, s) unheard :=
  ⟨h.kept, iff_of_true h.owned hok⟩

theorem Started.of_kept {s : Server} (h : Kept s) {k : Nat} (hk : k ∈ s.owned) {unheard : Prop}
    (hnot : ¬ unheard) : Started (true, s) unheard := by
  refine ⟨h, iff_of_false (List.ne_nil_of_mem hk) ?_⟩
  rintro (hfalse | h)
  · cases hfalse
  · exact hnot h

theorem Idle.connector {s : Server} (h : Idle s) (r : Resource) : Kept (s.connector r) := by
  have hbooks : Books (s.connector r) [s.dealings.length] :=
    h.books.acquire r
  refine ⟨?_, .nng s.dealings.length rfl h.udp h.receiver h.tcp⟩
  rw [Server.owned, show (s.connector r).mUdp = none from h.udp,
    show (s.connector r).mUdpReceiver = none from h.receiver,
    show (s.connector r).mTcp = none from h.tcp]
  exact hbooks

/-- A socket, and a receiver that reads from it. -/
def withUdp (s : Server) (ip port : List Char) : Server :=
  let (k, s) := s.acquire (.udp ip port)
  let (receiver, s) := s.acquire .FUdpSocketReceiver
  { s with mUdp := some k, mUdpReceiver := some receiver }

theorem Idle.withUdp {s : Server} (h : Idle s) (ip port : List Char) : Kept (s.withUdp ip port) := by
  have hbooks := (h.books.acquire (.udp ip port)).acquire .FUdpSocketReceiver
  refine ⟨?_, .udp _ _ h.server rfl rfl h.tcp⟩
  rw [Server.owned, show (s.withUdp ip port).mServer = none from h.server,
    show (s.withUdp ip port).mTcp = none from h.tcp]
  exact hbooks

theorem Idle.startUdp {s : Server} (h : Idle s) (surl : String) (o : Outcome) :
    Started (s.startUdp surl o) (endpoint (withoutScheme "udp://" surl.toList) = none) := by
  rw [Server.startUdp]
  split
  · have hidle : Idle (s.OnState "Invalid Address (TCP)" true) :=
      ⟨h.books, h.server, h.udp, h.receiver, h.tcp⟩
    exact .of_idle hidle false (.inl rfl)
  · cases hend : endpoint (withoutScheme "udp://" surl.toList) with
    | none => exact .of_idle h true (.inr rfl)
    | some e =>
      obtain ⟨ip, port⟩ := e
      dsimp only
      split
      · have hidle : Idle ({ s with mUdp := none }.OnState "Could not create udp socket" true) :=
          ⟨h.books, h.server, rfl, h.receiver, h.tcp⟩
        exact .of_idle hidle false (.inl rfl)
      · have hkept := h.withUdp ip port
        have hmem : (s.acquire (.udp ip port)).2.dealings.length ∈ (s.withUdp ip port).owned := by
          simp [Server.owned, Server.withUdp, Server.acquire]
        simp only [Server.acquire, h.receiver]
        exact .of_kept ((hkept.use hmem .BindLambda).use hmem .Start) hmem (Option.some_ne_none _)

/-- A socket that is not connected yet. -/
def withTcp (s : Server) : Server :=
  let (k, s) := s.acquire .tcp
  { s with mState := .SYNC, mTcp := some k }

theorem Idle.withTcp {s : Server} (h : Idle s) : Kept s.withTcp := by
  have hbooks := h.books.acquire .tcp
  refine ⟨?_, .tcp _ h.server h.udp h.receiver rfl⟩
  rw [Server.owned, show s.withTcp.mServer = none from h.server,
    show s.withTcp.mUdp = none from h.udp, show s.withTcp.mUdpReceiver = none from h.receiver]
  exact hbooks

theorem Kept.dropTcp {s : Server} (h : Kept s) {k : Nat} (hk : s.mTcp = some k) :
    Idle (s.dropTcp k).2 := by
  have hbooks := h.books
  rw [Server.owned] at hbooks
  cases h.transport with
  | idle _ _ _ htcp | nng _ _ _ _ htcp | udp _ _ _ _ _ htcp =>
    rw [hk] at htcp
    cases htcp
  | tcp _ hserver hudp hreceiver _ =>
    rw [hserver, hudp, hreceiver, hk] at hbooks
    have hfinish := hbooks.finish (k := k) (by simp) .Close
    simp at hfinish
    exact ⟨hfinish, hserver, hudp, hreceiver, rfl⟩

/-- The socket is followed without a check that it is there. -/
theorem Idle.startTcp {s : Server} (h : Idle s) (surl : String) (o : Outcome) :
    (o.tcp = false → s.startTcp surl o = none) ∧
      (o.tcp = true → ∃ r, s.startTcp surl o = some r ∧ Started r False) := by
  refine ⟨?_, ?_⟩
  · intro ho
    rw [Server.startTcp, ho]
    dsimp only
    split <;> rfl
  · intro ho
    have hkept := h.withTcp
    have hmem : s.dealings.length ∈ s.withTcp.owned := by
      simp [Server.owned, Server.withTcp, Server.acquire]
    rw [Server.startTcp, ho]
    dsimp only
    cases endpoint (withoutScheme "tcp://" surl.toList) with
    | none =>
      refine ⟨_, rfl, ?_⟩
      exact .of_idle ((hkept.OnState "Invalid Address" true).dropTcp rfl) false (.inl rfl)
    | some e =>
      obtain ⟨ip, port⟩ := e
      have hused := hkept.use hmem (.Connect ip port)
      cases hc : o.connected with
      | false =>
        refine ⟨_, rfl, ?_⟩
        exact .of_idle ((hused.OnState "TCP Not Connected" true).dropTcp rfl) false (.inl rfl)
      | true =>
        refine ⟨_, rfl, ?_⟩
        exact .of_kept ((hused.use hmem .SetNonBlocking).OnState "TCP Connected" false) hmem id

/-- A TCP client gets the socket that it asks for. -/
def Call.Connectable : Call → Prop
  | .start _ Protocol o => c_str Protocol = "TCP Client" → o.tcp = true
  | _ => True

theorem Kept.startConnector {s : Server} (h : Kept s) {k : Nat} (hk : s.mServer = some k)
    (surl : String) (o : Outcome) {unheard : Prop} (hnot : ¬ unheard) :
    ∃ r, s.startConnector k surl o = some r ∧ Started r unheard := by
  have hmem : k ∈ s.owned := by simp [Server.owned, hk]
  have hused := (h.use hmem .setFunc).use hmem (.start surl)
  rw [Server.startConnector]
  cases o.started with
  | none => exact ⟨_, rfl, .of_kept hused hmem hnot⟩
  | some err =>
    obtain ⟨t, ht, hidle⟩ := (hused.OnState err true).stop
    refine ⟨(false, t), ?_, .of_idle hidle false (.inl rfl)⟩
    dsimp only
    rw [ht, Option.bind_eq_bind, Option.bind_some]

theorem Kept.start {s : Server} (h : Kept s) (Url Protocol : String) (o : Outcome) :
    (¬ (Call.start Url Protocol o).Connectable → s.start Url Protocol o = none) ∧
      ((Call.start Url Protocol o).Connectable →
        ∃ r, s.start Url Protocol o = some r ∧ Started r (Unheard Url Protocol)) := by
  obtain ⟨t, ht, hidle⟩ := h.stop
  rw [Server.start, ht, Option.bind_eq_bind, Option.bind_some]
  dsimp only
  rw [makeConnector_eq]
  cases hconn : connectorOf (c_str Protocol) with
  | some r =>
    have hne : c_str Protocol ≠ "TCP Client" := by
      intro heq
      rw [heq, show connectorOf "TCP Client" = none by decide] at hconn
      cases hconn
    refine ⟨fun hnot => absurd (fun heq => absurd heq hne) hnot, fun _ => ?_⟩
    rw [Option.map_some, Option.getD_some]
    have hnot : ¬ Unheard Url Protocol := fun hu => Option.some_ne_none r (hconn.symm.trans hu.1)
    exact (hidle.connector r).startConnector rfl (c_str Url) o hnot
  | none =>
    rw [Option.map_none, Option.getD_none, hidle.server]
    dsimp only
    by_cases hudp : c_str Protocol = "UDP Server"
    · have hne : c_str Protocol ≠ "TCP Client" := by
        rw [hudp]
        decide
      refine ⟨fun hnot => absurd (fun heq => absurd heq hne) hnot, fun _ => ⟨_, if_pos hudp, ?_⟩⟩
      have hstarted := hidle.startUdp (c_str Url) o
      refine ⟨hstarted.kept, hstarted.owned.trans (or_congr_right ?_)⟩
      exact ⟨fun hend => ⟨hconn, hne, fun _ => hend⟩, fun hu => hu.2.2 hudp⟩
    · rw [if_neg hudp]
      by_cases htcp : c_str Protocol = "TCP Client"
      · rw [if_pos htcp]
        obtain ⟨hnone, hsome⟩ := hidle.startTcp (c_str Url) o
        refine ⟨fun hnot => hnone ?_, fun ho => ?_⟩
        · rw [← Bool.not_eq_true]
          exact fun ho => hnot fun _ => ho
        · obtain ⟨r, hr, hstarted⟩ := hsome (ho htcp)
          refine ⟨r, hr, hstarted.kept, hstarted.owned.trans (or_congr_right ?_)⟩
          exact iff_of_false id fun hu => hu.2.1 htcp
      · rw [if_neg htcp]
        refine ⟨fun hnot => absurd (fun heq => absurd heq htcp) hnot, fun _ => ⟨_, rfl, ?_⟩⟩
        exact .of_idle hidle true (.inr ⟨hconn, htcp, fun heq => absurd heq hudp⟩)

/-! ### Runs -/

theorem Kept.tick {s : Server} (h : Kept s) (recvs : Nat) : Kept (s.tick recvs) := by
  rw [Server.tick]
  cases hk : s.mTcp with
  | none => exact h
  | some k =>
    dsimp only
    induction List.replicate recvs Usage.Recv generalizing s with
    | nil => exact h
    | cons u us ih =>
      have hmem : k ∈ s.owned := by simp [Server.owned, hk]
      exact ih (h.use hmem u) hk

theorem Kept.write {s : Server} (h : Kept s) (written : Bool) : Kept (s.write written).2 := by
  rw [Server.write]
  cases hk : s.mServer with
  | none => exact h
  | some k =>
    have hmem : k ∈ s.owned := by simp [Server.owned, hk]
    exact h.use hmem .write

theorem Kept.call {s : Server} (h : Kept s) (c : Call) :
    (¬ c.Connectable → s.call c = none) ∧
      (c.Connectable → ∃ r, s.call c = some r ∧ Kept r.2) := by
  cases c with
  | start Url Protocol o =>
    obtain ⟨hnone, hsome⟩ := h.start Url Protocol o
    refine ⟨hnone, fun hc => ?_⟩
    obtain ⟨r, hr, hstarted⟩ := hsome hc
    exact ⟨r, hr, hstarted.kept⟩
  | stop =>
    refine ⟨fun hc => absurd trivial hc, fun _ => ?_⟩
    obtain ⟨t, ht, hidle⟩ := h.stop
    refine ⟨(true, t), ?_, hidle.kept⟩
    rw [Server.call, ht, Option.bind_eq_bind, Option.bind_some]
  | write written => exact ⟨fun hc => absurd trivial hc, fun _ => ⟨_, rfl, h.write written⟩⟩
  | tick recvs => exact ⟨fun hc => absurd trivial hc, fun _ => ⟨_, rfl, h.tick recvs⟩⟩

theorem kept_empty : Kept {} := Idle.kept ⟨⟨[], balanced_nil, rfl⟩, rfl, rfl, rfl, rfl⟩

theorem kept_run {calls : List Call} {os : List Bool} {s : Server}
    (h : run call {} calls = some (os, s)) : Kept s := by
  refine run_invariant (P := Kept) (fun s c r hs hr => ?_) kept_empty h
  obtain ⟨hnone, hsome⟩ := hs.call c
  by_cases hc : c.Connectable
  · obtain ⟨r', hr', hkept⟩ := hsome hc
    rw [hr] at hr'
    cases hr'
    exact hkept
  · rw [hnone hc] at hr
    cases hr

/-- All that is asked for is had. -/
def allWell : Outcome := ⟨none, true, true, true⟩

/-- UDP has given way to TCP. -/
def udpThenTcp : Server where
  mTcp := some 8
  dealings := [.acquired 0 (.udp "0.0.0.0".toList "9000".toList), .acquired 1 .FUdpSocketReceiver,
    .used 1 .BindLambda, .used 1 .Start, .used 1 .Stop, .released 1, .used 0 .Close, .released 0,
    .acquired 8 .tcp, .used 8 (.Connect "10.0.0.1".toList "7000".toList), .used 8 .SetNonBlocking]
  notices := [("TCP Connected", false)]

end Server

end Open3DStream.Unreal
