import Open3DStream.Lib.Partial
import Open3DStream.Mobu.Preview
import Open3DStream.Tcp.Send
import Open3DStream.Udp.Fragmenter

/-! What the MotionBuilder device hands to its transport. -/

namespace Open3DStream.Mobu

open Lib Numeric

inductive TProtocol where
  | kUDP | kTCPServer | kTCPClient | kNNGPipeline | kNNGPairClient | kNNGPairServer | kNNGPublish
deriving DecidableEq

/-- A call that takes bytes out of the device. -/
inductive Handover where
  | write (data : List UInt8)
  | WriteTcp (data : List UInt8)
  | sendto (datagram : List UInt8)
deriving DecidableEq

/-- `mTcpIp` is `none` for an invalid socket, and `mServer` is whether there is a connector. The
frame counter is taken to wrap. -/
structure Device (α β : Type) where
  Items : SubjectList α β
  ItemsTest : SubjectList α β
  mTcpIp : Option TcpSocket
  mServer : Bool
  mNetworkSocket : Int
  mClients : List TcpSocket
  mProtocol : TProtocol
  mFrameCounter : Int32
  mIdSeq : UInt32
  Status : String

/-- What a write notification finds: the scene, the times, a client that asks for a connection,
whether the network address is one, and what each `sendto` returns. -/
structure Notification (α : Type) where
  scene : Nat → Nat → Vector3d α × Quaterniond α × Vector3d α
  MobuTime : α
  now : α
  Accept : Except String (Option TcpSocket)
  inet_pton : Bool
  sendto : Nat → Int

variable {α β : Type}

/-- `SubjectList::update` of the plugin's transforms. -/
def update (scene : Nat → Nat → Vector3d α × Quaterniond α × Vector3d α)
    (Items : SubjectList α β) : SubjectList α β :=
  let items := Items.mItems.mapIdx fun i s =>
    { s with mTransforms := s.mTransforms.mapIdx fun j t =>
        let (Translation, Rotation, Scaling) := scene i j
        posed Translation Rotation Scaling t }
  { Items with mItems := items }

/-- The loop over the clients; one that takes nothing is dropped. -/
def writeClients (data : List UInt8) (bucketSize : UInt32) :
    List TcpSocket → String → List Handover × List TcpSocket × String
  | [], Status => ([], [], Status)
  | client :: rest, Status =>
    let (written, s, error) := client.WriteTcp data bucketSize
    let (handed, mClients, Status) := writeClients data bucketSize rest (error.getD Status)
    (.WriteTcp data :: handed, if written ≠ 0 then s :: mClients else mClients, Status)

namespace Device

def Valid (d : Device α β) : Bool := d.mTcpIp.any (·.connected)

/-- What `DeviceIONotify` does with a buffer and its size. `none` is an exception that nothing
catches, or a read past the end of the buffer. -/
def transport (d : Device α β) (n : Notification α) (buf : List UInt8) (bucketSize : Nat) :
    Option (List Handover × Device α β) :=
  let data := buf.take bucketSize
  match d.mProtocol with
  | .kTCPServer =>
    match n.Accept with
    | .error _ => none
    | .ok newSocket =>
      let (handed, mClients, Status) :=
        writeClients data (.ofNat bucketSize) (d.mClients ++ newSocket.toList) d.Status
      some (handed, { d with mClients := mClients, Status := Status })
  | .kTCPClient =>
    match d.mTcpIp with
    | none => some ([], d)
    | some mTcpIp =>
      if !d.Valid then some ([], d)
      else
        let (written, mTcpIp, error) := mTcpIp.WriteTcp data (.ofNat bucketSize)
        let Status := if written = 0 then "TCP Disconnected" else error.getD d.Status
        some ([.WriteTcp data], { d with mTcpIp := some mTcpIp, Status := Status })
  | .kUDP =>
    if !n.inet_pton then some ([], { d with Status := "UDP ERROR" })
    else do
      let mIdSeq := d.mIdSeq + 1
      let frag ← UdpFragmenter.make data 512
      let fragData ← (List.range frag.mFrames).mapM fun i => frag.makeFragment mIdSeq (.ofNat i)
      let sentSz := ((List.range frag.mFrames).map n.sendto).sum % 18446744073709551616
      let Status := toString frag.mFrames ++ "/" ++ toString sentSz ++ " bytes"
      some (fragData.map .sendto, { d with mIdSeq := mIdSeq, Status := Status })
  | .kNNGPairClient | .kNNGPairServer | .kNNGPublish | .kNNGPipeline =>
    some (if d.mServer then [.write data] else [],
      { d with Status := toString bucketSize ++ " bytes" })

end Device

variable [Numeric α β] [Wire α β]

/-- The packet of a list whose values have been checked. -/
def encode (Items : SubjectList α β) (keyframe : Bool) (time now : α) :
    Option (List UInt8) × SubjectList α β :=
  if keyframe then Items.serialize time "" now
  else
    let (buf, _, Items) := Items.serializeUpdate time "" now
    (buf, Items)

theorem writeFrame_eq (Items : SubjectList α β) (keyframe : Bool) (time now : α) :
    writeFrame Items keyframe time now =
      if Items.allFinite.1 = true then encode Items.allFinite.2 keyframe time now
      else (none, Items.allFinite.2) := by
  rw [writeFrame]
  generalize Items.allFinite = r
  obtain ⟨ok, Items⟩ := r
  cases ok <;> rfl

namespace Device

/-- A write notification, with what is handed to the transport. -/
def DeviceIONotify (d : Device α β) (n : Notification α) :
    Option (List Handover × Device α β) :=
  if d.mNetworkSocket = -1 then some ([], d)
  else
    let (ok, Items) := (update n.scene d.Items).allFinite
    if !ok then some ([], { d with Items := Items, Status := "Invalid: " ++ Items.mError })
    else
      let (buf, Items) := encode Items (d.mFrameCounter = 0) n.MobuTime n.now
      let d := { d with Items := Items, mFrameCounter := d.mFrameCounter + 1 }
      -- the size is the `bool` that the serialization returns
      let bucketSize := buf.isSome.toNat
      let buf := buf.getD []
      if bucketSize = 0 then some ([], { d with Status := "No Data " ++ Items.mError })
      else do
        let (ok, ItemsTest) ← d.ItemsTest.parse (some (buf.take bucketSize)) false
        let d := { d with ItemsTest := ItemsTest }
        if !ok then some ([], { d with Status := "Error: " ++ ItemsTest.mError })
        else
          let d := { d with mFrameCounter := if 100 < d.mFrameCounter then 0 else d.mFrameCounter }
          if bucketSize = 0 then some ([], { d with Status := "Buffer Error" })
          else d.transport n buf bucketSize

/-- The buffer that a notification writes. -/
def produced (d : Device α β) (n : Notification α) : Option (List UInt8) :=
  if d.mNetworkSocket = -1 then none
  else (writeFrame (update n.scene d.Items) (d.mFrameCounter = 0) n.MobuTime n.now).1

/-- The clients there are once a new one has been accepted. -/
def clients (d : Device α β) (n : Notification α) : List TcpSocket :=
  match n.Accept with
  | .error _ => []
  | .ok newSocket => d.mClients ++ newSocket.toList

/-- What is handed over is the buffer: to the connector, to every client, or in datagrams that
make it up and whose headings tell its size. -/
def Carries (d : Device α β) (n : Notification α) (buf : List UInt8) (handed : List Handover) :
    Prop :=
  match d.mProtocol with
  | .kTCPServer => handed = (d.clients n).map fun _ => .WriteTcp buf
  | .kTCPClient => handed = if d.Valid then [.WriteTcp buf] else []
  | .kUDP => if n.inet_pton then ∃ datagrams : List (List UInt8), handed = datagrams.map .sendto ∧
      datagrams.flatMap (·.drop headerSize) = buf ∧
      ∀ x ∈ datagrams, (heading x).bufSz.toNat = buf.length
    else handed = []
  | .kNNGPairClient | .kNNGPairServer | .kNNGPublish | .kNNGPipeline =>
    handed = if d.mServer then [.write buf] else []

/-- There is nobody to hand a buffer to. -/
def Unheard (d : Device α β) (n : Notification α) : Prop :=
  match d.mProtocol with
  | .kTCPServer => d.clients n = []
  | .kTCPClient => d.Valid = false
  | .kUDP => n.inet_pton = false
  | .kNNGPairClient | .kNNGPairServer | .kNNGPublish | .kNNGPipeline => d.mServer = false

omit [Numeric α β] [Wire α β] in
theorem carries_nil_iff (d : Device α β) (n : Notification α) {buf : List UInt8} (h : buf ≠ []) :
    d.Carries n buf [] ↔ d.Unheard n := by
  have hone (b : Bool) (x : Handover) : [] = (if b then [x] else []) ↔ b = false := by
    cases b <;> simp
  rw [Carries, Unheard]
  cases d.mProtocol with
  | kTCPServer => exact eq_comm.trans List.map_eq_nil_iff
  | kUDP =>
    cases n.inet_pton with
    | false => simp
    | true =>
      simp only [if_true, Bool.true_eq_false, iff_false]
      rintro ⟨datagrams, hnil, hconcat, -⟩
      apply h
      rw [← hconcat, List.map_eq_nil_iff.mp hnil.symm, List.flatMap_nil]
  | kTCPClient => exact hone _ _
  | kNNGPipeline => exact hone _ _
  | kNNGPairClient => exact hone _ _
  | kNNGPairServer => exact hone _ _
  | kNNGPublish => exact hone _ _

omit [Numeric α β] [Wire α β] in
theorem writeClients_handed (data : List UInt8) (bucketSize : UInt32) (mClients : List TcpSocket)
    (Status : String) : (writeClients data bucketSize mClients Status).1 =
      mClients.map fun _ => .WriteTcp data := by
  induction mClients generalizing Status with
  | nil => rfl
  | cons client rest ih => exact congrArg (.WriteTcp data :: ·) (ih _)

omit [Numeric α β] [Wire α β] in
/-- With the size of the buffer, every transport is handed the buffer. -/
theorem transport_carries (d : Device α β) {n : Notification α} {buf : List UInt8} (h : buf ≠ [])
    (hlength : buf.length < 2147483648) (haccept : ∀ e, n.Accept ≠ .error e) :
    ∃ r, d.transport n buf buf.length = some r ∧ d.Carries n buf r.1 := by
  rw [transport, List.take_length]
  unfold Carries
  cases d.mProtocol with
  | kTCPServer =>
    rw [clients]
    cases hn : n.Accept with
    | error e => exact absurd hn (haccept e)
    | ok newSocket => exact ⟨_, rfl, writeClients_handed _ _ _ _⟩
  | kTCPClient =>
    cases hs : d.mTcpIp with
    | none =>
      have hv : d.Valid = false := by simp [Valid, hs]
      exact ⟨_, rfl, by simp [hv]⟩
    | some mTcpIp => cases hv : d.Valid <;> simp
  | kUDP =>
    cases n.inet_pton with
    | false => simp
    | true =>
      let f : Frame := ⟨d.mIdSeq + 1, buf, 512, List.length_pos_iff.mpr h, by decide, by decide,
        by omega, by omega⟩
      have hmake : UdpFragmenter.make buf 512 = some ⟨512, buf, buf.length, f.count⟩ := f.make_eq
      have hdatagrams := f.datagrams_eq
      have hdatagram : f.datagram = fun i =>
          UdpFragmenter.makeFragment ⟨512, buf, buf.length, f.count⟩ (d.mIdSeq + 1) (.ofNat i) := by
        funext i
        rw [Frame.datagram, f.make_eq]
        rfl
      rw [hdatagram] at hdatagrams
      simp only [Bool.not_true, Bool.false_eq_true, if_false, if_true, hmake, hdatagrams,
        Option.bind_eq_bind, Option.bind_some]
      refine ⟨_, rfl, _, rfl, ?_, ?_⟩
      · rw [List.flatMap_map]
        simp only [Heading.drop_bytes]
        exact f.flatMap_part
      · intro x hx
        obtain ⟨seq, -, rfl⟩ := List.mem_map.mp hx
        rw [heading_bytes]
        exact f.toNat_length
  | kNNGPipeline => exact ⟨_, rfl, rfl⟩
  | kNNGPairClient => exact ⟨_, rfl, rfl⟩
  | kNNGPairServer => exact ⟨_, rfl, rfl⟩
  | kNNGPublish => exact ⟨_, rfl, rfl⟩

/-- The check is given one byte, and never gets past it. -/
theorem DeviceIONotify_handed (d : Device α β) (n : Notification α) :
    ∃ d', d.DeviceIONotify n = some ([], d') := by
  have hshort (buf : List UInt8) : (buf.take 1).length < 8 :=
    Nat.lt_of_le_of_lt (List.length_take_le 1 buf) (by decide)
  rw [DeviceIONotify]
  split
  · exact ⟨_, rfl⟩
  · generalize (update n.scene d.Items).allFinite = checked
    obtain ⟨ok, Items⟩ := checked
    cases ok with
    | false => exact ⟨_, rfl⟩
    | true =>
      dsimp only
      generalize encode Items _ n.MobuTime n.now = encoded
      obtain ⟨buf, Items⟩ := encoded
      cases buf with
      | none => exact ⟨_, rfl⟩
      | some buf =>
        have hparse := parse_short d.ItemsTest (hshort buf) false
        simp [hparse]

/-- The whole buffer is one that the device's own check takes. -/
def Acceptable (d : Device α β) (buf : List UInt8) : Prop :=
  ∃ l, d.ItemsTest.parse (some buf) false = some (true, l)

/-- What is handed over is the buffer. -/
def Transmits (d : Device α β) (n : Notification α) : Prop :=
  ∀ buf ∈ d.produced n, d.Acceptable buf →
    ∃ handed d', d.DeviceIONotify n = some (handed, d') ∧ d.Carries n buf handed

/-- There is nobody to hand the buffer to. -/
def Idle (d : Device α β) (n : Notification α) : Prop :=
  ∀ buf ∈ d.produced n, d.Acceptable buf → d.Unheard n

theorem Acceptable.ne_nil {d : Device α β} {buf : List UInt8} (h : d.Acceptable buf) : buf ≠ [] := by
  rintro rfl
  obtain ⟨l, hl⟩ := h
  rw [parse_short d.ItemsTest (by decide : ([] : List UInt8).length < 8)] at hl
  cases hl

theorem transmits_iff (d : Device α β) (n : Notification α) : d.Transmits n ↔ d.Idle n := by
  obtain ⟨d', hd'⟩ := d.DeviceIONotify_handed n
  apply forall_congr'
  intro buf
  refine imp_congr_right fun _ => imp_congr_right fun ha => ?_
  rw [hd', ← d.carries_nil_iff n ha.ne_nil]
  simp

/-- Every run goes through, and hands on what it writes exactly if, whenever it writes something,
there is nobody to hand it to. -/
theorem each_transmits_iff (d : Device α β) (ns : List (Notification α)) :
    (∃ os e, run DeviceIONotify d ns = some (os, e)) ∧
      (Each DeviceIONotify Transmits d ns ↔ Each DeviceIONotify Idle d ns) := by
  refine ⟨?_, each_congr transmits_iff ns⟩
  have hstep (d : Device α β) (n : Notification α) (_ : True) (_ : True) :
      ∃ r, d.DeviceIONotify n = some r ∧ True := by
    obtain ⟨d', hd'⟩ := d.DeviceIONotify_handed n
    exact ⟨_, hd', trivial⟩
  obtain ⟨⟨os, e⟩, hrun, -⟩ := Each.run_isSome hstep (s := d) trivial (each_true ns)
  exact ⟨os, e, hrun⟩

end Device

/-- A device that has one performer to send over a pipeline. -/
def pipeline : Device Extended Extended where
  Items := jointItems
  ItemsTest := freshList
  mTcpIp := none
  mServer := true
  mNetworkSocket := 3
  mClients := []
  mProtocol := .kNNGPipeline
  mFrameCounter := 0
  mIdSeq := 0
  Status := "Running"

/-- The performer is at rest. -/
def atRest : Notification Extended where
  scene _ _ := (⟨(0 : ℚ), (0 : ℚ), (0 : ℚ)⟩, Quaterniond.identity, ⟨(1 : ℚ), (1 : ℚ), (1 : ℚ)⟩)
  MobuTime := (5 : ℚ)
  now := (1 : ℚ)
  Accept := .ok none
  inet_pton := true
  sendto _ := 0

/-- A keyframe that is never handed to the pipeline. -/
theorem keyframe_withheld : ¬Each Device.DeviceIONotify Device.Transmits pipeline [atRest] := by
  obtain ⟨buf, l₀, r₀, hs, hr, -⟩ :=
    parse_serialize sendable_jointItems (by decide : ((5 : ℚ) : Extended) ≠ 0) "" (1 : ℚ) _ false
  obtain ⟨hfinite, hbuf, -⟩ := SubjectList.serialize_some hs
  intro h
  have hwritten : pipeline.produced atRest = some buf := by
    change (writeFrame jointItems true (5 : ℚ) (1 : ℚ)).1 = some buf
    rw [writeFrame_keyframe hfinite, hbuf]
  have hidle := (pipeline.transmits_iff atRest).mp h.1 buf hwritten ⟨r₀, hr⟩
  exact Bool.noConfusion (hidle : true = false)

end Open3DStream.Mobu
