import Open3DStream.Evaluate

namespace Open3DStream

open Numeric

structure TimeEnvelope where
  version : UInt8 := 0
  clockDomain : UInt8 := 0
  clockInstance : UInt16 := 0
  ns : UInt64 := 0
  quality : UInt8 := 2
  source : UInt8 := 0
  restampReason : UInt8 := 0
  hasDeviceTime : Bool := false
  deviceInstance : UInt16 := 0
  deviceNs : UInt64 := 0
  hasTimecode : Bool := false
  timecodeKind : UInt8 := 0
  timecodeInstance : UInt16 := 0
  timecodeNs : UInt64 := 0
  hasSmpte : Bool := false
  hours : UInt8 := 0
  minutes : UInt8 := 0
  seconds : UInt8 := 0
  frames : UInt16 := 0
  subframe : UInt16 := 0
  subframes : UInt16 := 0
  rateCode : UInt8 := 0
  dropFrame : Bool := false
  rateNum : Int32 := 0
  rateDen : Int32 := 0
deriving DecidableEq

structure SubjectList (α β : Type) where
  mItems : List (Subject α β)
  mTime : α
  mTimecode : String
  mTimeEnvelope : TimeEnvelope
  mDeltaThreshold : α
  mError : String
  mContext : Context
  conversion : Option ConversionContext

variable {α β : Type} [Numeric α β]

/-- The default constructor; `threshold` is its initial delta threshold. -/
def SubjectList.empty (threshold : α) : SubjectList α β :=
  ⟨[], 0, "", {}, threshold, "", Context.unknown, none⟩

/-! ### Looking up subjects -/

/-- The search stops at the first subject with the uuid, whatever its type. -/
def findSubjectByUuid (T : SubjectKind) (uuid : String) : List (Subject α β) → Option Nat
  | [] => none
  | s :: rest =>
    if s.mUuid = uuid then (if s.kind = T then some 0 else none)
    else (findSubjectByUuid T uuid rest).map (· + 1)

def findOrAddSubject (T : SubjectKind) (uuid : String) (items : List (Subject α β)) :
    List (Subject α β) × Nat :=
  match findSubjectByUuid T uuid items with
  | some k => (items, k)
  | none => (items ++ [Subject.make T uuid], items.length)

/-- Run a step that may read an absent field on the subject at an index. -/
def modifyAt (items : List (Subject α β)) (k : Nat) (f : Subject α β → Option (Subject α β)) :
    Option (List (Subject α β)) := do
  let s ← items[k]?
  let s' ← f s
  some (items.set k s')

/-! ### Serialization -/

/-- The six vectors of the root table. -/
structure Sections (β : Type) where
  performers : List (Data.Performer β) := []
  performerUpdates : List (Data.PerformerUpdate β) := []
  rigidbodies : List (Data.Rigidbody β) := []
  rigidbodyUpdates : List (Data.RigidbodyUpdate β) := []
  cameras : List (Data.Camera β) := []
  cameraUpdates : List (Data.CameraUpdate β) := []

def cameraData (lens : Lens β) (data : Data.SubjectData β) : Data.Camera β :=
  ⟨some data, lens.filmBackWidth, lens.filmBackHeight, floatZero α⟩

def cameraUpdateData (lens : Lens β) (data : Data.SubjectUpdate β) : Data.CameraUpdate β :=
  ⟨some data, lens.focalLength, lens.focusDistance, lens.aperture⟩

/-- The loop of `serialize`: each enabled subject writes its definition and then an
update against the values just marked as sent. -/
def serializeItems (threshold : α) :
    List (Subject α β) → Sections β × List (Subject α β)
  | [] => ({}, [])
  | s :: rest =>
    let (out, rest') := serializeItems threshold rest
    if !s.mEnabled then (out, s :: rest')
    else
      let (data, s₁) := s.serialize
      let (update, _, s₂) := s₁.serializeUpdate threshold
      match s.derived with
      | .camera lens =>
        ({ out with cameras := cameraData (α := α) lens data :: out.cameras
                    cameraUpdates := cameraUpdateData lens update :: out.cameraUpdates }, s₂ :: rest')
      | .performer =>
        ({ out with performers := ⟨some data⟩ :: out.performers
                    performerUpdates := ⟨some update⟩ :: out.performerUpdates }, s₂ :: rest')
      | .rigidbody =>
        ({ out with rigidbodies := ⟨some data⟩ :: out.rigidbodies
                    rigidbodyUpdates := ⟨some update⟩ :: out.rigidbodyUpdates }, s₂ :: rest')

/-- The loop of `serializeUpdate`, with the number of entries it counts. -/
def updateItems (threshold : α) :
    List (Subject α β) → Sections β × Nat × List (Subject α β)
  | [] => ({}, 0, [])
  | s :: rest =>
    let (out, count, rest') := updateItems threshold rest
    if !s.mEnabled then (out, count, s :: rest')
    else
      let (update, n, s') := s.serializeUpdate threshold
      match s.derived with
      | .camera lens =>
        ({ out with cameraUpdates := cameraUpdateData lens update :: out.cameraUpdates },
          n + count, s' :: rest')
      | .performer =>
        ({ out with performerUpdates := ⟨some update⟩ :: out.performerUpdates },
          n + count, s' :: rest')
      | .rigidbody =>
        ({ out with rigidbodyUpdates := ⟨some update⟩ :: out.rigidbodyUpdates },
          n + count, s' :: rest')

def writeDirection : Direction → Int
  | .Left => 1
  | .Right => 2
  | .Forward => 3
  | .Back => 4
  | .Up => 5
  | .Down => 6
  | .Unknown | .Last => 0

def readDirection (d : Int) : Direction :=
  if d = 1 then .Left
  else if d = 2 then .Right
  else if d = 3 then .Forward
  else if d = 4 then .Back
  else if d = 5 then .Up
  else if d = 6 then .Down
  else .Unknown

def writeUnit : DistanceUnit → Int
  | .Millimeter => 1
  | .Centimeter => 2
  | .Meter => 3
  | .Kilometer => 4
  | .Inch => 5
  | .Foot => 6
  | .Mile => 7
  | .LightYear => 8
  | .Parsec => 9
  | .Unknown | .other _ => 0

/-- `parse` casts the code to the enumeration without checking it. -/
def readUnit (d : Int) : DistanceUnit :=
  if d = 0 then .Unknown
  else if d = 1 then .Millimeter
  else if d = 2 then .Centimeter
  else if d = 3 then .Meter
  else if d = 4 then .Kilometer
  else if d = 5 then .Inch
  else if d = 6 then .Foot
  else if d = 7 then .Mile
  else if d = 8 then .LightYear
  else if d = 9 then .Parsec
  else .other d

/-- Version 0 writes none of the envelope fields. -/
def writeEnvelope (env : TimeEnvelope) : Data.TimeFields :=
  if env.version ≠ 0 then
    { time_version := env.version
      clock_domain := env.clockDomain
      clock_instance := env.clockInstance
      time_ns := env.ns
      time_quality := env.quality
      time_source := env.source
      restamp_reason := env.restampReason
      has_device_time := env.hasDeviceTime
      device_instance := env.deviceInstance
      device_ns := env.deviceNs
      has_timecode := env.hasTimecode
      timecode_kind := env.timecodeKind
      timecode_instance := env.timecodeInstance
      timecode_ns := env.timecodeNs
      has_smpte := env.hasSmpte
      tc_hours := env.hours
      tc_minutes := env.minutes
      tc_seconds := env.seconds
      tc_frames := env.frames
      tc_subframe := env.subframe
      tc_subframes := env.subframes
      rate_code := env.rateCode
      drop_frame := env.dropFrame
      rate_num := env.rateNum
      rate_den := env.rateDen }
  else {}

def readEnvelope (f : Data.TimeFields) : TimeEnvelope :=
  if f.time_version ≠ 0 then
    { version := f.time_version
      clockDomain := f.clock_domain
      clockInstance := f.clock_instance
      ns := f.time_ns
      quality := f.time_quality
      source := f.time_source
      restampReason := f.restamp_reason
      hasDeviceTime := f.has_device_time
      deviceInstance := f.device_instance
      deviceNs := f.device_ns
      hasTimecode := f.has_timecode
      timecodeKind := f.timecode_kind
      timecodeInstance := f.timecode_instance
      timecodeNs := f.timecode_ns
      hasSmpte := f.has_smpte
      hours := f.tc_hours
      minutes := f.tc_minutes
      seconds := f.tc_seconds
      frames := f.tc_frames
      subframe := f.tc_subframe
      subframes := f.tc_subframes
      rateCode := f.rate_code
      dropFrame := f.drop_frame
      rateNum := f.rate_num
      rateDen := f.rate_den }
  else {}

/-- `createRoot` for a full packet (`definitions` set) or an update packet. -/
def createRoot (definitions : Bool) (out : Sections β) (timestamp : α) (timecode : String)
    (context : Context) (env : TimeEnvelope) : Data.SubjectList α β where
  performers := if definitions then some out.performers else none
  performer_updates := some out.performerUpdates
  rigidbodies := if definitions then some out.rigidbodies else none
  rigidbody_updates := some out.rigidbodyUpdates
  cameras := if definitions then some out.cameras else none
  camera_updates := some out.cameraUpdates
  time := timestamp
  timecode := some timecode
  x_axis := writeDirection context.mX
  y_axis := writeDirection context.mY
  z_axis := writeDirection context.mZ
  distance_unit := writeUnit context.mDistance
  envelope := writeEnvelope env

/-- The scan of `allFinite` stops at the first subject that fails. -/
def allFiniteItems : List (Subject α β) → Option String × List (Subject α β)
  | [] => (none, [])
  | s :: rest =>
    let (ok, s') := s.allFinite
    if !ok then (some s'.mError, s' :: rest)
    else
      let (e, rest') := allFiniteItems rest
      (e, s' :: rest')

namespace SubjectList

def allFinite (l : SubjectList α β) : Bool × SubjectList α β :=
  match allFiniteItems l.mItems with
  | (some e, items) => (false, { l with mItems := items, mError := e })
  | (none, items) => (true, { l with mItems := items })

/-- The root table of a full packet; `now` is what `GetTime` returns. -/
def serializeRoot (l : SubjectList α β) (timestamp : α) (timecode : String) (now : α) :
    Option (Data.SubjectList α β) × SubjectList α β :=
  let (ok, l) := l.allFinite
  if !ok then (none, l)
  else
    let timestamp := if timestamp = 0 then now else timestamp
    let (out, items) := serializeItems l.mDeltaThreshold l.mItems
    (some (createRoot true out timestamp timecode l.mContext l.mTimeEnvelope),
      { l with mItems := items })

def serializeUpdateRoot (l : SubjectList α β) (timestamp : α) (timecode : String) (now : α) :
    Option (Data.SubjectList α β) × Nat × SubjectList α β :=
  let (ok, l) := l.allFinite
  if !ok then (none, 0, l)
  else
    let timestamp := if timestamp = 0 then now else timestamp
    let (out, count, items) := updateItems l.mDeltaThreshold l.mItems
    (some (createRoot false out timestamp timecode l.mContext l.mTimeEnvelope), count,
      { l with mItems := items })

end SubjectList

/-! ### Parsing -/

def readContext (root : Data.SubjectList α β) : Context :=
  ⟨readDirection root.x_axis, readDirection root.y_axis, readDirection root.z_axis,
    readUnit root.distance_unit⟩

/-- A loop over definitions: `data` and `uuid` are read without a null check. -/
def parseDefinitions {δ : Type} (T : SubjectKind) (body : δ → Option (Data.SubjectData β))
    (finish : δ → Subject α β → Subject α β) :
    List δ → List (Subject α β) → Option (List (Subject α β))
  | [], items => some items
  | d :: ds, items => do
    let data ← body d
    let uuid ← data.uuid
    let (items, k) := findOrAddSubject T uuid items
    let items ← modifyAt items k fun s => (s.parse data).map (finish d)
    parseDefinitions T body finish ds items

/-- A loop over updates; an unknown uuid is passed over. -/
def parseUpdates {δ : Type} (T : SubjectKind) (body : δ → Option (Data.SubjectUpdate β))
    (finish : δ → Subject α β → Subject α β) :
    List δ → List (Subject α β) → Option (List (Subject α β))
  | [], items => some items
  | d :: ds, items => do
    let data ← body d
    let uuid ← data.uuid
    match findSubjectByUuid T uuid items with
    | none => parseUpdates T body finish ds items
    | some k =>
      let items ← modifyAt items k fun s => (s.parseUpdate data).map (finish d)
      parseUpdates T body finish ds items

def readFilmBack (c : Data.Camera β) (s : Subject α β) : Subject α β :=
  match s.derived with
  | .camera lens =>
    let lens := { lens with filmBackWidth := c.filmback_width, filmBackHeight := c.filmback_height }
    { s with derived := .camera lens }
  | _ => s

def readLens (c : Data.CameraUpdate β) (s : Subject α β) : Subject α β :=
  match s.derived with
  | .camera lens =>
    let lens := { lens with
      focalLength := c.focal_length
      focusDistance := c.focus_distance
      aperture := c.aperture }
    { s with derived := .camera lens }
  | _ => s

def parsePerformers (ds : Option (List (Data.Performer β))) (items : List (Subject α β)) :
    Option (List (Subject α β)) :=
  parseDefinitions .performer (·.data) (fun _ s => s) (ds.getD []) items

def parsePerformerUpdates (ds : Option (List (Data.PerformerUpdate β)))
    (items : List (Subject α β)) : Option (List (Subject α β)) :=
  parseUpdates .performer (·.data) (fun _ s => s) (ds.getD []) items

def parseRigidbodies (ds : Option (List (Data.Rigidbody β))) (items : List (Subject α β)) :
    Option (List (Subject α β)) :=
  parseDefinitions .rigidbody (·.data) (fun _ s => s) (ds.getD []) items

def parseRigidbodyUpdates (ds : Option (List (Data.RigidbodyUpdate β)))
    (items : List (Subject α β)) : Option (List (Subject α β)) :=
  parseUpdates .rigidbody (·.data) (fun _ s => s) (ds.getD []) items

def parseCameras (ds : Option (List (Data.Camera β))) (items : List (Subject α β)) :
    Option (List (Subject α β)) :=
  parseDefinitions .camera (·.data) readFilmBack (ds.getD []) items

def parseCameraUpdates (ds : Option (List (Data.CameraUpdate β))) (items : List (Subject α β)) :
    Option (List (Subject α β)) :=
  parseUpdates .camera (·.data) readLens (ds.getD []) items

/-- The six loops of `parse` in their order. -/
def populate (root : Data.SubjectList α β) (items : List (Subject α β)) :
    Option (List (Subject α β)) := do
  let items ← parsePerformers root.performers items
  let items ← parsePerformerUpdates root.performer_updates items
  let items ← parseRigidbodies root.rigidbodies items
  let items ← parseRigidbodyUpdates root.rigidbody_updates items
  let items ← parseCameras root.cameras items
  parseCameraUpdates root.camera_updates items

/-- The scan of `SubjectList::calcMatrices` stops at the first subject that fails. -/
def calcItems (conv : Option ConversionContext) :
    List (Subject α β) → Option (Option String × List (Subject α β))
  | [] => some (none, [])
  | s :: rest => do
    let (ok, s') ← s.calcMatrices conv
    if !ok then some (some s'.mError, s' :: rest)
    else do
      let (e, rest') ← calcItems conv rest
      some (e, s' :: rest')

namespace SubjectList

def calcMatrices (l : SubjectList α β) : Option (Bool × SubjectList α β) := do
  match ← calcItems l.conversion l.mItems with
  | (some e, items) => some (false, { l with mItems := items, mError := e })
  | (none, items) => some (true, { l with mItems := items })

/-- The time fields are taken over before anything is checked. -/
def readTime (l : SubjectList α β) (root : Data.SubjectList α β) : SubjectList α β :=
  { l with
    mTime := root.time
    mTimecode := root.timecode.getD ""
    mTimeEnvelope := readEnvelope root.envelope }

/-- The first context is adopted, later ones are converted from. -/
def adoptContext (l : SubjectList α β) (sender : Context) : Bool × SubjectList α β :=
  if !l.mContext.valid then (true, { l with mContext := sender, conversion := none })
  else
    let c := ConversionContext.make sender l.mContext
    if !c.IsValid then
      (false, { l with conversion := some c, mError := "Invalid context conversion" })
    else (true, { l with conversion := some c.Initialize })

/-- The part of `parse` after verification. `none` is a read of an absent field or
past the end of `mMatrices`. -/
def parseRoot (l : SubjectList α β) (root : Data.SubjectList α β) (clearInactive : Bool) :
    Option (Bool × SubjectList α β) := do
  let (ok, l) := (l.readTime root).adoptContext (readContext root)
  if !ok then some (false, l)
  else do
    let l := if clearInactive then { l with mItems := [] } else l
    let items ← populate root l.mItems
    let (ok, l) := SubjectList.allFinite { l with mItems := items }
    if !ok then some (false, l)
    else l.calcMatrices

end SubjectList

end Open3DStream
