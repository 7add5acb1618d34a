import Mathlib.Algebra.Order.Ring.Rat
import Mathlib.Data.List.AList
import Open3DStream.Lib.Partial
import Open3DStream.Lib.Presence
import Open3DStream.SubjectList

/-! The Live Link source of the Unreal plugin: what it tells its client of the subjects it
receives. -/

namespace Open3DStream.Unreal

open Lib

variable {α β FName FMatrix FTransform FFrameTime : Type}

/-- What the source calls of the engine, and of the library it is built with. -/
structure Engine (α β FName FMatrix FTransform FFrameTime : Type) where
  Parse : SubjectList α β → List UInt8 → Option (Bool × SubjectList α β)
  nan : Transform α → Bool
  toFName : String → FName
  toFMatrix : Matrix α → FMatrix
  rot : FMatrix
  mul : FMatrix → FMatrix → FMatrix
  Mirror : FMatrix → FMatrix
  Inverse : FMatrix → FMatrix
  SetFromMatrix : FMatrix → FTransform
  ContainsNaN : FTransform → Bool
  AsFrameTime : α → FFrameTime

structure FLiveLinkSkeletonStaticData (FName : Type) where
  BoneNames : List FName
  BoneParents : List Int

structure FLiveLinkAnimationFrameData (FTransform FFrameTime : Type) where
  WorldTime : ℚ
  FrameId : Int32
  SceneTime : FFrameTime
  Transforms : List FTransform

/-- The calls of the client, and the searches for inactive subjects. The keys of one source
differ in the name of the subject only. -/
abbrev Tidings (FName FTransform FFrameTime : Type) : Type :=
  List (Tiding FName (FLiveLinkSkeletonStaticData FName)
    (FLiveLinkAnimationFrameData FTransform FFrameTime) ℚ)

/-- `Client` and `OnData` are whether the client is there and the delegate is bound. -/
structure FOpen3DStreamSource (α β FName FTransform FFrameTime : Type) where
  mSubjects : SubjectList α β
  Client : Bool
  OnData : Bool
  bIsValid : Bool
  Protocol : String
  SourceStatus : String
  LogFlag : Bool
  Frame : Int32
  InitializedSubjects : List FName
  SubjectLastUpdateTime : AList fun _ : FName => ℚ
  TimeSinceLastCheck : ℚ
  tidings : Tidings FName FTransform FFrameTime

/-- What is left of a string when it is handed over as `c_str`. -/
def c_str (s : String) : String := .ofList (s.toList.takeWhile (· ≠ '\x00'))

/-- `rfind` of a colon, and `erase` of all up to there. -/
def eraseNamespace (name : String) : String :=
  .ofList (name.toList.reverse.takeWhile (· ≠ ':')).reverse

/-- A place in the three arrays that are filled together. -/
structure Bone (FName FTransform : Type) where
  name : FName
  parent : Int
  transform : FTransform

namespace Engine

/-- The operator `>>`. -/
def matrix (e : Engine α β FName FMatrix FTransform FFrameTime) (src : Matrix α) : FMatrix :=
  e.Mirror (e.mul (e.toFMatrix src) e.rot)

/-- The local transform. A parent that is not in the list is undefined. -/
def localTransform (e : Engine α β FName FMatrix FTransform FFrameTime)
    (transforms : List (Transform α)) (transform : Transform α) : Option FTransform :=
  let fMatrix := e.matrix transform.mWorldMatrix
  if transform.mParentId ≠ -1 then do
    let parent ← if 0 ≤ transform.mParentId then transforms[transform.mParentId.toNat]? else none
    some (e.SetFromMatrix (e.mul fMatrix (e.Inverse (e.matrix parent.mWorldMatrix))))
  else some (e.SetFromMatrix fMatrix)

/-- A turn of the loop over the transforms; `some none` leaves it. -/
def bone (e : Engine α β FName FMatrix FTransform FFrameTime) (transforms : List (Transform α))
    (transform : Transform α) : Option (Option (Bone FName FTransform)) :=
  if e.nan transform then some none
  else do
    let fTransform ← e.localTransform transforms transform
    if e.ContainsNaN fTransform then some none
    else
      let name := e.toFName (eraseNamespace (c_str transform.mName))
      some (some ⟨name, transform.mParentId, fTransform⟩)

def bones (e : Engine α β FName FMatrix FTransform FFrameTime) (transforms : List (Transform α)) :
    List (Transform α) → Option (Option (List (Bone FName FTransform)))
  | [] => some (some [])
  | transform :: rest =>
    match e.bone transforms transform with
    | none => none
    | some none => some none
    | some (some b) => (e.bones transforms rest).map fun bs => bs.map (b :: ·)

end Engine

/-- A packet, and what the clock shows in the loop over the subjects: when the frame is made,
and when it has been pushed. -/
structure Package where
  data : List UInt8
  Seconds : Nat → ℚ × ℚ

namespace FOpen3DStreamSource

def CheckInterval : ℚ := 5

def InactivityThreshold : ℚ := 5

def OnStatus (s : FOpen3DStreamSource α β FName FTransform FFrameTime) (msg : String) :
    FOpen3DStreamSource α β FName FTransform FFrameTime :=
  { s with SourceStatus := msg, LogFlag := false }

/-- A call of the client, which has to be there. -/
def tell (s : FOpen3DStreamSource α β FName FTransform FFrameTime)
    (w : Tiding FName (FLiveLinkSkeletonStaticData FName)
      (FLiveLinkAnimationFrameData FTransform FFrameTime) ℚ) :
    Option (FOpen3DStreamSource α β FName FTransform FFrameTime) :=
  if s.Client then some { s with tidings := s.tidings ++ [w] } else none

variable [DecidableEq FName]

/-- The frame is pushed, and its time noted. -/
def pushFrame (s : FOpen3DStreamSource α β FName FTransform FFrameTime) (SubjectName : FName)
    (FrameData : FLiveLinkAnimationFrameData FTransform FFrameTime) (now : ℚ) :
    Option (FOpen3DStreamSource α β FName FTransform FFrameTime) := do
  let s ← s.tell (.heard SubjectName FrameData now)
  some { s with SubjectLastUpdateTime := s.SubjectLastUpdateTime.insert SubjectName now }

/-- The skeleton is pushed, in the place of any other. -/
def pushStatic (s : FOpen3DStreamSource α β FName FTransform FFrameTime) (SubjectName : FName)
    (StaticData : FLiveLinkSkeletonStaticData FName) :
    Option (FOpen3DStreamSource α β FName FTransform FFrameTime) := do
  let s ← s.tell (.dismissed SubjectName)
  let s ← s.tell (.introduced SubjectName StaticData)
  some { s with InitializedSubjects := s.InitializedSubjects ++ [SubjectName] }

/-- A turn of the loop over the subjects. -/
def onSubject (e : Engine α β FName FMatrix FTransform FFrameTime)
    (s : FOpen3DStreamSource α β FName FTransform FFrameTime) :
    Subject α β × ℚ × ℚ → Option (FOpen3DStreamSource α β FName FTransform FFrameTime)
  | (subject, WorldTime, now) => do
    let FrameId := s.Frame
    let s := { s with Frame := s.Frame + 1 }
    let SubjectName := e.toFName (c_str subject.mName)
    match ← e.bones subject.mTransforms subject.mTransforms with
    | none => some s
    | some bones =>
      let FrameData :=
        ⟨WorldTime, FrameId, e.AsFrameTime s.mSubjects.mTime, bones.map (·.transform)⟩
      if SubjectName ∈ s.InitializedSubjects then s.pushFrame SubjectName FrameData now
      else if bones = [] then some s
      else do
        let s ← s.pushStatic SubjectName ⟨bones.map (·.name), bones.map (·.parent)⟩
        s.pushFrame SubjectName FrameData now

def OnPackage (e : Engine α β FName FMatrix FTransform FFrameTime)
    (s : FOpen3DStreamSource α β FName FTransform FFrameTime) (p : Package) :
    Option (FOpen3DStreamSource α β FName FTransform FFrameTime) :=
  if !s.bIsValid then some s
  else do
    let s := if s.LogFlag then s
      else { s with SourceStatus := "Receiving " ++ s.Protocol, LogFlag := true }
    let (ok, mSubjects) ← e.Parse s.mSubjects p.data
    let s := { s with mSubjects := mSubjects }
    if !ok then some (s.OnStatus "Data Error")
    else (mSubjects.mItems.mapIdx fun i subject => (subject, p.Seconds i)).foldlM (onSubject e) s

/-- A turn of the loop over the times. -/
def removeInactive (CurrentTime : ℚ) (s : FOpen3DStreamSource α β FName FTransform FFrameTime)
    (entry : Sigma fun _ : FName => ℚ) : Option (FOpen3DStreamSource α β FName FTransform FFrameTime) :=
  if InactivityThreshold < CurrentTime - entry.2 then do
    let s := { s with SubjectLastUpdateTime := s.SubjectLastUpdateTime.erase entry.1 }
    let s ← s.tell (.dismissed entry.1)
    some { s with InitializedSubjects := s.InitializedSubjects.filter (· ≠ entry.1) }
  else some s

/-- The loop erases no entry but the one it is at, so it comes to all that were there. -/
def RemoveInactiveSubjects (s : FOpen3DStreamSource α β FName FTransform FFrameTime)
    (CurrentTime : ℚ) : Option (FOpen3DStreamSource α β FName FTransform FFrameTime) :=
  s.SubjectLastUpdateTime.entries.foldlM (removeInactive CurrentTime)
    { s with tidings := s.tidings ++ [.swept CurrentTime] }

/-- What the server receives in its own `tick` comes as packages. -/
def Tick (s : FOpen3DStreamSource α β FName FTransform FFrameTime) (DeltaTime CurrentTime : ℚ) :
    Option (FOpen3DStreamSource α β FName FTransform FFrameTime) := do
  let s := { s with TimeSinceLastCheck := s.TimeSinceLastCheck + DeltaTime }
  if CheckInterval ≤ s.TimeSinceLastCheck then
    let s ← s.RemoveInactiveSubjects CurrentTime
    some { s with TimeSinceLastCheck := 0 }
  else some s

def RequestSourceShutdown (s : FOpen3DStreamSource α β FName FTransform FFrameTime) :
    FOpen3DStreamSource α β FName FTransform FFrameTime :=
  { s with bIsValid := false, OnData := false, Client := false }

/-- What happens to a source: the server has data or a new state, time passes, or the source is
closed. -/
inductive Event where
  | data (p : Package)
  | state (msg : String)
  | Tick (DeltaTime CurrentTime : ℚ)
  | RequestSourceShutdown

/-- `none` is undefined. -/
def step (e : Engine α β FName FMatrix FTransform FFrameTime)
    (s : FOpen3DStreamSource α β FName FTransform FFrameTime) :
    Event → Option (FOpen3DStreamSource α β FName FTransform FFrameTime)
  | .data p => if s.OnData then s.OnPackage e p else some s
  | .state msg => some (s.OnStatus msg)
  | .Tick DeltaTime CurrentTime => s.Tick DeltaTime CurrentTime
  | .RequestSourceShutdown => some s.RequestSourceShutdown

def run (e : Engine α β FName FMatrix FTransform FFrameTime)
    (s : FOpen3DStreamSource α β FName FTransform FFrameTime) (events : List Event) :
    Option (FOpen3DStreamSource α β FName FTransform FFrameTime) :=
  events.foldlM (step e) s

/-- A source that has been constructed. -/
def make (Protocol : String) (mSubjects : SubjectList α β) :
    FOpen3DStreamSource α β FName FTransform FFrameTime where
  mSubjects := mSubjects
  Client := false
  OnData := true
  bIsValid := true
  Protocol := Protocol
  SourceStatus := "Inactive"
  LogFlag := false
  Frame := 0
  InitializedSubjects := []
  SubjectLastUpdateTime := ∅
  TimeSinceLastCheck := 0
  tidings := []

/-- `started` is what the server's `start` returns. -/
def ReceiveClient (s : FOpen3DStreamSource α β FName FTransform FFrameTime) (started : Bool) :
    FOpen3DStreamSource α β FName FTransform FFrameTime :=
  { s with Client := true, bIsValid := started }

end FOpen3DStreamSource

end Open3DStream.Unreal
