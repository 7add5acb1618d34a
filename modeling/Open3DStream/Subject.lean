import Open3DStream.Transform

namespace Open3DStream

open Numeric

/-- The type a list of subjects is searched for. -/
inductive SubjectKind where
  | performer | rigidbody | camera
deriving DecidableEq

/-- The lens fields of `CameraSubject`. -/
structure Lens (β : Type) where
  filmBackWidth : β
  filmBackHeight : β
  focalLength : β
  aspect : β
  focusDistance : β
  aperture : β
deriving DecidableEq

/-- The dynamic type of a subject with the fields its class adds. -/
inductive Derived (β : Type) where
  | performer
  | rigidbody
  | camera (lens : Lens β)
deriving DecidableEq

def Derived.kind {β : Type} : Derived β → SubjectKind
  | .performer => .performer
  | .rigidbody => .rigidbody
  | .camera _ => .camera

structure Subject (α β : Type) where
  derived : Derived β
  mName : String
  mUuid : String
  mTransforms : List (Transform α)
  mError : String
  mEnabled : Bool
deriving DecidableEq

variable {α β : Type} [Numeric α β]

def Lens.zero : Lens β := ⟨floatZero α, floatZero α, floatZero α, floatZero α, floatZero α, floatZero α⟩

namespace Subject

def kind (s : Subject α β) : SubjectKind := s.derived.kind

/-- `make_unique<T>()` followed by setting the uuid. -/
def make (T : SubjectKind) (uuid : String) : Subject α β where
  derived := match T with
    | .performer => .performer
    | .rigidbody => .rigidbody
    | .camera => .camera (Lens.zero (α := α))
  mName := ""
  mUuid := uuid
  mTransforms := []
  mError := ""
  mEnabled := true

/-- `id < mTransforms.size()` compares an `int` with a `size_t`, so a negative index
counts as out of range. -/
def applyAt (ts : List (Transform α)) (id : Int) (f : Transform α → Transform α) :
    List (Transform α) :=
  if 0 ≤ id ∧ id < ts.length then ts.modify id.toNat f else ts

def applyUpdates {γ : Type} (f : γ → Transform α → Transform α) (us : List (Data.Indexed γ))
    (ts : List (Transform α)) : List (Transform α) :=
  us.foldl (fun ts u => applyAt ts u.i (f u.value)) ts

def readTranslation (d : Vector3d β) (t : Transform α) : Transform α :=
  { t with translation := .read d }

def readRotation (d : Quaterniond β) (t : Transform α) : Transform α :=
  { t with rotation := .read d }

def readScale (d : Vector3d β) (t : Transform α) : Transform α :=
  { t with scale := .read d }

/-- The uuid and the three vectors are read without a null check. -/
def parseUpdate (s : Subject α β) (u : Data.SubjectUpdate β) : Option (Subject α β) := do
  let _uuid ← u.uuid
  let translations ← u.translation
  let rotations ← u.rotation
  let scales ← u.scale
  let ts := applyUpdates readTranslation translations s.mTransforms
  let ts := applyUpdates readRotation rotations ts
  some { s with mTransforms := applyUpdates readScale scales ts }

/-- The transform list is replaced by the packet's nodes; name, uuid and nodes are
read without a null check. -/
def parse (s : Subject α β) (d : Data.SubjectData β) : Option (Subject α β) := do
  let name ← d.name
  let uuid ← d.uuid
  let nodes ← d.nodes
  let ts ← nodes.mapM Transform.empty.parse
  some { s with mName := name, mUuid := uuid, mTransforms := ts }

def allFinite (s : Subject α β) : Bool × Subject α β :=
  match s.mTransforms.find? (fun t => !t.allFinite) with
  | some t => (false, { s with mError := "Invalid transform: " ++ t.mName })
  | none => (true, s)

def serialize (s : Subject α β) : Data.SubjectData β × Subject α β :=
  (⟨some (s.mTransforms.map fun t => t.serialize.1), some s.mName, some s.mUuid⟩,
   { s with mTransforms := s.mTransforms.map fun t => (t.serialize (β := β)).2 })

end Subject

namespace Transform

/-- Translation and rotation are emitted past the threshold; scale is never emitted. -/
def translationUpdate (threshold : α) (id : Nat) (t : Transform α) :
    Option (Data.TranslationUpdate β) :=
  if t.allFinite && decide (threshold < t.translation.delta) then
    some ⟨t.translation.write, id⟩
  else none

def rotationUpdate (threshold : α) (id : Nat) (t : Transform α) :
    Option (Data.RotationUpdate β) :=
  if t.allFinite && decide (threshold < t.rotation.delta) then
    some ⟨t.rotation.write, id⟩
  else none

def markSent (threshold : α) (t : Transform α) : Transform α :=
  if t.allFinite then
    { t with
      translation := if threshold < t.translation.delta then t.translation.sent else t.translation
      rotation := if threshold < t.rotation.delta then t.rotation.sent else t.rotation }
  else t

end Transform

namespace Subject

/-- Returns the table, the number of entries and the subject with the emitted values
marked as sent. -/
def serializeUpdate (s : Subject α β) (threshold : α) :
    Data.SubjectUpdate β × Nat × Subject α β :=
  let translations := s.mTransforms.zipIdx.filterMap fun p => p.1.translationUpdate threshold p.2
  let rotations := s.mTransforms.zipIdx.filterMap fun p => p.1.rotationUpdate threshold p.2
  (⟨some translations, some rotations, some [], some s.mUuid⟩,
   translations.length + rotations.length,
   { s with
     mTransforms := s.mTransforms.map (Transform.markSent threshold)
     mError := match (s.mTransforms.filter fun t => !t.allFinite).getLast? with
       | some t => "Transform has non-finite values: " ++ t.mName
       | none => s.mError })

end Subject

end Open3DStream
