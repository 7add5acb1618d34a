import Open3DStream.Schema

namespace Open3DStream

open Numeric

inductive ComponentType where
  | TTranslation | TRotation | TOrientation | TScale | TMatrix
deriving DecidableEq

@[ext] structure TransformTranslation (α : Type) where
  value : Vector3d α
  lastSentValue : Vector3d α
deriving DecidableEq

@[ext] structure TransformRotation (α : Type) where
  value : Quaterniond α
  lastSentValue : Quaterniond α
deriving DecidableEq

@[ext] structure TransformScale (α : Type) where
  value : Vector3d α
  lastSentValue : Vector3d α
deriving DecidableEq

structure TransformMatrix (α : Type) where
  value : Matrix α
deriving DecidableEq

@[ext] structure Transform (α : Type) where
  translation : TransformTranslation α
  rotation : TransformRotation α
  scale : TransformScale α
  mMatrix : Matrix α
  mWorldMatrix : Matrix α
  bWorldMatrix : Bool
  mMatrices : List (TransformMatrix α)
  mTransformOrder : List ComponentType
  mName : String
  mParentId : Int
deriving DecidableEq

variable {α β : Type} [Numeric α β]

namespace TransformTranslation

/-- Assertions are off, as in a release build. -/
def make (x y z : α) : TransformTranslation α := ⟨⟨x, y, z⟩, Vector3d.zero⟩

def delta (t : TransformTranslation α) : α := vectorDistance t.value t.lastSentValue

def sent (t : TransformTranslation α) : TransformTranslation α := { t with lastSentValue := t.value }

def write (t : TransformTranslation α) : Vector3d β := t.value.map narrow

def read (d : Vector3d β) : TransformTranslation α := make (widen d.x) (widen d.y) (widen d.z)

end TransformTranslation

/-- The constructor of `Quaterniond` takes `w` first. -/
def Quaterniond.eigen (w x y z : α) : Quaterniond α := ⟨x, y, z, w⟩

namespace TransformRotation

def make (x y z w : α) : TransformRotation α :=
  ⟨Quaterniond.eigen w x y z, Quaterniond.eigen 0 0 0 0⟩

/-- The source also takes the absolute value of an angle that is never negative. -/
def delta (t : TransformRotation α) : α := angularDistance t.lastSentValue t.value

def sent (t : TransformRotation α) : TransformRotation α := { t with lastSentValue := t.value }

def write (t : TransformRotation α) : Quaterniond β := t.value.map narrow

def read (d : Quaterniond β) : TransformRotation α :=
  make (widen d.x) (widen d.y) (widen d.z) (widen d.w)

end TransformRotation

namespace TransformScale

def make (x y z : α) : TransformScale α := ⟨⟨x, y, z⟩, Vector3d.zero⟩

def write (t : TransformScale α) : Vector3d β := t.value.map narrow

def read (d : Vector3d β) : TransformScale α := make (widen d.x) (widen d.y) (widen d.z)

end TransformScale

namespace TransformMatrix

def write (m : TransformMatrix α) : Matrix β := m.value.map narrow

def read (d : Matrix β) : TransformMatrix α := ⟨d.map widen⟩

end TransformMatrix

namespace Transform

/-- The empty constructor; it does not set the rotation's last sent value. -/
def empty : Transform α where
  translation := .make 0 0 0
  rotation := ⟨Quaterniond.identity, uninit⟩
  scale := .make 1 1 1
  mMatrix := Matrix.identity
  mWorldMatrix := Matrix.identity
  bWorldMatrix := false
  mMatrices := []
  mTransformOrder := []
  mName := ""
  mParentId := -1

/-- One round of the loop in `update`. Reading past the end of `mMatrices` is `none`. -/
def updateStep (t : Transform α) (s : Matrix α × Nat) : ComponentType → Option (Matrix α × Nat)
  | .TTranslation => some (s.1 * translate t.translation.value, s.2)
  | .TRotation => some (s.1 * fromQuaternion t.rotation.value, s.2)
  | .TScale => some (s.1 * Open3DStream.scale t.scale.value, s.2)
  | .TMatrix => do
    let m ← t.mMatrices[s.2]?
    some (s.1 * m.value, s.2 + 1)
  | .TOrientation => some s

def update (t : Transform α) : Option (Transform α) := do
  let s ← t.mTransformOrder.foldlM (updateStep t) (Matrix.identity, 0)
  some { t with bWorldMatrix := false, mMatrix := s.1 }

/-- The checks of `allFinite` that do not concern the two cached matrices. -/
def valuesFinite (t : Transform α) : Bool :=
  t.translation.value.allFinite && t.scale.value.allFinite && t.rotation.value.allFinite &&
    t.mMatrices.all (fun m => m.value.allFinite)

def allFinite (t : Transform α) : Bool :=
  t.mMatrix.allFinite && t.mWorldMatrix.allFinite && t.valuesFinite

def componentCode : ComponentType → Option Int
  | .TTranslation => some 0
  | .TRotation => some 1
  | .TScale => some 2
  | .TMatrix => some 3
  | .TOrientation => none

def componentOf (code : Int) : Option ComponentType :=
  if code = 0 then some .TTranslation
  else if code = 1 then some .TRotation
  else if code = 2 then some .TScale
  else if code = 3 then some .TMatrix
  else none

/-- The table written for a transform; scale is not marked as sent. -/
def serialize (t : Transform α) : Data.Transform β × Transform α :=
  (⟨t.mParentId, some t.mName, some t.translation.write, some t.rotation.write,
    some t.scale.write, some (t.mMatrices.map TransformMatrix.write),
    some (t.mTransformOrder.filterMap componentCode)⟩,
   { t with translation := t.translation.sent, rotation := t.rotation.sent })

/-- The name, the components and the matrices are read without a null check. -/
def parse (t : Transform α) (d : Data.Transform β) : Option (Transform α) := do
  let name ← d.name
  let components ← d.components
  let matrices ← d.matrix
  some { t with
    mName := name
    mParentId := d.parent
    translation := d.translation.elim t.translation .read
    rotation := d.rotation.elim t.rotation .read
    scale := d.scale.elim t.scale .read
    mTransformOrder := t.mTransformOrder ++ components.filterMap componentOf
    mMatrices := t.mMatrices ++ matrices.map .read }

end Transform

end Open3DStream
