import Open3DStream.RoundTrip

/-! The subjects of the MotionBuilder plugin: how the scene fills them, and what a frame
makes of them. -/

namespace Open3DStream

open Numeric

/-- What the plugin reads of a model in the scene. The rotations are as `setRotation` leaves
them, and a child may be null. -/
inductive FBModel (α : Type) where
  | mk (Name : String) (Translation : Vector3d α) (Rotation : Quaterniond α)
      (Scaling : Vector3d α) (PreRotation PostRotation : Matrix α)
      (Children : List (Option (FBModel α)))

namespace Mobu

variable {α β : Type} [Numeric α β]

/-- The constructor; the base class leaves the last sent values as it always does. -/
def MobuTransform (Name : String) (parentId : Int) (Translation : Vector3d α)
    (Rotation : Quaterniond α) (Scaling : Vector3d α) (pre post : Matrix α) : Transform α :=
  let t : Transform α := Transform.empty
  { t with
    mName := Name
    mParentId := parentId
    translation := { t.translation with value := Translation }
    rotation := { t.rotation with value := Rotation }
    scale := { t.scale with value := Scaling }
    mMatrices := [⟨pre⟩, ⟨post⟩]
    mTransformOrder := [.TTranslation, .TMatrix, .TRotation, .TMatrix, .TScale] }

/-- `MobuTransform::update`. -/
def posed (Translation : Vector3d α) (Rotation : Quaterniond α) (Scaling : Vector3d α)
    (t : Transform α) : Transform α :=
  { t with
    translation := { t.translation with value := Translation }
    rotation := { t.rotation with value := Rotation }
    scale := { t.scale with value := Scaling } }

mutual

/-- The transforms of a performer once a model and all below it have been added; a joint that
is not among `mJoints`, where there are any, is left out with all below it. -/
def TraverseSubject (mJoints : List String) (transforms : List (Transform α)) :
    FBModel α → Int → List (Transform α)
  | .mk Name Translation Rotation Scaling PreRotation PostRotation Children, parentId =>
    let transforms := if parentId = -1 then [] else transforms
    if 0 < mJoints.length ∧ Name ∉ mJoints then transforms
    else
      let t := MobuTransform Name parentId Translation Rotation Scaling PreRotation PostRotation
      traverseChildren mJoints (transforms ++ [t]) Children transforms.length

/-- The loop over the children. -/
def traverseChildren (mJoints : List String) (transforms : List (Transform α)) :
    List (Option (FBModel α)) → Int → List (Transform α)
  | [], _ => transforms
  | none :: Children, nextId => traverseChildren mJoints transforms Children nextId
  | some child :: Children, nextId =>
    traverseChildren mJoints (TraverseSubject mJoints transforms child nextId) Children nextId

end

theorem enough_mobuTransform (Name : String) (parentId : Int) (Translation : Vector3d α)
    (Rotation : Quaterniond α) (Scaling : Vector3d α) (pre post : Matrix α) :
    (MobuTransform Name parentId Translation Rotation Scaling pre post).EnoughMatrices :=
  le_rfl

mutual

/-- Every transform that is added finds its matrices. -/
theorem enough_traverseSubject (mJoints : List String) (transforms : List (Transform α))
    (model : FBModel α) (parentId : Int)
    (h : parentId ≠ -1 → ∀ t ∈ transforms, t.EnoughMatrices) :
    ∀ t ∈ TraverseSubject mJoints transforms model parentId, t.EnoughMatrices := by
  obtain ⟨Name, Translation, Rotation, Scaling, PreRotation, PostRotation, Children⟩ := model
  have hcleared : ∀ t ∈ if parentId = -1 then [] else transforms, t.EnoughMatrices := by
    split
    · exact fun t ht => absurd ht List.not_mem_nil
    · exact h ‹_›
  rw [TraverseSubject]
  split
  · exact hcleared
  · apply enough_traverseChildren
    intro t ht
    obtain ht | ht := List.mem_append.mp ht
    · exact hcleared t ht
    · rw [List.mem_singleton.mp ht]
      exact enough_mobuTransform _ _ _ _ _ _ _

theorem enough_traverseChildren (mJoints : List String) (transforms : List (Transform α))
    (Children : List (Option (FBModel α))) (nextId : Int)
    (h : ∀ t ∈ transforms, t.EnoughMatrices) :
    ∀ t ∈ traverseChildren mJoints transforms Children nextId, t.EnoughMatrices := by
  match Children with
  | [] =>
    rw [traverseChildren]
    exact h
  | none :: Children =>
    rw [traverseChildren]
    exact enough_traverseChildren mJoints transforms Children nextId h
  | some child :: Children =>
    rw [traverseChildren]
    apply enough_traverseChildren
    exact enough_traverseSubject mJoints transforms child nextId fun _ => h

end

/-- The part of `DeviceIONotify` that writes a frame, once the transforms have been updated:
a keyframe or an update. -/
def writeFrame [Wire α β] (Items : SubjectList α β) (keyframe : Bool) (time now : α) :
    Option (List UInt8) × SubjectList α β :=
  let (ok, Items) := Items.allFinite
  if !ok then (none, Items)
  else if keyframe then Items.serialize time "" now
  else
    let (buf, _, Items) := Items.serializeUpdate time "" now
    (buf, Items)

end Mobu

end Open3DStream
