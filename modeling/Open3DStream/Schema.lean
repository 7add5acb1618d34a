import Open3DStream.Math

/-! The tables of `o3ds.fbs`. A table, string or vector field that a packet may leave
out is an `Option`; a scalar left out reads as its default. -/

namespace Open3DStream.Data

/-- An entry of an update vector: a value and the index of its node. -/
structure Indexed (γ : Type) where
  value : γ
  i : Int
deriving DecidableEq

abbrev TranslationUpdate (β : Type) := Indexed (Vector3d β)

abbrev RotationUpdate (β : Type) := Indexed (Quaterniond β)

abbrev ScaleUpdate (β : Type) := Indexed (Vector3d β)

structure Transform (β : Type) where
  parent : Int
  name : Option String
  translation : Option (Vector3d β)
  rotation : Option (Quaterniond β)
  scale : Option (Vector3d β)
  matrix : Option (List (Matrix β))
  components : Option (List Int)
deriving DecidableEq

structure SubjectData (β : Type) where
  nodes : Option (List (Transform β))
  name : Option String
  uuid : Option String
deriving DecidableEq

structure Performer (β : Type) where
  data : Option (SubjectData β)
deriving DecidableEq

structure Rigidbody (β : Type) where
  data : Option (SubjectData β)
deriving DecidableEq

structure Camera (β : Type) where
  data : Option (SubjectData β)
  filmback_width : β
  filmback_height : β
  aspect : β
deriving DecidableEq

structure SubjectUpdate (β : Type) where
  translation : Option (List (TranslationUpdate β))
  rotation : Option (List (RotationUpdate β))
  scale : Option (List (ScaleUpdate β))
  uuid : Option String
deriving DecidableEq

structure PerformerUpdate (β : Type) where
  data : Option (SubjectUpdate β)
deriving DecidableEq

structure RigidbodyUpdate (β : Type) where
  data : Option (SubjectUpdate β)
deriving DecidableEq

structure CameraUpdate (β : Type) where
  data : Option (SubjectUpdate β)
  focal_length : β
  focus_distance : β
  aperture : β
deriving DecidableEq

/-- The time envelope fields of the root table, absent ones at their defaults. -/
structure TimeFields where
  time_version : UInt8 := 0
  clock_domain : UInt8 := 0
  clock_instance : UInt16 := 0
  time_ns : UInt64 := 0
  time_quality : UInt8 := 0
  time_source : UInt8 := 0
  restamp_reason : UInt8 := 0
  has_device_time : Bool := false
  device_instance : UInt16 := 0
  device_ns : UInt64 := 0
  has_timecode : Bool := false
  timecode_kind : UInt8 := 0
  timecode_instance : UInt16 := 0
  timecode_ns : UInt64 := 0
  has_smpte : Bool := false
  tc_hours : UInt8 := 0
  tc_minutes : UInt8 := 0
  tc_seconds : UInt8 := 0
  tc_frames : UInt16 := 0
  tc_subframe : UInt16 := 0
  tc_subframes : UInt16 := 0
  rate_code : UInt8 := 0
  drop_frame : Bool := false
  rate_num : Int32 := 0
  rate_den : Int32 := 0
deriving DecidableEq

structure SubjectList (α β : Type) where
  performers : Option (List (Performer β))
  performer_updates : Option (List (PerformerUpdate β))
  rigidbodies : Option (List (Rigidbody β))
  rigidbody_updates : Option (List (RigidbodyUpdate β))
  cameras : Option (List (Camera β))
  camera_updates : Option (List (CameraUpdate β))
  time : α
  timecode : Option String
  x_axis : Int
  y_axis : Int
  z_axis : Int
  distance_unit : Int
  envelope : TimeFields
deriving DecidableEq

end Open3DStream.Data
