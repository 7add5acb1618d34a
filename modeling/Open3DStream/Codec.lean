import Mathlib.Data.Nat.Digits.Defs
import Mathlib.Data.Rat.Encodable
import Mathlib.Logic.Encodable.Pi
import Mathlib.Logic.Equiv.List
import Mathlib.Tactic.DeriveEncodable
import Open3DStream.Extended
import Open3DStream.Packet

/-! A lawful wire format, so that the model can be run: the root table is numbered and
the number is written in base 256. -/

namespace Open3DStream

instance encodableUInt8 : Encodable UInt8 := .ofLeftInverse UInt8.toNat UInt8.ofNat fun _ => UInt8.ofNat_toNat

instance encodableUInt16 : Encodable UInt16 := .ofLeftInverse UInt16.toNat UInt16.ofNat fun _ => UInt16.ofNat_toNat

instance encodableUInt64 : Encodable UInt64 := .ofLeftInverse UInt64.toNat UInt64.ofNat fun _ => UInt64.ofNat_toNat

instance encodableInt32 : Encodable Int32 := .ofLeftInverse Int32.toInt Int32.ofInt fun _ => Int32.ofInt_toInt _

instance encodableChar : Encodable Char := .ofLeftInverse Char.toNat Char.ofNat Char.ofNat_toNat

instance encodableString : Encodable String := .ofLeftInverse String.toList String.ofList fun _ => String.ofList_toList

instance encodableExtended : Encodable Extended := inferInstanceAs (Encodable (Option ℚ))

deriving instance Encodable for Vector3d, Quaterniond, Matrix

namespace Data

deriving instance Encodable for Indexed, Transform, SubjectData, Performer, Rigidbody, Camera,
  SubjectUpdate, PerformerUpdate, RigidbodyUpdate, CameraUpdate, TimeFields, SubjectList

end Data

section bytes

variable {γ : Type} [Encodable γ]

def encodeBytes (x : γ) : List UInt8 := (Nat.digits 256 (Encodable.encode x)).map UInt8.ofNat

def decodeBytes (bs : List UInt8) : Option γ :=
  Encodable.decode (Nat.ofDigits 256 (bs.map UInt8.toNat))

theorem decodeBytes_encodeBytes (x : γ) : decodeBytes (encodeBytes x) = some x := by
  have hdigits : (encodeBytes x).map UInt8.toNat = Nat.digits 256 (Encodable.encode x) := by
    rw [encodeBytes, List.map_map]
    have hbyte : ∀ d ∈ Nat.digits 256 (Encodable.encode x), (UInt8.toNat ∘ UInt8.ofNat) d = id d := by
      intro d hd
      have hlt := Nat.digits_lt_base (by omega) hd
      simp only [Function.comp_apply, UInt8.toNat_ofNat', id_eq]
      omega
    rw [List.map_congr_left hbyte, List.map_id]
  rw [decodeBytes, hdigits, Nat.ofDigits_digits, Encodable.encodek]

end bytes

/-- CRC-32 with the reflected polynomial. -/
def crc32 (bs : List UInt8) : UInt32 :=
  let shift := fun (c : UInt32) (_ : Nat) =>
    if c &&& 1 = 1 then (c >>> 1) ^^^ 0xEDB88320 else c >>> 1
  bs.foldl (fun c b => (List.range 8).foldl shift (c ^^^ b.toUInt32)) 0xFFFFFFFF ^^^ 0xFFFFFFFF

example : crc32 ("123456789".toList.map fun c => .ofNat c.toNat) = 0xCBF43926 := by decide +kernel

/-- The table of an empty root. -/
def Data.SubjectList.blank : Data.SubjectList Extended Extended where
  performers := none
  performer_updates := none
  rigidbodies := none
  rigidbody_updates := none
  cameras := none
  camera_updates := none
  time := 0
  timecode := none
  x_axis := 0
  y_axis := 0
  z_axis := 0
  distance_unit := 0
  envelope := {}

/-- A default-constructed list, with the threshold its constructor sets. -/
def freshList : SubjectList Extended Extended := SubjectList.empty (Numeric.ofRat (1 / 1000000))

instance : Wire Extended Extended where
  finish := encodeBytes
  verify bs := (decodeBytes bs : Option (Data.SubjectList Extended Extended)).isSome
  root bs := (decodeBytes bs).getD Data.SubjectList.blank
  crc := crc32

instance : LawfulWire Extended Extended where
  verify_finish p := by
    change (decodeBytes (encodeBytes p) : Option (Data.SubjectList Extended Extended)).isSome = true
    rw [decodeBytes_encodeBytes]
    rfl
  root_finish p := by
    change (decodeBytes (encodeBytes p)).getD Data.SubjectList.blank = p
    rw [decodeBytes_encodeBytes]
    rfl

end Open3DStream
