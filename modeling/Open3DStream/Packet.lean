import Open3DStream.Lib.Buffer
import Open3DStream.SubjectList

namespace Open3DStream

open Lib

/-- The flatbuffers library and the CRC: the builder's output, the verifier and the
reader for the root table, and the checksum. -/
class Wire (α β : Type) where
  finish : Data.SubjectList α β → List UInt8
  verify : List UInt8 → Bool
  root : List UInt8 → Data.SubjectList α β
  crc : List UInt8 → UInt32

/-- What the builder writes passes the verifier and reads back. -/
class LawfulWire (α β : Type) [Wire α β] : Prop where
  verify_finish (p : Data.SubjectList α β) : Wire.verify α β (Wire.finish p) = true
  root_finish (p : Data.SubjectList α β) : Wire.root (Wire.finish p) = p

variable {α β : Type} [Wire α β]

/-- Flags, checksum and data. -/
def finalize (p : Data.SubjectList α β) (flags : UInt32) : List UInt8 :=
  let buf := Wire.finish p
  putUInt32 flags ++ (putUInt32 (Wire.crc α β buf) ++ buf)

/-- The checks a buffer passes before its root table is read. -/
def Verified (α β : Type) [Wire α β] (data : Option (List UInt8)) (p : Data.SubjectList α β) : Prop :=
  ∃ d, data = some d ∧ 8 ≤ d.length ∧ (getUInt32 d = 1 ∨ getUInt32 d = 2) ∧
    Wire.crc α β (d.drop 8) = getUInt32 (d.drop 4) ∧ Wire.verify α β (d.drop 8) = true ∧
    Wire.root (d.drop 8) = p

theorem Verified.unique {data : Option (List UInt8)} {p q : Data.SubjectList α β}
    (hp : Verified α β data p) (hq : Verified α β data q) : p = q := by
  obtain ⟨d, rfl, -, -, -, -, rfl⟩ := hp
  obtain ⟨d', hd, -, -, -, -, rfl⟩ := hq
  cases hd
  rfl

theorem verified_finalize [LawfulWire α β] (p : Data.SubjectList α β) {flags : UInt32}
    (h : flags = 1 ∨ flags = 2) : Verified α β (some (finalize p flags)) p := by
  have h8 : (finalize p flags).drop 8 = Wire.finish p := rfl
  have h4 : (finalize p flags).drop 4 = putUInt32 (Wire.crc α β (Wire.finish p)) ++ Wire.finish p := rfl
  refine ⟨_, rfl, ?_, ?_, ?_, ?_, ?_⟩
  · simp [finalize, putUInt32]
  · rw [finalize, getUInt32_put]
    exact h
  · rw [h8, h4, getUInt32_put]
  · rw [h8]
    exact LawfulWire.verify_finish p
  · rw [h8]
    exact LawfulWire.root_finish p

variable [Numeric α β]

namespace SubjectList

/-- `none` is a return of false; else the buffer. -/
def serialize (l : SubjectList α β) (timestamp : α) (timecode : String) (now : α) :
    Option (List UInt8) × SubjectList α β :=
  let (root, l) := l.serializeRoot timestamp timecode now
  (root.map fun p => finalize p 1, l)

def serializeUpdate (l : SubjectList α β) (timestamp : α) (timecode : String) (now : α) :
    Option (List UInt8) × Nat × SubjectList α β :=
  let (root, count, l) := l.serializeUpdateRoot timestamp timecode now
  (root.map fun p => finalize p 2, count, l)

/-- The buffer is `none` for a null pointer; no builder is passed. -/
def parse (l : SubjectList α β) (data : Option (List UInt8)) (clearInactive : Bool) :
    Option (Bool × SubjectList α β) :=
  match data with
  | none => some (false, { l with mError := "Nullptr passed as data to parse" })
  | some data =>
    if data.length < 8 then some (false, { l with mError := "Buffer too small" })
    else
      let crc := Wire.crc α β (data.drop 8)
      let flags := getUInt32 data
      let check := getUInt32 (data.drop 4)
      let l := { l with mError := "" }
      if flags ≠ 1 ∧ flags ≠ 2 then some (false, { l with mError := "Invalid data structure" })
      else if crc ≠ check then some (false, { l with mError := "CRC Check failed" })
      else if !Wire.verify α β (data.drop 8) then
        some (false, { l with mError := "FlatBuffer verification failed" })
      else l.parseRoot (Wire.root (data.drop 8)) clearInactive

end SubjectList

theorem parse_verified (l : SubjectList α β) {data : Option (List UInt8)} {p : Data.SubjectList α β}
    (h : Verified α β data p) (clearInactive : Bool) :
    l.parse data clearInactive = { l with mError := "" }.parseRoot p clearInactive := by
  obtain ⟨d, rfl, hlen, hflags, hcrc, hv, rfl⟩ := h
  have hf : ¬(getUInt32 d ≠ 1 ∧ getUInt32 d ≠ 2) := by
    obtain h | h := hflags <;> simp [h]
  simp only [SubjectList.parse, if_neg (by omega : ¬d.length < 8), if_neg hf, hcrc, ne_eq,
    not_true_eq_false, if_false, hv, Bool.not_true, Bool.false_eq_true]

theorem parse_short (l : SubjectList α β) {data : List UInt8} (h : data.length < 8)
    (clearInactive : Bool) :
    l.parse (some data) clearInactive = some (false, { l with mError := "Buffer too small" }) :=
  if_pos h

/-- A buffer that fails one of the checks changes the error only. -/
theorem parse_unverified (l : SubjectList α β) {data : Option (List UInt8)}
    (h : ∀ p, ¬Verified α β data p) (clearInactive : Bool) :
    ∃ e, l.parse data clearInactive = some (false, { l with mError := e }) := by
  cases data with
  | none => exact ⟨_, rfl⟩
  | some d =>
    by_cases hlen : d.length < 8
    · exact ⟨"Buffer too small", by simp [SubjectList.parse, hlen]⟩
    · by_cases hf : getUInt32 d ≠ 1 ∧ getUInt32 d ≠ 2
      · exact ⟨"Invalid data structure", by simp [SubjectList.parse, hlen, hf]⟩
      · by_cases hcrc : Wire.crc α β (d.drop 8) = getUInt32 (d.drop 4)
        · by_cases hv : Wire.verify α β (d.drop 8) = true
          · refine absurd ⟨d, rfl, by omega, ?_, hcrc, hv, rfl⟩ (h (Wire.root (d.drop 8)))
            by_contra hn
            exact hf (not_or.mp hn)
          · exact ⟨"FlatBuffer verification failed", by
              simp only [SubjectList.parse, if_neg hlen, if_neg hf, hcrc, ne_eq, not_true_eq_false,
                if_false, hv, Bool.not_false, if_true]⟩
        · exact ⟨"CRC Check failed", by
            simp only [SubjectList.parse, if_neg hlen, if_neg hf, ne_eq, hcrc, not_false_eq_true,
              if_true]⟩

end Open3DStream
