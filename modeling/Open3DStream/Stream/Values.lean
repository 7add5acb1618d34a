import Open3DStream.Lib.Partial
import Open3DStream.Stream.Cursor

/-! Values of every type that a stream takes. -/

namespace Open3DStream

open Lib

/-- A variable of one of the types, floats by their bits. -/
inductive Value where
  | float (bits : UInt32)
  | double (bits : UInt64)
  | uint8 (x : UInt8)
  | uint16 (x : UInt16)
  | uint32 (x : UInt32)
  | uint64 (x : UInt64)
  | string (chars : List UInt8)
  | vector (elements : List UInt8)
deriving DecidableEq

inductive ValueType where
  | float | double | uint8 | uint16 | uint32 | uint64 | string | vector
deriving DecidableEq

namespace Value

def type : Value → ValueType
  | .float _ => .float
  | .double _ => .double
  | .uint8 _ => .uint8
  | .uint16 _ => .uint16
  | .uint32 _ => .uint32
  | .uint64 _ => .uint64
  | .string _ => .string
  | .vector _ => .vector

/-- The length has room in its prefix. -/
def Fits : Value → Prop
  | .string chars => chars.length ≤ 255
  | .vector elements => elements.length ≤ 65535
  | _ => True

instance : ∀ v : Value, Decidable v.Fits
  | .string chars => inferInstanceAs (Decidable (chars.length ≤ 255))
  | .vector elements => inferInstanceAs (Decidable (elements.length ≤ 65535))
  | .float _ | .double _ | .uint8 _ | .uint16 _ | .uint32 _ | .uint64 _ => .isTrue trivial

/-- The bytes that a push of the value appends. -/
def encode : Value → List UInt8
  | .float bits => toBytes 4 bits.toNat
  | .double bits => toBytes 8 bits.toNat
  | .uint8 x => [x]
  | .uint16 x => toBytes 2 x.toNat
  | .uint32 x => toBytes 4 x.toNat
  | .uint64 x => toBytes 8 x.toNat
  | .string chars => .ofNat chars.length :: chars
  | .vector elements => toBytes 2 (UInt16.ofNat elements.length).toNat ++ elements

/-- How far a read of the value moves the cursor. -/
def readLength : Value → Nat
  | .double _ => 4
  | v => v.encode.length

theorem readLength_of_ne {v : Value} (h : v.type ≠ .double) : v.readLength = v.encode.length := by
  cases v with
  | double bits => exact absurd rfl h
  | _ => rfl

theorem readLength_le (v : Value) : v.readLength ≤ v.encode.length := by
  by_cases h : v.type = .double
  · cases v with
    | double bits => simp [readLength, encode]
    | _ => cases h
  · rw [readLength_of_ne h]

theorem readLength_lt {v : Value} (h : v.type = .double) : v.readLength < v.encode.length := by
  cases v with
  | double bits => simp [readLength, encode]
  | _ => cases h

end Value

namespace BinaryStream

def pushValue (s : BinaryStream) : Value → Except Fault BinaryStream
  | .float bits => s.pushFloat bits
  | .double bits => s.pushDouble bits
  | .uint8 x => s.pushUInt8 x
  | .uint16 x => s.pushUInt16 x
  | .uint32 x => s.pushUInt32 x
  | .uint64 x => s.pushUInt64 x
  | .string chars => s.pushString chars
  | .vector elements => s.pushVector elements

/-- The read into a variable, of the variable's type. -/
def getValue (s : BinaryStream) (msg : Option String) : Value → Got Value
  | .float bits =>
    let (result, bits, s) := s.getFloat bits msg
    (result, .float bits, s)
  | .double bits =>
    let (result, bits, s) := s.getDouble bits msg
    (result, .double bits, s)
  | .uint8 x =>
    let (result, x, s) := s.getUInt8 x msg
    (result, .uint8 x, s)
  | .uint16 x =>
    let (result, x, s) := s.getUInt16 x msg
    (result, .uint16 x, s)
  | .uint32 x =>
    let (result, x, s) := s.getUInt32 x msg
    (result, .uint32 x, s)
  | .uint64 x =>
    let (result, x, s) := s.getUInt64 x msg
    (result, .uint64 x, s)
  | .string chars =>
    let (result, chars, s) := s.getString chars msg
    (result, .string chars, s)
  | .vector elements =>
    let (result, elements, s) := s.getVector elements msg
    (result, .vector elements, s)

/-! ### What a push appends -/

theorem push_toBytes (s : BinaryStream) (n x : Nat) :
    s.push (toBytes n x) n = (toBytes n x).foldlM push_back s := by
  rw [push, List.take_of_length_le (length_toBytes n x).le]

theorem pushValue_eq (s : BinaryStream) (v : Value) : s.pushValue v = v.encode.foldlM push_back s := by
  cases v with
  | float bits => exact push_toBytes s 4 _
  | double bits => exact push_toBytes s 8 _
  | uint8 x =>
    rw [Value.encode, List.foldlM_cons]
    exact (bind_pure _).symm
  | uint16 x => exact push_toBytes s 2 _
  | uint32 x => exact push_toBytes s 4 _
  | uint64 x => exact push_toBytes s 8 _
  | string chars => exact (List.foldlM_cons ..).symm
  | vector elements =>
    rw [pushValue, pushVector, pushUInt16, push_toBytes, Value.encode, List.foldlM_append]
    simp only [push, List.take_length]

theorem push_back_ok_iff {s t : BinaryStream} {b : UInt8} :
    s.push_back b = .ok t ↔
      t.bytes = s.bytes ++ [b] ∧ t.ptr = s.ptr ∧ t.swaporder = s.swaporder := by
  rw [push_back]
  refine ⟨?_, ?_⟩
  · intro h
    split at h
    · cases h
      exact ⟨rfl, rfl, rfl⟩
    · cases h
  · rintro ⟨hbytes, hptr, hswap⟩
    have hlt : s.bytes.length < maxSize := by
      have hle := t.size_le
      rw [hbytes, List.length_append] at hle
      exact hle
    rw [dif_pos hlt]
    exact congrArg Except.ok (BinaryStream.ext hbytes.symm hptr.symm hswap.symm)

/-- Bytes are pushed one after the other if there is room for them. -/
theorem pushed_iff {s t : BinaryStream} {w : List UInt8} :
    w.foldlM push_back s = .ok t ↔
      t.bytes = s.bytes ++ w ∧ t.ptr = s.ptr ∧ t.swaporder = s.swaporder := by
  induction w generalizing s with
  | nil =>
    rw [List.foldlM_nil, List.append_nil]
    refine ⟨?_, ?_⟩
    · intro h
      cases h
      exact ⟨rfl, rfl, rfl⟩
    · rintro ⟨hbytes, hptr, hswap⟩
      exact congrArg Except.ok (BinaryStream.ext hbytes.symm hptr.symm hswap.symm)
  | cons b w ih =>
    rw [List.foldlM_cons]
    refine ⟨?_, ?_⟩
    · intro h
      cases hp : s.push_back b with
      | error e =>
        rw [hp] at h
        cases h
      | ok u =>
        rw [hp] at h
        obtain ⟨hbytes, hptr, hswap⟩ := push_back_ok_iff.mp hp
        rw [← hptr, ← hswap, List.append_cons, ← hbytes]
        exact ih.mp h
    · rintro ⟨hbytes, hptr, hswap⟩
      rw [List.append_cons] at hbytes
      have hle : (s.bytes ++ [b]).length ≤ maxSize := by
        have hle := t.size_le
        rw [hbytes, List.length_append] at hle
        omega
      have hp : s.push_back b = .ok ⟨s.bytes ++ [b], s.ptr, s.swaporder, hle⟩ :=
        push_back_ok_iff.mpr ⟨rfl, rfl, rfl⟩
      rw [hp]
      exact ih.mpr ⟨hbytes, hptr, hswap⟩

/-! ### What a read returns -/

theorem getWord_toBytes {s : BinaryStream} {n x : Nat} (h : s.Ahead (toBytes n x)) (hn : 0 < n)
    (hx : x < 256 ^ n) (hs : s.swaporder = false) (value : Nat) (msg : Option String) :
    s.getWord n n value msg = (.ok (), x, s.seek (s.ptr + n)) := by
  have hget := getWord_full value msg h (by rwa [length_toBytes]) hs
  rwa [length_toBytes, ofBytes_toBytes hx] at hget

/-- What was pushed is read, unless it is a double. -/
theorem getValue_of_ahead {s : BinaryStream} {v var : Value} (hs : s.swaporder = false)
    (hv : v.Fits) (hdouble : v.type ≠ .double) (htype : var.type = v.type) (h : s.Ahead v.encode)
    (msg : Option String) :
    s.getValue msg var = (.ok (), v, s.seek (s.ptr + v.encode.length)) := by
  cases v with
  | float bits =>
    cases var with
    | float old =>
      have hget := getWord_toBytes h (by decide) bits.toNat_lt hs old.toNat msg
      rw [getValue, getFloat, hget, Value.encode, length_toBytes]
      dsimp only
      rw [UInt32.ofNat_toNat]
    | _ => cases htype
  | double bits => exact absurd rfl hdouble
  | uint8 x =>
    cases var with
    | uint8 old =>
      rw [getValue, getUInt8_of_ahead h]
      rfl
    | _ => cases htype
  | uint16 x =>
    cases var with
    | uint16 old =>
      have hget := getWord_toBytes h (by decide) x.toNat_lt hs old.toNat msg
      rw [getValue, getUInt16, hget, Value.encode, length_toBytes]
      dsimp only
      rw [UInt16.ofNat_toNat]
    | _ => cases htype
  | uint32 x =>
    cases var with
    | uint32 old =>
      have hget := getWord_toBytes h (by decide) x.toNat_lt hs old.toNat msg
      rw [getValue, getUInt32, hget, Value.encode, length_toBytes]
      dsimp only
      rw [UInt32.ofNat_toNat]
    | _ => cases htype
  | uint64 x =>
    cases var with
    | uint64 old =>
      have hget := getWord_toBytes h (by decide) x.toNat_lt hs old.toNat msg
      rw [getValue, getUInt64, hget, Value.encode, length_toBytes]
      dsimp only
      rw [UInt64.ofNat_toNat]
    | _ => cases htype
  | string chars =>
    cases var with
    | string old =>
      rw [getValue, getString_of_ahead hv h, Value.encode, List.length_cons, Nat.add_comm 1]
    | _ => cases htype
  | vector elements =>
    cases var with
    | vector old =>
      have hv : elements.length ≤ 65535 := hv
      have hlen : (UInt16.ofNat elements.length).toNat = elements.length := by
        rw [UInt16.toNat_ofNat']
        omega
      rw [Value.encode, hlen] at h ⊢
      rw [getValue, getVector_of_ahead hs hv h, List.length_append, length_toBytes]
    | _ => cases htype

theorem getWord_value_ends {s : BinaryStream} (hs : s.ptr ≤ s.size) {len : Nat} (hpos : 0 < len)
    (hlen : len ≤ 8) {f : Nat → Value} (hf : ∀ x, (f x).readLength = len) (width value : Nat)
    (msg : Option String) :
    s.Ends Value.readLength ((s.getWord width len value msg).1, f (s.getWord width len value msg).2.1,
      (s.getWord width len value msg).2.2) := by
  have hmax : len ≤ maxSize := hlen.trans (by decide)
  exact (getWord_ends width value msg hs hpos hmax).map fun x => (hf x).symm

theorem getValue_ends {s : BinaryStream} (hs : s.ptr ≤ s.size) (var : Value) (msg : Option String) :
    s.Ends Value.readLength (s.getValue msg var) := by
  cases var with
  | float bits =>
    exact getWord_value_ends (f := fun x => .float (.ofNat x)) hs (by decide) (by decide)
      (fun _ => length_toBytes 4 _) 4 bits.toNat msg
  | double bits =>
    exact getWord_value_ends (f := fun x => .double (.ofNat x)) hs (by decide) (by decide)
      (fun _ => rfl) 8 bits.toNat msg
  | uint8 x => exact (getUInt8_ends hs x msg).map (f := Value.uint8) fun _ => rfl
  | uint16 x =>
    exact getWord_value_ends (f := fun x => .uint16 (.ofNat x)) hs (by decide) (by decide)
      (fun _ => length_toBytes 2 _) 2 x.toNat msg
  | uint32 x =>
    exact getWord_value_ends (f := fun x => .uint32 (.ofNat x)) hs (by decide) (by decide)
      (fun _ => length_toBytes 4 _) 4 x.toNat msg
  | uint64 x =>
    exact getWord_value_ends (f := fun x => .uint64 (.ofNat x)) hs (by decide) (by decide)
      (fun _ => length_toBytes 8 _) 8 x.toNat msg
  | string chars =>
    exact (getString_ends hs chars msg).map (f := Value.string) fun v => Nat.add_comm 1 v.length
  | vector elements =>
    refine (getVector_ends hs elements msg).map (f := Value.vector) fun v => ?_
    have hlen : (Value.vector v).readLength = (toBytes 2 (UInt16.ofNat v.length).toNat ++ v).length :=
      rfl
    rw [hlen, List.length_append, length_toBytes]

end BinaryStream

end Open3DStream
