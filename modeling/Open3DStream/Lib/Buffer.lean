import Mathlib.Data.List.Basic

/-! Words and copies in byte buffers. -/

namespace Open3DStream.Lib

def putUInt32 (x : UInt32) : List UInt8 :=
  [.ofNat x.toNat, .ofNat (x.toNat / 256), .ofNat (x.toNat / 65536), .ofNat (x.toNat / 16777216)]

/-- The little-endian word at the front of a buffer. -/
def getUInt32 : List UInt8 → UInt32
  | b₀ :: b₁ :: b₂ :: b₃ :: _ =>
    .ofNat (b₀.toNat + 256 * b₁.toNat + 65536 * b₂.toNat + 16777216 * b₃.toNat)
  | _ => 0

theorem getUInt32_put (x : UInt32) (rest : List UInt8) : getUInt32 (putUInt32 x ++ rest) = x := by
  have hx := x.toNat_lt
  apply UInt32.toNat_inj.mp
  simp only [putUInt32, getUInt32, List.cons_append, UInt8.toNat_ofNat', UInt32.toNat_ofNat']
  omega

theorem getUInt32_append {xs : List UInt8} (h : 4 ≤ xs.length) (ys : List UInt8) :
    getUInt32 (xs ++ ys) = getUInt32 xs := by
  match xs with
  | _ :: _ :: _ :: _ :: _ => rfl

theorem putUInt32_get {xs : List UInt8} (h : xs.length = 4) : putUInt32 (getUInt32 xs) = xs := by
  match xs with
  | [b₀, b₁, b₂, b₃] =>
    have h₀ := b₀.toNat_lt
    have h₁ := b₁.toNat_lt
    have h₂ := b₂.toNat_lt
    have h₃ := b₃.toNat_lt
    simp only [getUInt32, putUInt32, UInt32.toNat_ofNat', List.cons.injEq, and_true,
      ← UInt8.toNat_inj, UInt8.toNat_ofNat']
    omega

section overwrite

variable {γ : Type}

/-- `bytes` written over a buffer, from position `start` on. -/
def overwrite (buffer : List γ) (start : Nat) (bytes : List γ) : List γ :=
  buffer.take start ++ bytes ++ buffer.drop (start + bytes.length)

@[simp] theorem length_overwrite {buffer : List γ} {start : Nat} {bytes : List γ}
    (h : start + bytes.length ≤ buffer.length) :
    (overwrite buffer start bytes).length = buffer.length := by
  simp only [overwrite, List.length_append, List.length_take, List.length_drop]
  omega

@[simp] theorem overwrite_nil (buffer : List γ) (start : Nat) : overwrite buffer start [] = buffer := by
  rw [overwrite, List.append_nil, List.length_nil, Nat.add_zero, List.take_append_drop]

theorem overwrite_full {buffer bytes : List γ} (h : buffer.length = bytes.length) :
    overwrite buffer 0 bytes = bytes := by
  rw [overwrite, Nat.zero_add, ← h, List.drop_length, List.take_zero, List.nil_append,
    List.append_nil]

theorem overwrite_set {buffer : List γ} {i : Nat} (hi : i < buffer.length) (b : γ)
    (bytes : List γ) :
    overwrite (buffer.set i b) (i + 1) bytes = overwrite buffer i (b :: bytes) := by
  have htake : (buffer.set i b).take (i + 1) = buffer.take i ++ [b] := by
    have hset : i < (buffer.set i b).length := by rwa [List.length_set]
    rw [List.take_succ_eq_append_getElem hset, List.getElem_set_self, List.take_set_of_le (Nat.le_refl i)]
  rw [overwrite, overwrite, htake, List.drop_set_of_lt (by omega), List.length_cons,
    Nat.add_assoc i 1, Nat.add_comm 1, List.append_assoc _ [b]]
  rfl

theorem overwrite_singleton {buffer : List γ} {i : Nat} (hi : i < buffer.length) (b : γ) :
    overwrite buffer i [b] = buffer.set i b := by
  rw [← overwrite_set hi, overwrite_nil]

theorem overwrite_append (buffer bytes bytes' : List γ) :
    overwrite (overwrite buffer 0 bytes) bytes.length bytes' =
      overwrite buffer 0 (bytes ++ bytes') := by
  have htake : (overwrite buffer 0 bytes).take bytes.length = bytes := by
    rw [overwrite, List.take_zero, List.nil_append, List.take_left]
  have hdrop (n : Nat) : (overwrite buffer 0 bytes).drop (bytes.length + n) =
      buffer.drop (bytes.length + n) := by
    rw [overwrite, List.take_zero, List.nil_append, Nat.zero_add, ← List.drop_drop, List.drop_left,
      List.drop_drop]
  rw [overwrite, htake, hdrop, overwrite, List.take_zero, List.nil_append, Nat.zero_add,
    List.length_append]

/-- Inside the range the new bytes stand, outside it the old ones. -/
theorem getElem?_overwrite {buffer : List γ} {start : Nat} {bytes : List γ}
    (h : start + bytes.length ≤ buffer.length) (i : Nat) :
    (overwrite buffer start bytes)[i]? =
      if start ≤ i ∧ i < start + bytes.length then bytes[i - start]? else buffer[i]? := by
  have htake : (buffer.take start).length = start := by
    rw [List.length_take]
    omega
  rw [overwrite, List.append_assoc, List.getElem?_append, htake]
  split
  · rw [if_neg (by omega), List.getElem?_take, if_pos ‹_›]
  · rw [List.getElem?_append]
    split
    · rw [if_pos (by omega)]
    · rw [if_neg (by omega), List.getElem?_drop]
      congr 1
      omega

end overwrite

section resize

variable {γ : Type} [Inhabited γ]

/-- `xs` cut or filled up to a length of `n`. -/
def resize (xs : List γ) (n : Nat) : List γ := xs.take n ++ List.replicate (n - xs.length) default

@[simp] theorem length_resize (xs : List γ) (n : Nat) : (resize xs n).length = n := by
  rw [resize, List.length_append, List.length_take, List.length_replicate]
  omega

end resize

end Open3DStream.Lib
