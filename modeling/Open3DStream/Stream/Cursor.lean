import Open3DStream.Stream.Binary

/-! What the reads of a stream do, by the bytes that are left. -/

namespace Open3DStream

open Lib

namespace BinaryStream

/-- The stream with its cursor at `p`. -/
def seek (s : BinaryStream) (p : Nat) : BinaryStream := { s with ptr := p }

@[simp] theorem seek_ptr (s : BinaryStream) (p : Nat) : (s.seek p).ptr = p := rfl

@[simp] theorem seek_bytes (s : BinaryStream) (p : Nat) : (s.seek p).bytes = s.bytes := rfl

@[simp] theorem seek_size (s : BinaryStream) (p : Nat) : (s.seek p).size = s.size := rfl

@[simp] theorem seek_seek (s : BinaryStream) (p q : Nat) : (s.seek p).seek q = s.seek q := rfl

theorem addSize_of_lt {a b : Nat} (h : a + b < 18446744073709551616) : addSize a b = a + b :=
  Nat.mod_eq_of_lt h

/-- A sum within the vector does not wrap. -/
theorem addSize_of_le {s : BinaryStream} {a b : Nat} (h : a + b ≤ s.size) :
    addSize a b = a + b := by
  have hs : s.size ≤ maxSize := s.size_le
  rw [maxSize] at hs
  exact addSize_of_lt (by omega)

/-! ### Bytes at the cursor -/

/-- The bytes `w` are the next ones. -/
def Ahead (s : BinaryStream) (w : List UInt8) : Prop := ∃ rest, s.bytes.drop s.ptr = w ++ rest

theorem ahead_of_le {s : BinaryStream} {n : Nat} (h : s.ptr + n ≤ s.size) :
    ∃ w, w.length = n ∧ s.Ahead w := by
  have hlen : s.bytes.length = s.size := rfl
  refine ⟨(s.bytes.drop s.ptr).take n, ?_, (s.bytes.drop s.ptr).drop n, ?_⟩
  · rw [List.length_take, List.length_drop]
    omega
  · rw [List.take_append_drop]

section ahead

variable {s : BinaryStream} {b : UInt8} {w w' : List UInt8}

theorem Ahead.take (h : s.Ahead w) : (s.bytes.drop s.ptr).take w.length = w := by
  obtain ⟨rest, h⟩ := h
  rw [h, List.take_left]

theorem Ahead.left (h : s.Ahead (w ++ w')) : s.Ahead w := by
  obtain ⟨rest, h⟩ := h
  exact ⟨w' ++ rest, h.trans (List.append_assoc w w' rest)⟩

theorem Ahead.right (h : s.Ahead (w ++ w')) : (s.seek (s.ptr + w.length)).Ahead w' := by
  obtain ⟨rest, h⟩ := h
  refine ⟨rest, ?_⟩
  rw [seek_ptr, seek_bytes, ← List.drop_drop, h, List.append_assoc, List.drop_left]

theorem Ahead.le (h : s.Ahead (b :: w)) : s.ptr + (b :: w).length ≤ s.size := by
  obtain ⟨rest, h⟩ := h
  have hlen := congrArg List.length h
  have hsize : s.bytes.length = s.size := rfl
  rw [List.length_append, List.length_drop, List.length_cons] at hlen
  rw [List.length_cons]
  omega

theorem Ahead.head (h : s.Ahead (b :: w)) : s.bytes[s.ptr]? = some b := by
  obtain ⟨rest, h⟩ := h
  rw [← Nat.add_zero s.ptr, ← List.getElem?_drop, h]
  rfl

end ahead

/-! ### Raw reads -/

section get

variable {s : BinaryStream} {b : UInt8} {w : List UInt8} (buf : List UInt8) (msg : Option String)

theorem get_of_ahead (h : s.Ahead (b :: w)) :
    s.get buf (b :: w).length msg =
      (.ok (), overwrite buf 0 (b :: w), s.seek (s.ptr + (b :: w).length)) := by
  have hle := h.le
  rw [get, addSize_of_le hle, h.head, h.take]
  dsimp only
  rw [if_neg (by omega), if_neg (by omega)]
  rfl

/-- A read that is too long moves the cursor to the end. -/
theorem get_of_short {len : Nat} (hlen : s.ptr + len < 18446744073709551616)
    (h : s.size < s.ptr + len) :
    ∃ text, s.get buf len msg =
      (.error (.StreamException text), overwrite buf 0 (List.replicate len 0), s.seek s.size) := by
  rw [get, addSize_of_lt hlen]
  dsimp only
  rw [if_pos h]
  exact ⟨_, rfl⟩

/-- An empty read has no byte to point at where the vector ends. -/
theorem get_at_end (h : s.ptr = s.size) : s.get buf 0 msg = (.error .out_of_range, buf, s) := by
  have hend : s.bytes[s.ptr]? = none := List.getElem?_eq_none (Nat.le_of_eq h.symm)
  have hadd : addSize s.ptr 0 = s.ptr := addSize_of_le (Nat.le_of_eq h)
  rw [get, hadd, hend]
  dsimp only
  rw [if_neg (by omega)]

theorem get_empty (h : s.ptr < s.size) : s.get buf 0 msg = (.ok (), buf, s) := by
  have hadd : addSize s.ptr 0 = s.ptr := addSize_of_le h.le
  rw [get, hadd, List.getElem?_eq_getElem h]
  dsimp only
  rw [if_neg (by omega), if_neg (by omega), List.take_zero, overwrite_nil]

end get

/-! ### Single bytes -/

theorem next_of_ahead {s : BinaryStream} {b : UInt8} {w : List UInt8} (h : s.Ahead (b :: w)) :
    s.next = (.ok b, s.seek (s.ptr + 1)) := by
  have hle := h.le
  rw [List.length_cons] at hle
  rw [next, h.head, addSize_of_le (s := s) (by omega)]
  rfl

theorem ahead_of_lt {s : BinaryStream} (h : s.ptr < s.size) : ∃ b, s.Ahead [b] := by
  obtain ⟨w, hw, ha⟩ := ahead_of_le (n := 1) h
  obtain ⟨b, rfl⟩ := List.length_eq_one_iff.mp hw
  exact ⟨b, ha⟩

/-! ### How a read ends -/

/-- A read returns a value of the length `len` gives it and moves the cursor past it, or it
throws a stream exception and leaves the cursor in the vector. -/
def Ends {δ : Type} (s : BinaryStream) (len : δ → Nat) : Got δ → Prop
  | (.ok _, value, t) => s.ptr + len value ≤ s.size ∧ t = s.seek (s.ptr + len value)
  | (.error (.StreamException _), _, t) => ∃ p, p ≤ s.size ∧ t = s.seek p
  | (.error _, _, _) => False

section ends

variable {δ ε : Type} {s : BinaryStream} {len : δ → Nat}

theorem ends_ok (len : δ → Nat) {value : δ} (h : s.ptr + len value ≤ s.size) :
    s.Ends len (.ok (), value, s.seek (s.ptr + len value)) := ⟨h, rfl⟩

theorem ends_throw {p : Nat} (hp : p ≤ s.size) (text : String) (value : δ) :
    s.Ends len (.error (.StreamException text), value, s.seek p) := ⟨p, hp, rfl⟩


/-- An exception is the same for every variable, and wherever the read began. -/
theorem Ends.error {e : Fault} {value : δ} {t : BinaryStream} {p : Nat}
    (h : (s.seek p).Ends len (.error e, value, t)) (len' : ε → Nat) (value' : ε) :
    s.Ends len' (.error e, value', t) := by
  cases e with
  | StreamException text => exact h
  | out_of_range => exact h
  | length_error => exact h
  | pastEnd => exact h

/-- A variable of another type that is as long. -/
theorem Ends.map {len' : ε → Nat} {f : δ → ε} {g : Got δ} (h : s.Ends len g)
    (hf : ∀ value, len value = len' (f value)) : s.Ends len' (g.1, f g.2.1, g.2.2) := by
  obtain ⟨result, value, t⟩ := g
  cases result with
  | ok u =>
    obtain ⟨hle, ht⟩ := h
    rw [hf value] at hle ht
    exact ⟨hle, ht⟩
  | error e => exact h.error _ _

theorem Ends.of_eq {len' : δ → Nat} {g : Got δ} (h : s.Ends len g) (hg : len g.2.1 = len' g.2.1) :
    s.Ends len' g := by
  obtain ⟨result, value, t⟩ := g
  cases result with
  | ok u =>
    obtain ⟨hle, ht⟩ := h
    rw [hg] at hle ht
    exact ⟨hle, ht⟩
  | error e => exact h.error _ _

/-- A read that goes on `n` bytes later. -/
theorem Ends.after {n : Nat} {g : Got δ} (h : (s.seek (s.ptr + n)).Ends len g) :
    s.Ends (fun value => n + len value) g := by
  obtain ⟨result, value, t⟩ := g
  cases result with
  | ok u =>
    obtain ⟨hle, ht⟩ := h
    rw [seek_ptr, Nat.add_assoc] at hle ht
    exact ⟨hle, ht⟩
  | error e => exact h.error _ _

end ends

/-! ### Words -/

section words

variable {s : BinaryStream} {w : List UInt8} (width value : Nat) (msg : Option String)

theorem getWord_of_ahead (h : s.Ahead w) (hpos : 0 < w.length) :
    s.getWord width w.length value msg =
      (.ok (), ofBytes (if s.swaporder then (overwrite (toBytes width value) 0 w).reverse
        else overwrite (toBytes width value) 0 w), s.seek (s.ptr + w.length)) := by
  obtain ⟨b, w, rfl⟩ := List.exists_cons_of_length_pos hpos
  rw [getWord, get_of_ahead _ msg h]
  rfl

theorem getWord_of_short {len : Nat} (hlen : s.ptr + len < 18446744073709551616)
    (h : s.size < s.ptr + len) :
    ∃ text x, s.getWord width len value msg = (.error (.StreamException text), x, s.seek s.size) := by
  obtain ⟨text, hget⟩ := get_of_short (toBytes width value) msg hlen h
  rw [getWord, hget]
  exact ⟨_, _, rfl⟩

theorem getWord_ends {len : Nat} (hs : s.ptr ≤ s.size) (hpos : 0 < len) (hlen : len ≤ maxSize) :
    s.Ends (fun _ => len) (s.getWord width len value msg) := by
  have hsize : s.size ≤ maxSize := s.size_le
  rw [maxSize] at hsize hlen
  by_cases h : s.ptr + len ≤ s.size
  · obtain ⟨w, rfl, ha⟩ := ahead_of_le h
    rw [getWord_of_ahead width value msg ha hpos]
    exact ends_ok _ h
  · obtain ⟨text, x, hget⟩ := getWord_of_short width value msg
      (by omega) (Nat.lt_of_not_le h)
    rw [hget]
    exact ends_throw le_rfl text x

/-- A word that fills its variable. -/
theorem getWord_full (h : s.Ahead w) (hpos : 0 < w.length) (hs : s.swaporder = false) :
    s.getWord w.length w.length value msg = (.ok (), ofBytes w, s.seek (s.ptr + w.length)) := by
  rw [getWord_of_ahead w.length value msg h hpos, hs, if_neg Bool.false_ne_true,
    overwrite_full (length_toBytes w.length value)]

end words

/-! ### Bytes and lists of bytes -/

theorem getUInt8_of_ahead {s : BinaryStream} {b : UInt8} {w : List UInt8} (h : s.Ahead (b :: w))
    (value : UInt8) (msg : Option String) :
    s.getUInt8 value msg = (.ok (), b, s.seek (s.ptr + 1)) := by
  have hle := h.le
  rw [List.length_cons] at hle
  rw [getUInt8, if_neg (by omega), next_of_ahead h]

theorem getUInt8_ends {s : BinaryStream} (hs : s.ptr ≤ s.size) (value : UInt8)
    (msg : Option String) : s.Ends (fun _ => 1) (s.getUInt8 value msg) := by
  by_cases h : s.ptr < s.size
  · obtain ⟨b, hb⟩ := ahead_of_lt h
    rw [getUInt8_of_ahead hb]
    exact ends_ok (fun _ => 1) h
  · rw [getUInt8, if_pos (Nat.le_of_not_lt h)]
    exact ends_throw hs _ _

theorem getElements_of_ahead {w : List UInt8} {s : BinaryStream} (h : s.Ahead w)
    (msg : Option String) {value : List UInt8} {i : Nat} (hi : i + w.length ≤ value.length) :
    getElements msg s value i w.length = (.ok (), overwrite value i w, s.seek (s.ptr + w.length)) := by
  induction w generalizing s value i with
  | nil =>
    rw [overwrite_nil]
    rfl
  | cons b w ih =>
    have hle := h.le
    rw [List.length_cons] at hi hle
    have hrest : (s.seek (s.ptr + 1)).Ahead w := Ahead.right (w := [b]) h
    have hset : i + 1 + w.length ≤ (value.set i b).length := by
      rw [List.length_set]
      omega
    rw [List.length_cons, getElements, if_neg (by omega), next_of_ahead h]
    dsimp only
    rw [ih hrest hset, overwrite_set (by omega), seek_ptr, seek_seek, Nat.add_assoc,
      Nat.add_comm 1]

theorem getElements_length (msg : Option String) (s : BinaryStream) (value : List UInt8)
    (i left : Nat) : (getElements msg s value i left).2.1.length = value.length := by
  induction left generalizing s value i with
  | zero => rfl
  | succ left ih =>
    rw [getElements]
    split
    · rfl
    · obtain ⟨result, t⟩ := s.next
      cases result with
      | error e => rfl
      | ok b => exact (ih t (value.set i b) (i + 1)).trans List.length_set

theorem getElements_ends {s : BinaryStream} (hs : s.ptr ≤ s.size) (msg : Option String)
    (value : List UInt8) (i left : Nat) :
    s.Ends (fun _ => left) (getElements msg s value i left) := by
  induction left generalizing s value i with
  | zero => exact ends_ok (fun _ => 0) hs
  | succ left ih =>
    rw [getElements]
    by_cases h : s.ptr < s.size
    · obtain ⟨b, hb⟩ := ahead_of_lt h
      rw [if_neg (by omega), next_of_ahead hb]
      have hrest := (ih (s := s.seek (s.ptr + 1)) h (value.set i b) (i + 1)).after
      exact hrest.of_eq (Nat.add_comm 1 left)
    · rw [if_pos (by omega)]
      exact ends_throw hs _ _

theorem getVector_of_ahead {s : BinaryStream} {v : List UInt8} (hs : s.swaporder = false)
    (hv : v.length ≤ 65535) (h : s.Ahead (toBytes 2 v.length ++ v)) (value : List UInt8)
    (msg : Option String) :
    s.getVector value msg = (.ok (), v, s.seek (s.ptr + (2 + v.length))) := by
  have hlen : (UInt16.ofNat v.length).toNat = v.length := by
    rw [UInt16.toNat_ofNat']
    omega
  have hword := getWord_full 0 none h.left (by rw [length_toBytes]; omega) hs
  rw [length_toBytes, ofBytes_toBytes (by omega)] at hword
  have hrest := h.right
  rw [length_toBytes] at hrest
  have hget : s.getUInt16 0 none = (.ok (), .ofNat v.length, s.seek (s.ptr + 2)) := by
    rw [getUInt16]
    exact congrArg (fun g : Got Nat => (g.1, UInt16.ofNat g.2.1, g.2.2)) hword
  rw [getVector, hget]
  dsimp only
  rw [hlen, getElements_of_ahead hrest msg (by rw [length_resize, Nat.zero_add]),
    overwrite_full (length_resize value v.length), seek_ptr, seek_seek, Nat.add_assoc]

theorem getVector_ends {s : BinaryStream} (hs : s.ptr ≤ s.size) (value : List UInt8)
    (msg : Option String) : s.Ends (fun v => 2 + v.length) (s.getVector value msg) := by
  have hget : s.Ends (fun _ => 2) (s.getUInt16 0 none) :=
    (getWord_ends 2 0 none hs Nat.two_pos (by decide)).map fun _ => rfl
  rw [getVector]
  generalize s.getUInt16 0 none = g at hget
  obtain ⟨result, len, t⟩ := g
  cases result with
  | error e => exact hget.error _ value
  | ok u =>
    obtain ⟨hle, rfl⟩ := hget
    have hrest := (getElements_ends (s := s.seek (s.ptr + 2)) hle msg
      (resize value len.toNat) 0 len.toNat).after
    apply hrest.of_eq
    rw [getElements_length, length_resize]

theorem getChars_of_ahead {w : List UInt8} {s : BinaryStream} (h : s.Ahead w) (value : List UInt8) :
    s.getChars value w.length = (.ok (), value ++ w, s.seek (s.ptr + w.length)) := by
  induction w generalizing s value with
  | nil =>
    rw [List.append_nil]
    rfl
  | cons b w ih =>
    have hle := h.le
    have hrest : (s.seek (s.ptr + 1)).Ahead w := Ahead.right (w := [b]) h
    rw [List.length_cons] at hle ⊢
    rw [getChars, if_pos (by omega), next_of_ahead h]
    dsimp only
    rw [ih hrest, List.append_assoc, seek_ptr, seek_seek, Nat.add_assoc, Nat.add_comm 1]
    rfl

/-- The test for the length is made with the cursor on the first character. -/
theorem getString_eq {s : BinaryStream} {b : UInt8} {w : List UInt8} (h : s.Ahead (b :: w))
    (value : List UInt8) (msg : Option String) :
    s.getString value msg =
      if s.size < s.ptr + 1 + b.toNat then
        (.error (.StreamException ("Incomplete string" ++ whileGetting msg)), [], s.seek (s.ptr + 1))
      else (s.seek (s.ptr + 1)).getChars [] b.toNat := by
  have hle := h.le
  have hsize : s.size ≤ maxSize := s.size_le
  have hb := b.toNat_lt
  rw [List.length_cons] at hle
  rw [maxSize] at hsize
  have hdone : s.done = false := decide_eq_false (by omega)
  rw [getString, hdone, if_neg Bool.false_ne_true, next_of_ahead h]
  dsimp only
  rw [seek_size, seek_ptr, addSize_of_lt (by omega), Nat.add_comm b.toNat]

theorem getString_of_ahead {s : BinaryStream} {v : List UInt8} (hv : v.length ≤ 255)
    (h : s.Ahead (.ofNat v.length :: v)) (value : List UInt8) (msg : Option String) :
    s.getString value msg = (.ok (), v, s.seek (s.ptr + (1 + v.length))) := by
  have hle := h.le
  have hlen : (UInt8.ofNat v.length).toNat = v.length := by
    rw [UInt8.toNat_ofNat']
    omega
  have hrest : (s.seek (s.ptr + 1)).Ahead v := Ahead.right (w := [.ofNat v.length]) h
  rw [List.length_cons] at hle
  rw [getString_eq h, hlen, if_neg (by omega), getChars_of_ahead hrest, List.nil_append, seek_ptr,
    seek_seek, Nat.add_assoc]

theorem getString_ends {s : BinaryStream} (hs : s.ptr ≤ s.size) (value : List UInt8)
    (msg : Option String) : s.Ends (fun v => 1 + v.length) (s.getString value msg) := by
  by_cases hend : s.size ≤ s.ptr
  · have hdone : s.done = true := decide_eq_true hend
    rw [getString, hdone, if_pos rfl]
    exact ends_throw hs _ _
  · obtain ⟨b, hb⟩ := ahead_of_lt (Nat.lt_of_not_le hend)
    rw [getString_eq hb]
    split
    · exact ends_throw (by omega) _ _
    · obtain ⟨w, hw, ha⟩ := ahead_of_le (s := s.seek (s.ptr + 1)) (n := b.toNat)
        (by rw [seek_ptr, seek_size]; omega)
      rw [← hw, getChars_of_ahead ha, List.nil_append, seek_ptr, seek_seek, Nat.add_assoc]
      exact ends_ok (fun v : List UInt8 => 1 + v.length) (by omega)

end BinaryStream

end Open3DStream
