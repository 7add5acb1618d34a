import Open3DStream.Lib.Machine
import Open3DStream.Stream.Values

/-! Any reads, one after the other, of arbitrary bytes. -/

namespace Open3DStream

open Lib

/-- A call of one of the overloads of `get`. -/
inductive Read where
  | raw (buf : List UInt8) (len : Nat) (msg : Option String)
  | value (var : Value) (msg : Option String)

namespace BinaryStream

/-- A read; whoever goes on after one that throws has caught the exception. -/
def read (s : BinaryStream) : Read → Option (Except Fault Unit × BinaryStream)
  | .raw buf len msg =>
    let (result, _, s) := s.get buf len msg
    some (result, s)
  | .value var msg =>
    let (result, _, s) := s.getValue msg var
    some (result, s)

/-- The sum that a raw read tests does not wrap. -/
def InRange (s : BinaryStream) : Read → Prop
  | .raw _ len _ => s.ptr + len < 18446744073709551616
  | .value _ _ => True

/-- The read succeeds and moves the cursor past the encoding of what it returns, or throws a
stream exception; either way the cursor stays in the vector. -/
def Honoured (s : BinaryStream) : Read → Prop
  | .raw buf len msg => s.Ends (fun _ => len) (s.get buf len msg)
  | .value var msg => s.Ends (fun v => v.encode.length) (s.getValue msg var)

/-- An empty raw read is not made at the end, and a double not where four bytes are left. -/
def Sound (s : BinaryStream) : Read → Prop
  | .raw _ len _ => len = 0 → s.ptr ≠ s.size
  | .value var _ => var.type = .double → s.size < s.ptr + 4

instance (s : BinaryStream) : ∀ r : Read, Decidable (s.InRange r)
  | .raw _ len _ => inferInstanceAs (Decidable (s.ptr + len < 18446744073709551616))
  | .value _ _ => inferInstanceAs (Decidable True)

instance (s : BinaryStream) : ∀ r : Read, Decidable (s.Sound r)
  | .raw _ len _ => inferInstanceAs (Decidable (len = 0 → s.ptr ≠ s.size))
  | .value var _ => inferInstanceAs (Decidable (var.type = .double → s.size < s.ptr + 4))

section step

variable {s : BinaryStream}

/-- A raw read of any length, by whether it is an empty one at the end. -/
theorem get_ends {len : Nat} (hs : s.ptr ≤ s.size) (hr : s.ptr + len < 18446744073709551616)
    (h : len = 0 → s.ptr ≠ s.size) (buf : List UInt8) (msg : Option String) :
    s.Ends (fun _ => len) (s.get buf len msg) := by
  by_cases hle : s.ptr + len ≤ s.size
  · obtain ⟨w, rfl, ha⟩ := ahead_of_le hle
    cases w with
    | nil =>
      have hne := h rfl
      rw [List.length_nil, get_empty buf msg (by omega)]
      exact ends_ok (fun _ => 0) hs
    | cons b w =>
      rw [get_of_ahead buf msg ha]
      exact ends_ok (fun _ => (b :: w).length) hle
  · obtain ⟨text, hget⟩ := get_of_short buf msg hr (Nat.lt_of_not_le hle)
    rw [hget]
    exact ends_throw le_rfl text _

theorem type_getValue (var : Value) (msg : Option String) :
    (s.getValue msg var).2.1.type = var.type := by
  cases var <;> rfl

/-- A double is read as if it had four bytes. -/
theorem getValue_double_ends (hs : s.ptr ≤ s.size) (bits : UInt64) (msg : Option String) :
    s.Ends (fun v => v.encode.length) (s.getValue msg (.double bits)) ↔ s.size < s.ptr + 4 := by
  have hsize : s.size ≤ maxSize := s.size_le
  rw [maxSize] at hsize
  rw [getValue, getDouble]
  by_cases hle : s.ptr + 4 ≤ s.size
  · obtain ⟨w, hw, ha⟩ := ahead_of_le hle
    have hget := getWord_of_ahead 8 bits.toNat msg ha (by omega)
    rw [hw] at hget
    rw [hget]
    refine iff_of_false ?_ (by omega)
    rintro ⟨-, hseek⟩
    have hptr := congrArg BinaryStream.ptr hseek
    change s.ptr + 4 = s.ptr + (toBytes 8 _).length at hptr
    rw [length_toBytes] at hptr
    omega
  · obtain ⟨text, x, hget⟩ := getWord_of_short 8 bits.toNat msg
      (show s.ptr + 4 < 18446744073709551616 by omega) (Nat.lt_of_not_le hle)
    rw [hget]
    exact iff_of_true (ends_throw le_rfl text _) (Nat.lt_of_not_le hle)

theorem honoured_iff (hs : s.ptr ≤ s.size) {r : Read} (hr : s.InRange r) :
    s.Honoured r ↔ s.Sound r := by
  cases r with
  | raw buf len msg =>
    refine ⟨?_, fun h => get_ends hs hr h buf msg⟩
    rintro h rfl hend
    rw [Honoured, get_at_end buf msg hend] at h
    exact h
  | value var msg =>
    by_cases hd : var.type = .double
    · cases var with
      | double bits =>
        rw [Honoured, getValue_double_ends hs, Sound]
        exact ⟨fun h _ => h, fun h => h rfl⟩
      | _ => cases hd
    · have hlen := Value.readLength_of_ne (v := (s.getValue msg var).2.1) (by rwa [type_getValue])
      exact iff_of_true ((getValue_ends hs var msg).of_eq hlen) fun h => absurd h hd

theorem Ends.ptr_le {δ : Type} {len : δ → Nat} {g : Got δ} (h : s.Ends len g) :
    g.2.2.ptr ≤ g.2.2.size := by
  obtain ⟨result, value, t⟩ := g
  cases result with
  | ok u =>
    obtain ⟨hle, rfl⟩ := h
    exact hle
  | error e =>
    cases e with
    | StreamException text =>
      obtain ⟨p, hp, rfl⟩ := h
      exact hp
    | out_of_range => exact h.elim
    | length_error => exact h.elim
    | pastEnd => exact h.elim

/-- Every read leaves the cursor in the vector, also one that does not do what it should. -/
theorem read_ptr_le (hs : s.ptr ≤ s.size) {r : Read} (hr : s.InRange r) :
    ∃ o, s.read r = some o ∧ o.2.ptr ≤ o.2.size := by
  cases r with
  | raw buf len msg =>
    refine ⟨_, rfl, ?_⟩
    change (s.get buf len msg).2.2.ptr ≤ (s.get buf len msg).2.2.size
    by_cases h : len = 0 ∧ s.ptr = s.size
    · obtain ⟨rfl, hend⟩ := h
      rw [get_at_end buf msg hend]
      exact hs
    · exact (get_ends hs hr (fun h0 hend => h ⟨h0, hend⟩) buf msg).ptr_le
  | value var msg => exact ⟨_, rfl, (getValue_ends hs var msg).ptr_le⟩

end step

/-- Whatever is read of whatever bytes, the cursor stays in the vector; and all of the reads do
what they should exactly when none of them is an empty raw read at the end or a double where
four bytes are left. -/
theorem each_honoured_iff {s : BinaryStream} (hs : s.ptr ≤ s.size) {reads : List Read}
    (hr : Each read InRange s reads) :
    (∃ r, run read s reads = some r ∧ r.2.ptr ≤ r.2.size) ∧
      (Each read Honoured s reads ↔ Each read Sound s reads) := by
  refine ⟨Each.run_isSome (P := fun s => s.ptr ≤ s.size) (fun s r hs hr => read_ptr_le hs hr) hs hr,
    ?_⟩
  refine Each.congr (P := fun s => s.ptr ≤ s.size) (U := InRange) ?_ ?_ hs hr
  · intro s r o hs hr ho
    obtain ⟨o', ho', hle⟩ := read_ptr_le hs hr
    rw [ho] at ho'
    cases ho'
    exact hle
  · exact fun s r hs hr => honoured_iff hs hr

/-- A string that is there, and then more bytes than are left. -/
theorem each_honoured_iff_short :
    let s : BinaryStream := ⟨[2, 79, 51, 9], 0, false, by decide⟩
    let reads : List Read := [.value (.string []) none, .raw [0, 0] 2 (some "rest")]
    Each read InRange s reads ∧
      ((∃ r, run read s reads = some r ∧ r.2.ptr ≤ r.2.size) ∧
        (Each read Honoured s reads ↔ Each read Sound s reads)) ∧ Each read Sound s reads :=
  ⟨by decide, each_honoured_iff (by decide) (by decide), by decide⟩

/-- Nothing is asked of an empty stream, and the read throws what no caller expects. -/
theorem empty_read_not_honoured :
    empty.ptr ≤ empty.size ∧ empty.InRange (.raw [] 0 none) ∧
      ¬empty.Honoured (.raw [] 0 none) := by
  refine ⟨le_rfl, by decide, ?_⟩
  intro h
  rw [Honoured, get_at_end [] none rfl] at h
  exact h

end BinaryStream

end Open3DStream
