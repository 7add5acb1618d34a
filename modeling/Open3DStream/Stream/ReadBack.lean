import Mathlib.Algebra.Order.BigOperators.Group.List
import Open3DStream.Stream.Values

/-! Sequences of values that are pushed and read back. -/

namespace Open3DStream

open Lib

namespace BinaryStream

def pushAll (s : BinaryStream) (vs : List Value) : Except Fault BinaryStream :=
  vs.foldlM pushValue s

/-- Reads into variables, each with what the caller says about it, until one throws. -/
def getAll (s : BinaryStream) : List (Value × Option String) → Got (List Value)
  | [] => (.ok (), [], s)
  | (var, msg) :: vars =>
    match s.getValue msg var with
    | (.error e, v, s) => (.error e, v :: vars.map (·.1), s)
    | (.ok _, v, s) =>
      let (result, vs, s) := getAll s vars
      (result, v :: vs, s)

/-- All is pushed onto an empty stream, and all of it is read back. -/
def ReadsBack (vs : List Value) (vars : List (Value × Option String)) : Prop :=
  ∃ s t, empty.pushAll vs = .ok s ∧ s.getAll vars = (.ok (), vs, t) ∧ t.done = true

theorem pushAll_eq (s : BinaryStream) (vs : List Value) :
    s.pushAll vs = (vs.flatMap Value.encode).foldlM push_back s := by
  induction vs generalizing s with
  | nil => rfl
  | cons v vs ih =>
    rw [pushAll, List.foldlM_cons, pushValue_eq, List.flatMap_cons, List.foldlM_append]
    congr 1
    funext t
    exact ih t

theorem pushAll_empty_iff {s : BinaryStream} {vs : List Value} :
    empty.pushAll vs = .ok s ↔
      s.bytes = vs.flatMap Value.encode ∧ s.ptr = 0 ∧ s.swaporder = false := by
  rw [pushAll_eq]
  exact pushed_iff

/-- The values are read that are ahead. -/
theorem getAll_of_ahead {vs : List Value} {vars : List (Value × Option String)} {s : BinaryStream}
    (hs : s.swaporder = false) (hfits : ∀ v ∈ vs, v.Fits) (hdouble : ∀ v ∈ vs, v.type ≠ .double)
    (htypes : vars.map (·.1.type) = vs.map Value.type) (h : s.Ahead (vs.flatMap Value.encode)) :
    s.getAll vars = (.ok (), vs, s.seek (s.ptr + (vs.flatMap Value.encode).length)) := by
  induction vs generalizing vars s with
  | nil =>
    obtain rfl := List.map_eq_nil_iff.mp htypes
    rfl
  | cons v vs ih =>
    cases vars with
    | nil => cases htypes
    | cons first vars =>
      obtain ⟨var, msg⟩ := first
      obtain ⟨hv, hfits⟩ := List.forall_mem_cons.mp hfits
      obtain ⟨hne, hdouble⟩ := List.forall_mem_cons.mp hdouble
      obtain ⟨htype, htypes⟩ := List.cons_eq_cons.mp htypes
      rw [List.flatMap_cons] at h ⊢
      rw [getAll, getValue_of_ahead hs hv hne htype h.left]
      have hrest := ih (s := s.seek (s.ptr + v.encode.length)) hs hfits hdouble htypes h.right
      dsimp only
      rw [hrest, List.length_append, seek_ptr, seek_seek, Nat.add_assoc]

/-- Where reads that all succeed leave the cursor. -/
theorem getAll_ok {vars : List (Value × Option String)} {s t : BinaryStream} {vs : List Value}
    (hs : s.ptr ≤ s.size) (h : s.getAll vars = (.ok (), vs, t)) :
    t = s.seek (s.ptr + (vs.map Value.readLength).sum) := by
  induction vars generalizing s vs with
  | nil =>
    cases h
    rfl
  | cons first vars ih =>
    obtain ⟨var, msg⟩ := first
    have hends := getValue_ends hs var msg
    rw [getAll] at h
    generalize s.getValue msg var = g at h hends
    obtain ⟨result, v, s'⟩ := g
    cases result with
    | error e => cases h
    | ok u =>
      obtain ⟨hle, rfl⟩ := hends
      dsimp only at h
      obtain ⟨result, ws, t', hrest⟩ : ∃ result ws t',
          (s.seek (s.ptr + v.readLength)).getAll vars = (result, ws, t') := ⟨_, _, _, rfl⟩
      rw [hrest] at h
      cases h
      rw [ih hle hrest, List.map_cons, List.sum_cons, seek_ptr, seek_seek, Nat.add_assoc]

/-- A double is left half unread. -/
theorem sum_readLength_lt {vs : List Value} {v : Value} (hv : v ∈ vs) (h : v.type = .double) :
    (vs.map Value.readLength).sum < (vs.flatMap Value.encode).length := by
  rw [List.length_flatMap]
  exact List.sum_lt_sum _ _ (fun w _ => w.readLength_le) ⟨v, hv, Value.readLength_lt h⟩

/-- A sequence of values is read back exactly when there is no double in it, and the vector
has room for its bytes. -/
theorem readsBack_iff {vs : List Value} {vars : List (Value × Option String)}
    (hfits : ∀ v ∈ vs, v.Fits) (htypes : vars.map (·.1.type) = vs.map Value.type) :
    ReadsBack vs vars ↔
      (∀ v ∈ vs, v.type ≠ .double) ∧ (vs.flatMap Value.encode).length ≤ maxSize := by
  refine ⟨?_, ?_⟩
  · rintro ⟨s, t, hpush, hget, hdone⟩
    obtain ⟨hbytes, hptr, hswap⟩ := pushAll_empty_iff.mp hpush
    have hsize : s.size = (vs.flatMap Value.encode).length := congrArg List.length hbytes
    refine ⟨?_, hbytes ▸ s.size_le⟩
    intro v hv hdouble
    have ht := getAll_ok (by omega) hget
    have hlt := sum_readLength_lt hv hdouble
    rw [ht, done, seek_size, seek_ptr] at hdone
    have hle := of_decide_eq_true hdone
    omega
  · rintro ⟨hdouble, hroom⟩
    obtain ⟨s, hbytes, hptr, hswap⟩ : ∃ s : BinaryStream, s.bytes = vs.flatMap Value.encode ∧
        s.ptr = 0 ∧ s.swaporder = false := ⟨⟨_, 0, false, hroom⟩, rfl, rfl, rfl⟩
    have hahead : s.Ahead (vs.flatMap Value.encode) :=
      ⟨[], by rw [hptr, hbytes, List.drop_zero, List.append_nil]⟩
    refine ⟨s, _, pushAll_empty_iff.mpr ⟨hbytes, hptr, hswap⟩,
      getAll_of_ahead hswap hfits hdouble htypes hahead, ?_⟩
    rw [done, seek_size, seek_ptr, hptr, size, hbytes, Nat.zero_add]
    exact decide_eq_true le_rfl

/-- One value of each type but one, read into variables that held something else. -/
theorem readsBack_iff_mixed :
    ReadsBack
      [.float 1078530011, .uint8 7, .uint16 65535, .uint32 1, .uint64 2, .string [79, 51],
        .vector [1, 2, 3], .string []]
      [(.float 0, none), (.uint8 1, some "count"), (.uint16 0, none), (.uint32 0, none),
        (.uint64 0, none), (.string [1], none), (.vector [9], none), (.string [], none)] :=
  (readsBack_iff (by decide) rfl).mpr ⟨by decide, by decide⟩

/-- The number one, of which a variable that holds zero gets the lower half. -/
theorem double_not_readsBack :
    (Value.double 4607182418800017408).Fits ∧
      ¬ReadsBack [.double 4607182418800017408] [(.double 0, none)] := by
  refine ⟨trivial, ?_⟩
  rintro ⟨s, t, hpush, hget, -⟩
  obtain ⟨hbytes, hptr, hswap⟩ := pushAll_empty_iff.mp hpush
  obtain rfl : s = ⟨[0, 0, 0, 0, 0, 0, 240, 63], 0, false, by decide⟩ :=
    BinaryStream.ext (hbytes.trans (by decide)) hptr hswap
  have hzero : [Value.double 0] = [.double 4607182418800017408] :=
    congrArg (fun g : Got (List Value) => g.2.1) hget
  exact absurd hzero (by decide)

end BinaryStream

end Open3DStream
