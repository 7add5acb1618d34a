import Mathlib.Order.Basic
import Open3DStream.Tcp.Server

/-! How the device writes a frame to a socket that may not take all of it. -/

namespace Open3DStream

open Lib

/-- What a call of the platform's `send` does. -/
inductive SendOutcome where
  | accepts (n : Nat)
  | wouldBlock
  | fails
deriving DecidableEq

/-- A socket, what its next calls of `send` do, and the bytes that it has accepted. Past the end
of `sends` calls would block. -/
structure TcpSocket where
  connected : Bool
  sends : List SendOutcome
  accepted : List UInt8
deriving DecidableEq

/-- The `int` that a 32-bit number is passed as. -/
def asInt (x : UInt32) : Int :=
  if x.toNat < 2147483648 then x.toNat else x.toNat - 4294967296

namespace TcpSocket

/-- A call that would block is no error. -/
def Send (s : TcpSocket) (data : List UInt8) (len : Int) : Except String Unit × TcpSocket :=
  if !s.connected then (.error "Error trying to send data while disconnected", s)
  else
    let after := { s with sends := s.sends.tail }
    match s.sends.headD .wouldBlock with
    | .wouldBlock => (.ok (), after)
    | .fails => (.error "Sending", after)
    | .accepts n =>
      let bytesSent := min n len.toNat
      let after := { after with accepted := s.accepted ++ data.take bytesSent }
      if (bytesSent : Int) ≠ len then
        (.error ("Error not all data was sent: " ++ toString bytesSent ++ " of " ++ toString len), after)
      else (.ok (), after)

/-- A `Send` that an exception skips. -/
def thenSend (data : List UInt8) (len : Int) :
    Except String Unit × TcpSocket → Except String Unit × TcpSocket
  | (.error e, s) => (.error e, s)
  | (.ok _, s) => s.Send data len

/-- The close is taken to succeed. -/
def DestroySocket (s : TcpSocket) : TcpSocket := { s with connected := false }

/-- The number of bytes it reports, the socket, and the status it sets. -/
def WriteTcp (s : TcpSocket) (data : List UInt8) (bucketSize : UInt32) :
    UInt32 × TcpSocket × Option String :=
  match thenSend data (asInt bucketSize) (thenSend (putUInt32 bucketSize) 4 (s.Send magic 14)) with
  | (.error e, s) => (0, s.DestroySocket, some e)
  | (.ok _, s) => (14 + 4 + bucketSize, s, none)

/-- A frame of the device. -/
def frame (data : List UInt8) (bucketSize : UInt32) : List UInt8 :=
  magic ++ (putUInt32 bucketSize ++ data)

/-- What the call of `send` after the next `i` does. -/
def outcome (s : TcpSocket) (i : Nat) : SendOutcome := s.sends[i]?.getD .wouldBlock

end TcpSocket

/-- The outcome makes `Send` throw. -/
def SendOutcome.Throws (len : Int) : SendOutcome → Prop
  | .accepts n => ((min n len.toNat : Nat) : Int) ≠ len
  | .wouldBlock => False
  | .fails => True

instance (len : Int) : ∀ o : SendOutcome, Decidable (o.Throws len)
  | .accepts _ => inferInstanceAs (Decidable (_ ≠ _))
  | .wouldBlock => inferInstanceAs (Decidable False)
  | .fails => inferInstanceAs (Decidable True)

namespace TcpSocket

/-- What a call accepts that does not throw. -/
def taken (o : SendOutcome) (data : List UInt8) : List UInt8 := if o = .wouldBlock then [] else data

/-- The socket after a `Send` that does not throw. -/
def sent (s : TcpSocket) (data : List UInt8) : TcpSocket :=
  { s with sends := s.sends.tail, accepted := s.accepted ++ taken (s.outcome 0) data }

theorem headD_sends (s : TcpSocket) : s.sends.headD .wouldBlock = s.outcome 0 := by
  rw [outcome, List.headD_eq_head?_getD, List.head?_eq_getElem?]

theorem outcome_sent (s : TcpSocket) (data : List UInt8) (i : Nat) :
    (s.sent data).outcome i = s.outcome (i + 1) := by
  change (s.sends.tail[i]?).getD _ = _
  rw [List.getElem?_tail]
  rfl

theorem Send_ok {s : TcpSocket} {data : List UInt8} {len : Int} (hc : s.connected = true)
    (hlen : 0 ≤ len → data.length = len.toNat) (h : ¬(s.outcome 0).Throws len) :
    s.Send data len = (.ok (), s.sent data) := by
  rw [Send, headD_sends, sent]
  cases ho : s.outcome 0 with
  | wouldBlock => simp [hc, taken]
  | fails =>
    rw [ho] at h
    exact absurd trivial h
  | accepts n =>
    rw [ho, SendOutcome.Throws, not_not] at h
    have htake : data.take (min n len.toNat) = data := List.take_of_length_le (by omega)
    simp [hc, h, htake, taken]

theorem Send_throws {s : TcpSocket} (data : List UInt8) {len : Int}
    (h : s.connected = true → (s.outcome 0).Throws len) :
    ∃ e t, s.Send data len = (.error e, t) := by
  rw [Send, headD_sends]
  cases hc : s.connected with
  | false => exact ⟨_, _, rfl⟩
  | true =>
    have ht := h hc
    cases ho : s.outcome 0 with
    | wouldBlock =>
      rw [ho] at ht
      exact absurd ht id
    | fails => exact ⟨_, _, rfl⟩
    | accepts n =>
      rw [ho, SendOutcome.Throws] at ht
      dsimp only
      rw [if_pos ht]
      exact ⟨_, _, rfl⟩

section write

variable {s : TcpSocket} {data : List UInt8} {bucketSize : UInt32}

theorem asInt_toNat {x : UInt32} (h : 0 ≤ asInt x) : x.toNat = (asInt x).toNat := by
  have hx := x.toNat_lt
  rw [asInt] at h ⊢
  split at h <;> omega

/-- One of the three calls throws. -/
def Thrown (s : TcpSocket) (bucketSize : UInt32) : Prop :=
  (s.outcome 0).Throws 14 ∨ (s.outcome 1).Throws 4 ∨ (s.outcome 2).Throws (asInt bucketSize)

instance (s : TcpSocket) (bucketSize : UInt32) : Decidable (s.Thrown bucketSize) :=
  inferInstanceAs (Decidable (_ ∨ _))

theorem WriteTcp_ok (hc : s.connected = true) (hlen : data.length = bucketSize.toNat)
    (h : ¬s.Thrown bucketSize) : s.WriteTcp data bucketSize =
      (14 + 4 + bucketSize, ((s.sent magic).sent (putUInt32 bucketSize)).sent data, none) := by
  obtain ⟨h₀, h⟩ := not_or.mp h
  obtain ⟨h₁, h₂⟩ := not_or.mp h
  have hfirst : s.Send magic 14 = (.ok (), s.sent magic) := Send_ok hc (fun _ => rfl) h₀
  have hsecond : (s.sent magic).Send (putUInt32 bucketSize) 4 =
      (.ok (), (s.sent magic).sent (putUInt32 bucketSize)) := by
    apply Send_ok (s := s.sent magic) hc fun _ => rfl
    rw [outcome_sent]
    exact h₁
  have hthird : ((s.sent magic).sent (putUInt32 bucketSize)).Send data (asInt bucketSize) =
      (.ok (), ((s.sent magic).sent (putUInt32 bucketSize)).sent data) := by
    apply Send_ok (s := (s.sent magic).sent (putUInt32 bucketSize)) hc
      fun hnonneg => hlen.trans (asInt_toNat hnonneg)
    rw [outcome_sent, outcome_sent]
    exact h₂
  rw [WriteTcp, hfirst, thenSend, hsecond, thenSend, hthird]

/-- An exception of any call makes the result zero. -/
theorem WriteTcp_throws (data : List UInt8) (h : s.connected = true → s.Thrown bucketSize) :
    (s.WriteTcp data bucketSize).1 = 0 := by
  have hzero {r : Except String Unit × TcpSocket} (hr : ∃ e t, r = (.error e, t)) (bytes : List UInt8)
      (len : Int) : ∃ e t, thenSend bytes len r = (.error e, t) := by
    obtain ⟨e, t, rfl⟩ := hr
    exact ⟨e, t, rfl⟩
  have herror : ∃ e t, thenSend data (asInt bucketSize)
      (thenSend (putUInt32 bucketSize) 4 (s.Send magic 14)) = (.error e, t) := by
    by_cases h₀ : s.connected = true ∧ ¬(s.outcome 0).Throws 14
    · obtain ⟨hc, h₀⟩ := h₀
      have hrest := (h hc).resolve_left h₀
      rw [Send_ok hc (fun _ => rfl) h₀, thenSend.eq_2]
      by_cases h₁ : ((s.sent magic).outcome 0).Throws 4
      · exact hzero (Send_throws _ fun _ => h₁) _ _
      · have hthird := hrest.resolve_left (outcome_sent s magic 0 ▸ h₁)
        rw [Send_ok (s := s.sent magic) hc (fun _ => rfl) h₁, thenSend]
        apply Send_throws
        intro _
        rw [outcome_sent, outcome_sent]
        exact hthird
    · refine hzero (hzero (Send_throws magic fun hc => ?_) _ _) _ _
      exact not_not.mp fun h₀' => h₀ ⟨hc, h₀'⟩
  obtain ⟨e, t, he⟩ := herror
  rw [WriteTcp, he]

/-- A count other than zero stands for a whole frame. -/
def WholeOrNothing (s : TcpSocket) (data : List UInt8) (bucketSize : UInt32) : Prop :=
  let (count, s', _) := s.WriteTcp data bucketSize
  count ≠ 0 → s'.accepted = s.accepted ++ frame data bucketSize

instance (s : TcpSocket) (data : List UInt8) (bucketSize : UInt32) :
    Decidable (s.WholeOrNothing data bucketSize) :=
  inferInstanceAs (Decidable (_ → _))

/-- No call that has bytes to send would block. -/
def Unblocked (s : TcpSocket) (data : List UInt8) : Prop :=
  s.outcome 0 ≠ .wouldBlock ∧ s.outcome 1 ≠ .wouldBlock ∧ (s.outcome 2 = .wouldBlock → data = [])

theorem taken_prefix (o : SendOutcome) (data : List UInt8) : taken o data <+: data := by
  rw [taken]
  split
  · exact List.nil_prefix
  · exact List.prefix_rfl

theorem taken_eq_iff (o : SendOutcome) (data : List UInt8) :
    taken o data = data ↔ (o = .wouldBlock → data = []) := by
  rw [taken]
  split
  · rename_i ho
    exact ⟨fun h _ => h.symm, fun h => (h ho).symm⟩
  · rename_i ho
    exact iff_of_true rfl fun ho' => absurd ho' ho

theorem taken_eq_iff_of_ne {o : SendOutcome} {data : List UInt8} (h : data ≠ []) :
    taken o data = data ↔ o ≠ .wouldBlock := by
  rw [taken_eq_iff]
  exact forall_congr' fun _ => iff_of_false h id

/-- The bytes that are taken make a frame only where all of them are taken. -/
theorem taken_frame_iff (s : TcpSocket) (data : List UInt8) (bucketSize : UInt32) :
    taken (s.outcome 0) magic ++
        (taken (s.outcome 1) (putUInt32 bucketSize) ++ taken (s.outcome 2) data) =
      frame data bucketSize ↔ s.Unblocked data := by
  have hp₀ := taken_prefix (s.outcome 0) magic
  have hp₁ := taken_prefix (s.outcome 1) (putUInt32 bucketSize)
  have hp₂ := taken_prefix (s.outcome 2) data
  have h₀ : taken (s.outcome 0) magic = magic ↔ _ := taken_eq_iff_of_ne (List.cons_ne_nil _ _)
  have h₁ : taken (s.outcome 1) (putUInt32 bucketSize) = putUInt32 bucketSize ↔ _ :=
    taken_eq_iff_of_ne (List.cons_ne_nil _ _)
  rw [Unblocked, ← h₀, ← h₁, ← taken_eq_iff, frame]
  refine ⟨?_, ?_⟩
  · intro he
    have hlength := congrArg List.length he
    simp only [List.length_append] at hlength
    have hle₀ := hp₀.length_le
    have hle₁ := hp₁.length_le
    have hle₂ := hp₂.length_le
    exact ⟨hp₀.eq_of_length (by omega), hp₁.eq_of_length (by omega), hp₂.eq_of_length (by omega)⟩
  · rintro ⟨he₀, he₁, he₂⟩
    rw [he₀, he₁, he₂]

/-- The count is that of a whole frame exactly where no call is skipped, unless one throws or
the count comes out as zero anyway. -/
theorem wholeOrNothing_iff (s : TcpSocket) (h : data.length = bucketSize.toNat) :
    s.WholeOrNothing data bucketSize ↔
      (s.connected = true → ¬s.Thrown bucketSize →
        bucketSize = 4294967278 ∨ s.Unblocked data) := by
  by_cases ht : s.connected = true → s.Thrown bucketSize
  · refine iff_of_true ?_ fun hc hn => absurd (ht hc) hn
    rw [WholeOrNothing]
    exact fun hcount => absurd (WriteTcp_throws data ht) hcount
  · obtain ⟨hc, hn⟩ := Classical.not_imp.mp ht
    have hcount : (14 + 4 + bucketSize : UInt32) ≠ 0 ↔ bucketSize ≠ 4294967278 := by
      have hlt := bucketSize.toNat_lt
      rw [ne_eq, ne_eq, ← UInt32.toNat_inj, ← UInt32.toNat_inj]
      simp
      omega
    have haccepted : (((s.sent magic).sent (putUInt32 bucketSize)).sent data).accepted =
        s.accepted ++ (taken (s.outcome 0) magic ++
          (taken (s.outcome 1) (putUInt32 bucketSize) ++ taken (s.outcome 2) data)) := by
      change s.accepted ++ taken (s.outcome 0) magic ++ taken ((s.sent magic).outcome 0) _ ++
        taken (((s.sent magic).sent (putUInt32 bucketSize)).outcome 0) data = _
      rw [outcome_sent, outcome_sent, outcome_sent, List.append_assoc, List.append_assoc]
    rw [WholeOrNothing, WriteTcp_ok hc h hn]
    dsimp only
    rw [haccepted, List.append_cancel_left_eq, taken_frame_iff, hcount, ← or_iff_not_imp_left]
    exact ⟨fun hp _ _ => hp, fun hp => hp hc hn⟩

theorem wholeOrNothing_iff_blocked :
    let s : TcpSocket := ⟨true, [.accepts 14, .wouldBlock, .accepts 1], []⟩
    s.WholeOrNothing [7] 1 ↔
      (s.connected = true → ¬s.Thrown 1 → (1 : UInt32) = 4294967278 ∨ s.Unblocked [7]) :=
  wholeOrNothing_iff _ rfl

/-- A frame without its size is counted as whole. -/
theorem size_skipped :
    let s : TcpSocket := ⟨true, [.accepts 14, .wouldBlock, .accepts 1], []⟩
    (s.WriteTcp [7] 1).1 = 19 ∧ (s.WriteTcp [7] 1).2.1.accepted = magic ++ [7] ∧
      ¬s.WholeOrNothing [7] 1 := by
  decide +kernel

end write

end TcpSocket

end Open3DStream
