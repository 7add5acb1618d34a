import Open3DStream.Acceptance
import Open3DStream.Lib.Machine

/-! The time envelope on its way to a receiver. -/

namespace Open3DStream

open Lib

variable {α β : Type}

/-- Version 0 stands for no envelope. -/
def TimeEnvelope.announced (env : TimeEnvelope) : TimeEnvelope := if env.version ≠ 0 then env else {}

theorem readEnvelope_writeEnvelope (env : TimeEnvelope) :
    readEnvelope (writeEnvelope env) = env.announced := by
  rw [writeEnvelope, TimeEnvelope.announced]
  split
  · exact if_pos ‹_›
  · rfl

theorem SubjectList.adopted_mTimeEnvelope (l : SubjectList α β) (p : Data.SubjectList α β) :
    (l.adopted p).mTimeEnvelope = readEnvelope p.envelope := by
  rw [adopted, adoptContext]
  split
  · rfl
  · dsimp only
    split <;> rfl

variable [Numeric α β]

/-- Whatever else a packet does, it replaces the envelope. -/
theorem parseRoot_mTimeEnvelope {l l' : SubjectList α β} {p : Data.SubjectList α β}
    {clearInactive b : Bool} (h : l.parseRoot p clearInactive = some (b, l')) :
    l'.mTimeEnvelope = readEnvelope p.envelope := by
  rw [← l.adopted_mTimeEnvelope p]
  by_cases hr : ContextRejected l p
  · rw [SubjectList.parseRoot_rejected hr] at h
    cases h
    rfl
  · rw [SubjectList.parseRoot_adopted hr, Option.bind_eq_some_iff] at h
    obtain ⟨items, -, h⟩ := h
    rw [(SubjectList.evaluate_frame h).2]

/-- A call of `serialize` or `serializeUpdate` and how the receiver parses what it emits. -/
structure Emission (α β : Type) where
  sender : SubjectList α β
  full : Bool
  timestamp : α
  timecode : String
  now : α
  clearInactive : Bool

section wire

variable [Wire α β]

/-- Nothing when the sender returns false. -/
def Emission.packet (x : Emission α β) : Option (List UInt8) :=
  if x.full then (x.sender.serialize x.timestamp x.timecode x.now).1
  else (x.sender.serializeUpdate x.timestamp x.timecode x.now).1

/-- Whether the receiver accepts a packet, and its envelope afterwards. -/
def hear (l : SubjectList α β) (x : Emission α β) : Option ((Bool × TimeEnvelope) × SubjectList α β) :=
  match x.packet with
  | none => some ((false, l.mTimeEnvelope), l)
  | some data => (l.parse (some data) x.clearInactive).map fun r => ((r.1, r.2.mTimeEnvelope), r.2)

/-- What is emitted carries the sender's envelope. -/
theorem Emission.packet_eq_some {x : Emission α β} {data : List UInt8} (h : x.packet = some data) :
    ∃ (p : Data.SubjectList α β) (flags : UInt32), data = finalize p flags ∧ (flags = 1 ∨ flags = 2) ∧
      p.envelope = writeEnvelope x.sender.mTimeEnvelope := by
  rw [Emission.packet] at h
  by_cases hf : ItemsFinite x.sender.mItems
  · split at h
    · rw [SubjectList.serialize_of_finite hf] at h
      exact ⟨_, 1, (Option.some.inj h).symm, .inl rfl, rfl⟩
    · obtain ⟨count, hs⟩ :=
        SubjectList.serializeUpdate_of_finite hf x.timestamp x.timecode x.now
      rw [hs] at h
      exact ⟨_, 2, (Option.some.inj h).symm, .inr rfl, rfl⟩
  · split at h
    · rw [SubjectList.serialize_of_not hf] at h
      cases h
    · rw [SubjectList.serializeUpdate_of_not hf] at h
      cases h

variable [LawfulWire α β]

theorem hear_finalize (l : SubjectList α β) {x : Emission α β} {p : Data.SubjectList α β}
    {flags : UInt32} (hp : x.packet = some (finalize p flags)) (hflags : flags = 1 ∨ flags = 2) :
    hear l x = ({ l with mError := "" }.parseRoot p x.clearInactive).map
      fun r : Bool × SubjectList α β => ((r.1, r.2.mTimeEnvelope), r.2) := by
  rw [hear, hp, ← parse_verified l (verified_finalize p hflags)]

theorem hear_envelope {l : SubjectList α β} {x : Emission α β}
    {r : (Bool × TimeEnvelope) × SubjectList α β} (h : hear l x = some r) (hr : r.1.1 = true) :
    r.1.2 = x.sender.mTimeEnvelope.announced := by
  cases hp : x.packet with
  | none =>
    rw [hear, hp] at h
    cases h
    cases hr
  | some data =>
    obtain ⟨p, flags, rfl, hflags, henv⟩ := Emission.packet_eq_some hp
    rw [hear_finalize l hp hflags] at h
    obtain ⟨⟨b, l'⟩, hparse, rfl⟩ := Option.map_eq_some_iff.mp h
    rw [← readEnvelope_writeEnvelope, ← henv]
    exact parseRoot_mTimeEnvelope hparse

/-- After each packet that is accepted the receiver has the envelope that its sender had, or the
default one where the sender set none. -/
theorem run_hear_envelope {l l' : SubjectList α β} {xs : List (Emission α β)}
    {outs : List (Bool × TimeEnvelope)} (h : run hear l xs = some (outs, l')) :
    List.Forall₂ (fun x out => out.1 = true → out.2 = x.sender.mTimeEnvelope.announced) xs outs :=
  run_forall₂ (fun _ _ _ hx hr => hear_envelope hx hr) h

end wire

/-- A sender that sets an envelope. -/
def stampedSender : SubjectList Extended Extended :=
  { freshList with
    mTimeEnvelope := { version := 1, ns := 5, quality := 0, hasSmpte := true, frames := 23 } }

/-- Its full packet, and then an update packet of a sender without an envelope. -/
def stamped : List (Emission Extended Extended) :=
  [⟨stampedSender, true, 1, "", 0, false⟩, ⟨freshList, false, 1, "", 0, true⟩]

theorem run_hear_stamped :
    run hear freshList stamped =
      some ([(true, stampedSender.mTimeEnvelope), (true, {})], { freshList with mTime := 1 }) := by
  have hfull : hear freshList ⟨stampedSender, true, 1, "", 0, false⟩ =
      some ((true, stampedSender.mTimeEnvelope), { stampedSender with mTime := 1 }) :=
    (hear_finalize freshList (p := stampedSender.outgoing 1 "" 0) rfl (.inl rfl)).trans rfl
  have hupdate : hear { stampedSender with mTime := 1 } ⟨freshList, false, 1, "", 0, true⟩ =
      some ((true, {}), { freshList with mTime := 1 }) :=
    (hear_finalize _ (p := freshList.outgoingUpdate 1 "" 0) rfl (.inr rfl)).trans rfl
  rw [stamped, run, hfull, Option.bind_eq_bind, Option.bind_some]
  dsimp only
  rw [run, hupdate]
  rfl

theorem run_hear_envelope_stamped :
    List.Forall₂ (fun x out => out.1 = true → out.2 = x.sender.mTimeEnvelope.announced) stamped
      [(true, stampedSender.mTimeEnvelope), (true, {})] :=
  run_hear_envelope run_hear_stamped

end Open3DStream
