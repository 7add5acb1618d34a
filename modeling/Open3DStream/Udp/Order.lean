import Open3DStream.Lib.Collector
import Open3DStream.Udp.Delivery

/-! The order in which frames are returned. -/

namespace Open3DStream

open Lib

namespace UdpMapper

/-- What the mapper does to the datagrams of one id. -/
def collector : Collector (List UInt8) UInt32 UdpCombiner where
  key data := if data.length < headerSize ∨ 65511 < data.length then none else some (heading data).id
  init := {}
  add c data := (c.addFragment data).map Prod.snd
  whole := UdpCombiner.isComplete

/-- Where nothing is complete, only the entry that is written can be. -/
theorem firstComplete_insert {m : UdpMapper} (hm : m.firstComplete = none) (id : UInt32)
    (c : UdpCombiner) :
    firstComplete ⟨m.items.insert id c⟩ = if c.isComplete = true then some (id, c) else none := by
  cases hf : firstComplete ⟨m.items.insert id c⟩ with
  | none =>
    have hc := firstComplete_eq_none_iff.mp hf id c (getElem?_insert_self m id c)
    rw [hc]
    rfl
  | some e =>
    obtain ⟨j, d⟩ := e
    obtain ⟨hd, hcomplete⟩ := firstComplete_eq_some hf
    rw [getElem?_insert] at hd
    split at hd
    · subst j
      cases hd
      rw [if_pos hcomplete]
    · rw [firstComplete_eq_none_iff.mp hm j d hd] at hcomplete
      cases hcomplete

/-- The state of the collector that a mapper stands for. -/
def entries (m : UdpMapper) : UInt32 → Option UdpCombiner := fun id => m.items[id]?

theorem entries_insert (m : UdpMapper) (id : UInt32) (c : UdpCombiner) :
    entries ⟨m.items.insert id c⟩ = fun j => if j = id then some c else m.entries j := by
  funext j
  rw [entries, getElem?_insert, entries]
  by_cases hj : j = id
  · rw [if_pos hj, if_pos hj.symm]
  · rw [if_neg hj, if_neg (Ne.symm hj)]

theorem entries_erased (m : UdpMapper) (id : UInt32) :
    entries ⟨m.items.filter fun j _ => ¬j ≤ id⟩ = fun j => if j ≤ id then none else m.entries j := by
  funext j
  exact getElem?_erased m id j

/-- What is left when the entry that has just been written is returned. -/
theorem entries_returned (m : UdpMapper) (id : UInt32) (c : UdpCombiner) :
    entries ⟨(m.items.insert id c).filter fun j _ => ¬j ≤ id⟩ =
      fun j => if j ≤ id then none else m.entries j := by
  rw [entries_erased ⟨m.items.insert id c⟩, entries_insert]
  funext j
  by_cases hj : j ≤ id
  · rw [if_pos hj, if_pos hj]
  · have hne : j ≠ id := by
      rintro rfl
      exact hj (UInt32.le_refl j)
    rw [if_neg hj, if_neg hj]
    exact if_neg hne

theorem firstComplete_returned {m : UdpMapper} (hm : m.firstComplete = none) (id : UInt32)
    (c : UdpCombiner) :
    firstComplete ⟨(m.items.insert id c).filter fun j _ => ¬j ≤ id⟩ = none := by
  rw [firstComplete_eq_none_iff]
  intro j d hd
  have hentry : entries ⟨(m.items.insert id c).filter fun j _ => ¬j ≤ id⟩ j = some d := hd
  rw [entries_returned] at hentry
  dsimp only at hentry
  split at hentry
  · cases hentry
  · exact firstComplete_eq_none_iff.mp hm j d hentry

/-- A mapper with nothing complete does with a datagram what the collector does. -/
theorem receive_deliver {m m' : UdpMapper} (hm : m.firstComplete = none) {data : List UInt8}
    {out : Option (UInt32 × List (Option UInt8))} (h : m.receive data = some (out, m')) :
    collector.deliver m.entries data = some (out.map Prod.fst, m'.entries) ∧
      m'.firstComplete = none := by
  have hadd : ∃ r, m.addFragment data = some r := by
    cases hr : m.addFragment data with
    | none =>
      rw [receive, hr] at h
      cases h
    | some r => exact ⟨r, rfl⟩
  obtain ⟨r, hr⟩ := hadd
  obtain ⟨hsize, rfl⟩ | ⟨accepted, c, hsize, hc, rfl⟩ := addFragment_cases hr
  · have hkey : collector.key data = none := if_pos hsize
    rw [receive_of_none hr hm] at h
    cases h
    rw [Collector.deliver, hkey]
    exact ⟨rfl, hm⟩
  · have hkey : collector.key data = some (heading data).id := if_neg hsize
    have hput : collector.add ((m.entries (heading data).id).getD collector.init) data = some c :=
      congrArg (Option.map Prod.snd) hc
    have hfirst := firstComplete_insert hm (heading data).id c
    rw [Collector.deliver, hkey]
    dsimp only
    rw [hput, Option.bind_eq_bind, Option.bind_some]
    by_cases hwhole : c.isComplete = true
    · rw [if_pos hwhole] at hfirst
      rw [receive_of_some hr hfirst] at h
      cases h
      refine ⟨(if_pos hwhole).trans ?_, firstComplete_returned hm _ c⟩
      rw [entries_returned]
      rfl
    · rw [if_neg hwhole] at hfirst
      rw [receive_of_none hr hfirst] at h
      cases h
      refine ⟨(if_neg hwhole).trans ?_, hfirst⟩
      rw [entries_insert]
      rfl

theorem run_deliver {datagrams : List (List UInt8)}
    {outs : List (Option (UInt32 × List (Option UInt8)))} {m : UdpMapper}
    (h : Lib.run receive {} datagrams = some (outs, m)) :
    Lib.run collector.deliver (fun _ => none) datagrams =
      some (outs.map (Option.map Prod.fst), m.entries) := by
  have hempty : entries {} = (fun _ => none) ∧ firstComplete {} = none := ⟨rfl, rfl⟩
  have hstep (m : UdpMapper) (e : UInt32 → Option UdpCombiner) (data : List UInt8)
      (out : Option (UInt32 × List (Option UInt8))) (m' : UdpMapper)
      (hm : entries m = e ∧ m.firstComplete = none) (hdata : m.receive data = some (out, m')) :
      ∃ e', collector.deliver e data = some (Option.map Prod.fst out, e') ∧
        entries m' = e' ∧ m'.firstComplete = none := by
    obtain ⟨rfl, hm⟩ := hm
    obtain ⟨hd, hm'⟩ := receive_deliver hm hdata
    exact ⟨_, hd, rfl, hm'⟩
  obtain ⟨_, hrun, rfl, -⟩ := run_simulated hstep hempty h
  exact hrun

/-- The datagrams that come after a frame has been complete for the first time make one complete
whose id is no greater, and up to there none with a greater id has been complete. -/
def Outdated (datagrams : List (List UInt8)) : Prop := collector.Again datagrams

end UdpMapper

/-- All parts of one of the sender's frames. -/
def fragments {ι : Type} (frames : ι → Frame) (i : ι) : List (Fragment frames) :=
  (List.finRange (frames i).count).map fun s => ⟨i, s⟩

/-- A frame arrives twice, and another one only then. -/
def late (first second : Fin 2) : List (Fragment twoFrames) :=
  fragments twoFrames second ++ fragments twoFrames second ++ fragments twoFrames first

end Open3DStream
