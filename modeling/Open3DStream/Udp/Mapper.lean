import Mathlib.Data.Finset.Card
import Open3DStream.Lib.Machine
import Open3DStream.Udp.Combiner

/-! Several frames in flight. -/

namespace Open3DStream

open Lib

structure UdpMapper where
  items : Std.ExtTreeMap UInt32 UdpCombiner := ∅

namespace UdpMapper

/-- An entry is made where there is none; callers write back what they change. -/
def getCombiner (m : UdpMapper) (id : UInt32) : UdpCombiner := m.items[id]?.getD {}

/-- What the combiner answers is dropped. -/
def addFragment (m : UdpMapper) (data : List UInt8) : Option (Bool × UdpMapper) :=
  if data.length < headerSize ∨ 65511 < data.length then some (false, m)
  else do
    let frameId := (heading data).id
    let (_, c) ← (m.getCombiner frameId).addFragment data
    some (true, ⟨m.items.insert frameId c⟩)

/-- The first complete entry in the order of the ids. -/
def firstComplete (m : UdpMapper) : Option (UInt32 × UdpCombiner) :=
  m.items.toList.find? (·.2.isComplete)

/-- The entries up to the one that is returned are erased. The loop that erases them
compares with its id also after its own turn. -/
def getFrame (m : UdpMapper) (out : List (Option UInt8)) : Bool × List (Option UInt8) × UdpMapper :=
  match m.firstComplete with
  | none => (false, out, m)
  | some (id, c) => (true, out ++ c.mBuffer, ⟨m.items.filter fun j _ => ¬j ≤ id⟩)

/-! ### Entries -/

theorem ext_items {m n : UdpMapper} (h : ∀ id : UInt32, m.items[id]? = n.items[id]?) : m = n := by
  have hitems : m.items = n.items := Std.ExtTreeMap.ext_getElem? h
  cases m
  cases n
  exact congrArg _ hitems

theorem getElem?_insert (m : UdpMapper) (id : UInt32) (c : UdpCombiner) (k : UInt32) :
    (m.items.insert id c)[k]? = if id = k then some c else m.items[k]? := by
  rw [Std.ExtTreeMap.getElem?_insert]
  simp only [Std.LawfulEqCmp.compare_eq_iff_eq]

theorem getElem?_insert_ne (m : UdpMapper) {id k : UInt32} (c : UdpCombiner) (h : k ≠ id) :
    (⟨m.items.insert id c⟩ : UdpMapper).items[k]? = m.items[k]? := by
  rw [getElem?_insert, if_neg (Ne.symm h)]

theorem getElem?_insert_self (m : UdpMapper) (id : UInt32) (c : UdpCombiner) :
    (⟨m.items.insert id c⟩ : UdpMapper).items[id]? = some c := by
  rw [getElem?_insert, if_pos rfl]

theorem getElem?_erased (m : UdpMapper) (id k : UInt32) :
    (m.items.filter fun j _ => ¬j ≤ id)[k]? = if k ≤ id then none else m.items[k]? := by
  rw [Std.ExtTreeMap.getElem?_filter']
  cases m.items[k]? with
  | none => simp
  | some c =>
    by_cases h : k ≤ id
    · simp [Option.filter, h]
    · simp [Option.filter, h]

theorem firstComplete_eq_some {m : UdpMapper} {id : UInt32} {c : UdpCombiner}
    (h : m.firstComplete = some (id, c)) : m.items[id]? = some c ∧ c.isComplete = true := by
  refine ⟨Std.ExtTreeMap.mem_toList_iff_getElem?_eq_some.mp (List.mem_of_find?_eq_some h), ?_⟩
  exact List.find?_some (p := fun e : UInt32 × UdpCombiner => e.2.isComplete) h

theorem firstComplete_eq_none_iff {m : UdpMapper} :
    m.firstComplete = none ↔
      ∀ (id : UInt32) (c : UdpCombiner), m.items[id]? = some c → c.isComplete = false := by
  rw [firstComplete, List.find?_eq_none]
  refine ⟨fun h id c hc => ?_, fun h x hx => ?_⟩
  · exact Bool.not_eq_true _ ▸ h (id, c) (Std.ExtTreeMap.mem_toList_iff_getElem?_eq_some.mpr hc)
  · have hx := h x.1 x.2 (Std.ExtTreeMap.mem_toList_iff_getElem?_eq_some.mp hx)
    exact Bool.not_eq_true _ ▸ hx

theorem addFragment_of_size {m : UdpMapper} {data : List UInt8}
    (hs : ¬(data.length < headerSize ∨ 65511 < data.length)) {accepted : Bool} {c : UdpCombiner}
    (hc : (m.getCombiner (heading data).id).addFragment data = some (accepted, c)) :
    m.addFragment data = some (true, ⟨m.items.insert (heading data).id c⟩) := by
  rw [addFragment, if_neg hs]
  dsimp only
  rw [hc]
  rfl

/-! ### Calls -/

inductive Call where
  | addFragment (data : List UInt8)
  | getFrame (out : List (Option UInt8))

inductive Reply where
  | addFragment (result : Bool)
  | getFrame (result : Bool) (out : List (Option UInt8))
deriving DecidableEq

def call (m : UdpMapper) : Call → Option (Reply × UdpMapper)
  | .addFragment data => (m.addFragment data).map fun (result, m) => (.addFragment result, m)
  | .getFrame out =>
    let (result, out, m) := m.getFrame out
    some (.getFrame result out, m)

/-- `none` is undefined from some call on. -/
def run (m : UdpMapper) (calls : List Call) : Option (List Reply × UdpMapper) := Lib.run call m calls

/-- What the caller sees. -/
def replies (m : UdpMapper) (calls : List Call) : Option (List Reply) := Lib.replies call m calls

/-! ### Reachable mappers -/

/-- Each entry is as calls of `addFragment` leave it. -/
def Reached (m : UdpMapper) : Prop :=
  ∀ (id : UInt32) (c : UdpCombiner), m.items[id]? = some c → c.Reached

theorem Reached.getCombiner {m : UdpMapper} (h : m.Reached) (id : UInt32) :
    (m.getCombiner id).Reached := by
  rw [UdpMapper.getCombiner]
  cases hc : m.items[id]? with
  | none => exact .inl rfl
  | some c => exact h id c hc

/-- The two ways to leave `addFragment`. -/
theorem addFragment_cases {m : UdpMapper} {data : List UInt8} {r : Bool × UdpMapper}
    (h : m.addFragment data = some r) :
    ((data.length < headerSize ∨ 65511 < data.length) ∧ r = (false, m)) ∨
      ∃ accepted c, ¬(data.length < headerSize ∨ 65511 < data.length) ∧
        (m.getCombiner (heading data).id).addFragment data = some (accepted, c) ∧
        r = (true, ⟨m.items.insert (heading data).id c⟩) := by
  rw [addFragment] at h
  split at h
  · exact .inl ⟨‹_›, (Option.some.inj h).symm⟩
  · rw [Option.bind_eq_bind, Option.bind_eq_some_iff] at h
    obtain ⟨⟨accepted, c⟩, hc, h⟩ := h
    exact .inr ⟨accepted, c, ‹_›, hc, (Option.some.inj h).symm⟩

theorem Reached.addFragment {m : UdpMapper} (hm : m.Reached) {data : List UInt8}
    {r : Bool × UdpMapper} (h : m.addFragment data = some r) : r.2.Reached := by
  obtain ⟨-, rfl⟩ | ⟨accepted, c, -, hc, rfl⟩ := addFragment_cases h
  · exact hm
  · intro k c' hk
    rw [getElem?_insert] at hk
    split at hk
    · cases hk
      exact (hm.getCombiner _).addFragment hc
    · exact hm k c' hk

theorem Reached.getFrame {m : UdpMapper} (hm : m.Reached) (out : List (Option UInt8)) :
    (m.getFrame out).2.2.Reached := by
  rw [UdpMapper.getFrame]
  cases m.firstComplete with
  | none => exact hm
  | some e =>
    intro k c hk
    rw [getElem?_erased] at hk
    split at hk
    · cases hk
    · exact hm k c hk

theorem Reached.call {m : UdpMapper} (hm : m.Reached) {c : Call} {r : Reply × UdpMapper}
    (h : m.call c = some r) : r.2.Reached := by
  cases c with
  | addFragment data =>
    obtain ⟨s, hs, rfl⟩ := Option.map_eq_some_iff.mp h
    exact hm.addFragment hs
  | getFrame out =>
    cases h
    exact hm.getFrame out

theorem Reached.run {m : UdpMapper} (hm : m.Reached) {calls : List Call}
    {r : List Reply × UdpMapper} (h : m.run calls = some r) : r.2.Reached := by
  refine run_invariant ?_ hm h
  intro m c r hm hc
  exact hm.call hc

theorem reached_empty : Reached {} := by
  intro id c hc
  cases hc

end UdpMapper

end Open3DStream
