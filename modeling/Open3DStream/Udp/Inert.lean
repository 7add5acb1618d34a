import Open3DStream.Udp.Mapper

/-! Rejected datagrams that leave no trace. -/

namespace Open3DStream

open Lib

namespace UdpCombiner

theorem fragSize_ne {c : UdpCombiner} {data : List UInt8} (hl : headerSize ≤ data.length)
    (hs : data.length ≤ 65511) {r : Bool × UdpCombiner} (h : c.addFragment data = some r) :
    (heading data).fragSize ≠ 0 := by
  intro hz
  simp only [addFragment] at h
  rw [if_neg (by omega), if_pos hz] at h
  cases h

/-- A rejected datagram that gets as far as `mFound` is not the last of its frame. -/
theorem Marks.rejected {c c' : UdpCombiner} (hr : c.Reached) {data : List UInt8}
    (hm : c.Marks data) (h : c.addFragment data = some (false, c')) :
    ∃ base f, base = c.sized (heading data).bufSz (heading data).fragSize ∧
      base.Geometry (heading data).bufSz f ∧ (c.mBufferSize = 0 → f = (heading data).fragSize) ∧
      (heading data).seq.toNat < base.mFound.length ∧
      (heading data).seq ≠ frameCount (heading data).bufSz (heading data).fragSize - 1 ∧
      c' = { base with mFound := base.mFound.set (heading data).seq.toNat true } := by
  obtain ⟨⟨f, hg, hf⟩, hs⟩ := hm.geometry hr h
  obtain ⟨hseq, ⟨hw, heq⟩ | ⟨-, -, heq⟩⟩ := store_cases hs
  · exact ⟨_, f, rfl, hg, hf, hseq, (not_or.mp hw).1, congrArg Prod.snd heq⟩
  · cases heq

theorem isComplete_allocated_set {b f s : UInt32} (hs : s < frameCount b f)
    (hlast : s ≠ frameCount b f - 1) :
    isComplete { allocated b f with mFound := (allocated b f).mFound.set s.toNat true } = false := by
  have hlt := UInt32.lt_iff_toNat_lt.mp hs
  have hone : (1 : UInt32) ≤ frameCount b f := by
    rw [UInt32.le_iff_toNat_le, UInt32.toNat_one]
    omega
  have hpred := UInt32.toNat_sub_of_le _ _ hone
  rw [UInt32.toNat_one] at hpred
  have hne : s.toNat ≠ (frameCount b f - 1).toNat := fun h => hlast (UInt32.toNat_inj.mp h)
  apply isComplete_of_not (j := (frameCount b f - 1).toNat)
  dsimp only
  rw [List.getElem?_set_ne hne, allocated, List.getElem?_replicate, if_pos (by omega)]

/-! ### Datagrams without a payload -/

/-- The flags after each of some fragments is found. -/
def mark (found : List Bool) (ss : List UInt32) : List Bool :=
  ss.foldl (fun found s => found.set s.toNat true) found

theorem getElem?_mark (found : List Bool) (ss : List UInt32) (j : Nat) :
    (mark found ss)[j]? =
      if ∃ s ∈ ss, s.toNat = j then found[j]?.map fun _ => true else found[j]? := by
  induction ss generalizing found with
  | nil => simp [mark]
  | cons s ss ih =>
    rw [mark, List.foldl_cons, ← mark, ih, List.getElem?_set]
    by_cases hj : s.toNat = j
    · subst hj
      have hex : ∃ t ∈ s :: ss, t.toNat = s.toNat := ⟨s, List.mem_cons_self, rfl⟩
      rw [if_pos hex, if_pos rfl]
      split <;> split <;> simp_all
    · have hiff : (∃ t ∈ s :: ss, t.toNat = j) ↔ ∃ t ∈ ss, t.toNat = j := by
        simp [hj]
      rw [if_neg hj]
      simp only [hiff]

/-- The fragments of a frame but one. -/
def others (b f s : UInt32) : List UInt32 :=
  ((List.range (frameCount b f).toNat).map UInt32.ofNat).filter (· ≠ s)

theorem mem_others {b f s t : UInt32} : t ∈ others b f s ↔ t < frameCount b f ∧ t ≠ s := by
  rw [others, List.mem_filter, decide_eq_true_eq, List.mem_map, UInt32.lt_iff_toNat_lt]
  refine and_congr_left fun _ => ⟨?_, fun h => ⟨t.toNat, List.mem_range.mpr h, UInt32.ofNat_toNat⟩⟩
  rintro ⟨j, hj, rfl⟩
  have hj := List.mem_range.mp hj
  rwa [UInt32.toNat_ofNat_of_lt' (Nat.lt_trans hj (UInt32.toNat_lt _))]

theorem mark_others_missing {found : List Bool} {b f s : UInt32}
    (h : found[s.toNat]? = some false) : (mark found (others b f s))[s.toNat]? = some false := by
  rw [getElem?_mark, if_neg, h]
  rintro ⟨t, ht, heq⟩
  exact (mem_others.mp ht).2 (UInt32.toNat_inj.mp heq)

theorem mark_others_all {found : List Bool} {b f s : UInt32}
    (h : found.length = (frameCount b f).toNat) (j : Nat) :
    (mark (found.set s.toNat true) (others b f s))[j]? ≠ some false := by
  rw [getElem?_mark]
  by_cases hex : ∃ t ∈ others b f s, t.toNat = j
  · rw [if_pos hex]
    simp
  · rw [if_neg hex, List.getElem?_set]
    split
    · simp
    · intro hj
      obtain ⟨hlt, -⟩ := List.getElem?_eq_some_iff.mp hj
      rw [h] at hlt
      have htoNat : (UInt32.ofNat j).toNat = j :=
        UInt32.toNat_ofNat_of_lt' (Nat.lt_trans hlt (UInt32.toNat_lt _))
      refine hex ⟨UInt32.ofNat j, mem_others.mpr ⟨?_, ?_⟩, htoNat⟩
      · rwa [UInt32.lt_iff_toNat_lt, htoNat]
      · rintro rfl
        exact ‹¬_› htoNat

/-- A heading alone is marked where it fits. -/
theorem marks_bytes {c : UdpCombiner} {b f : UInt32} (hg : (c.sized b f).Geometry b f)
    (id : UInt32) {s : UInt32} (hs : s < frameCount b f) : c.Marks (Heading.bytes ⟨id, s, b, f⟩) := by
  have hh := heading_bytes_self ⟨id, s, b, f⟩
  have hl := Heading.length_bytes ⟨id, s, b, f⟩
  refine ⟨hl.ge, by rw [hl]; decide, ?_, ?_, ?_⟩ <;> rw [hh]
  · exact hg.fragSize
  · exact hs
  · by_cases hz : c.mBufferSize = 0
    · exact .inl hz
    · have hsize := hg.size
      rw [sized, if_neg hz] at hsize
      exact .inr hsize

theorem addFragment_bytes {c : UdpCombiner} {b f : UInt32} (hg : (c.sized b f).Geometry b f)
    (id : UInt32) {s : UInt32} (hs : s < frameCount b f) :
    ∃ accepted, c.addFragment (Heading.bytes ⟨id, s, b, f⟩) =
      some (accepted, { c.sized b f with mFound := (c.sized b f).mFound.set s.toNat true }) := by
  have hd : (Heading.bytes ⟨id, s, b, f⟩).drop headerSize = [] :=
    List.drop_of_length_le (Nat.le_of_eq (Heading.length_bytes _))
  have hlt := ((lt_frameCount_iff hg.fragSize).mp hs).2
  have hstart : (s * f).toNat ≤ (c.sized b f).mBuffer.length := by
    rw [hg.buffer, UInt32.toNat_mul]
    exact Nat.le_trans (Nat.mod_le _ _) (Nat.le_of_lt hlt)
  have hseq : s.toNat < (c.sized b f).mFound.length := by
    rw [hg.found]
    exact UInt32.lt_iff_toNat_lt.mp hs
  rw [addFragment_of_marks (marks_bytes hg id hs), heading_bytes_self]
  dsimp only
  rw [if_neg fun h => UInt32.not_le.mpr hg.few h.2]
  simp only [store, hd, List.map_nil, List.length_nil, Nat.add_zero, overwrite_nil]
  rw [if_neg (by simp only [not_or]; exact ⟨Nat.not_le.mpr hseq, hg.few_ne⟩), if_neg (Nat.not_lt.mpr hstart)]
  split
  · exact ⟨false, rfl⟩
  · exact ⟨true, rfl⟩

end UdpCombiner

namespace UdpMapper

/-! ### Finished entries -/

/-- The entries that `getFrame` takes for whole frames. -/
def finished (m : UdpMapper) : Std.ExtTreeMap UInt32 UdpCombiner :=
  m.items.filter fun _ c => c.isComplete

theorem getElem?_finished (m : UdpMapper) (k : UInt32) :
    m.finished[k]? = m.items[k]?.filter (·.isComplete) := Std.ExtTreeMap.getElem?_filter'

theorem size_finished {m n : UdpMapper} (id : UInt32) {c : UdpCombiner}
    (h : ∀ k, k ≠ id → m.finished[k]? = n.finished[k]?) (hm : m.finished[id]? = none)
    (hn : n.finished[id]? = some c) : n.finished.size = m.finished.size + 1 := by
  have hinsert : n.finished = m.finished.insert id c := by
    apply Std.ExtTreeMap.ext_getElem?
    intro k
    rw [Std.ExtTreeMap.getElem?_insert]
    simp only [Std.LawfulEqCmp.compare_eq_iff_eq]
    split
    · rw [← ‹id = k›, hn]
    · exact (h k (Ne.symm ‹_›)).symm
  rw [hinsert, Std.ExtTreeMap.size_insert, if_neg]
  rw [Std.ExtTreeMap.contains_eq_isSome_getElem?, hm]
  exact Bool.false_ne_true

theorem firstComplete_least {m : UdpMapper} {id k : UInt32} {c c' : UdpCombiner}
    (h : m.firstComplete = some (id, c)) (hk : k < id) (hc : m.items[k]? = some c') :
    c'.isComplete = false := by
  obtain ⟨-, before, after, hl, hbefore⟩ := List.find?_eq_some_iff_append.mp h
  have hsorted := Std.ExtTreeMap.ordered_keys_toList (t := m.items)
  have hmem := Std.ExtTreeMap.mem_toList_iff_getElem?_eq_some.mpr hc
  rw [hl] at hsorted hmem
  obtain hin | hin := List.mem_append.mp hmem
  · simpa using hbefore _ hin
  cases hin with
  | head => exact absurd hk (UInt32.lt_irrefl _)
  | tail _ hin =>
    have hlt := (List.pairwise_cons.mp (List.pairwise_append.mp hsorted).2.1).1 _ hin
    exact absurd hk (UInt32.not_lt.mpr (UInt32.le_of_lt (Std.compare_eq_lt.mp hlt)))

/-- A successful `getFrame` takes away one finished entry. -/
theorem size_finished_erased {m : UdpMapper} {id : UInt32} {c : UdpCombiner}
    (h : m.firstComplete = some (id, c)) :
    m.finished.size =
      (finished ⟨m.items.filter fun j _ => ¬j ≤ id⟩).size + 1 := by
  obtain ⟨hitem, hcomplete⟩ := firstComplete_eq_some h
  apply size_finished id (c := c)
  · intro k hk
    rw [getElem?_finished, getElem?_finished, getElem?_erased]
    split
    · cases hc : m.items[k]? with
      | none => rfl
      | some c' =>
        have hlt : k < id := UInt32.lt_of_le_of_ne ‹_› hk
        simp [Option.filter, firstComplete_least h hlt hc]
    · rfl
  · rw [getElem?_finished, getElem?_erased, if_pos (UInt32.le_refl id)]
    rfl
  · simp [getElem?_finished, hitem, hcomplete]

theorem size_finished_of_none {m : UdpMapper} (h : m.firstComplete = none) :
    m.finished.size = 0 := by
  rw [← Std.ExtTreeMap.eq_empty_iff_size_eq_zero]
  apply Std.ExtTreeMap.ext_getElem?
  intro k
  rw [getElem?_finished, Std.ExtTreeMap.getElem?_empty]
  cases hc : m.items[k]? with
  | none => rfl
  | some c => simp [Option.filter, firstComplete_eq_none_iff.mp h k c hc]

theorem call_getFrame_none {m : UdpMapper} (h : m.firstComplete = none) :
    m.call (.getFrame []) = some (.getFrame false [], m) := by
  rw [call, getFrame, h]

theorem call_getFrame_some {m : UdpMapper} {id : UInt32} {c : UdpCombiner}
    (h : m.firstComplete = some (id, c)) :
    m.call (.getFrame []) =
      some (.getFrame true c.mBuffer, ⟨m.items.filter fun j _ => ¬j ≤ id⟩) := by
  rw [call, getFrame, h]
  rfl

/-- Mappers that answer alike have as many finished entries. -/
theorem size_finished_of_alike {m n : UdpMapper} (h : Alike call m n) :
    m.finished.size = n.finished.size := by
  generalize hs : m.finished.size = size
  induction size generalizing m n with
  | zero =>
    cases hm : m.firstComplete with
    | some e => rw [size_finished_erased hm] at hs; cases hs
    | none =>
      cases hn : n.firstComplete with
      | none => exact (size_finished_of_none hn).symm
      | some e => cases h.reply (call_getFrame_none hm) (call_getFrame_some hn)
  | succ size ih =>
    cases hm : m.firstComplete with
    | none => rw [size_finished_of_none hm] at hs; cases hs
    | some e =>
      cases hn : n.firstComplete with
      | none => cases h.reply (call_getFrame_some hm) (call_getFrame_none hn)
      | some e' =>
        rw [size_finished_erased hm, Nat.add_right_cancel_iff] at hs
        rw [size_finished_erased hn, ← ih (h.after (call_getFrame_some hm) (call_getFrame_some hn)) hs]

/-! ### Telling mappers apart -/

theorem getCombiner_insert (m : UdpMapper) (id : UInt32) (c : UdpCombiner) :
    getCombiner ⟨m.items.insert id c⟩ id = c := by
  rw [getCombiner, getElem?_insert, if_pos rfl]
  rfl

theorem call_bytes {m : UdpMapper} {id b f : UInt32} {base : UdpCombiner}
    (hbase : (m.getCombiner id).sized b f = base) (hg : base.Geometry b f) {s : UInt32}
    (hs : s < frameCount b f) :
    m.call (.addFragment (Heading.bytes ⟨id, s, b, f⟩)) =
      some (.addFragment true,
        ⟨m.items.insert id { base with mFound := base.mFound.set s.toNat true }⟩) := by
  subst hbase
  obtain ⟨accepted, ha⟩ := UdpCombiner.addFragment_bytes hg id hs
  rw [call, addFragment, if_neg (by rw [Heading.length_bytes]; decide), heading_bytes_self]
  dsimp only
  rw [ha]
  rfl

theorem run_bytes {id b f : UInt32} {ss : List UInt32} (hss : ∀ s ∈ ss, s < frameCount b f)
    {m : UdpMapper} {base : UdpCombiner} (hbase : (m.getCombiner id).sized b f = base)
    (hg : base.Geometry b f) :
    ∃ r : List Reply × UdpMapper,
      m.run (ss.map fun s => .addFragment (Heading.bytes ⟨id, s, b, f⟩)) = some r ∧
      (∀ k, k ≠ id → r.2.items[k]? = m.items[k]?) ∧
      r.2.items[id]? = if ss = [] then m.items[id]? else
        some { base with mFound := UdpCombiner.mark base.mFound ss } := by
  induction ss generalizing m base with
  | nil => exact ⟨([], m), rfl, fun _ _ => rfl, rfl⟩
  | cons s ss ih =>
    obtain ⟨hs, hss⟩ := List.forall_mem_cons.mp hss
    have hcall := call_bytes hbase hg hs
    have hg' := hg.set_found s.toNat
    obtain ⟨r, hr, hoff, hid⟩ := ih hss
      (m := ⟨m.items.insert id { base with mFound := base.mFound.set s.toNat true }⟩)
      (by rw [getCombiner_insert, hg'.sized]) hg'
    refine ⟨(.addFragment true :: r.1, r.2), ?_, fun k hk => ?_, ?_⟩
    · exact run_cons_eq_some_iff.mpr ⟨_, _, _, hcall, hr, rfl⟩
    · rw [hoff k hk, getElem?_insert, if_neg (Ne.symm hk)]
    · rw [hid, if_neg (List.cons_ne_nil s ss)]
      split
      · rw [getElem?_insert, if_pos rfl, ‹ss = []›]
        rfl
      · rfl

/-- After headings for all fragments of a frame but one, the frame is complete if that one is
found already. -/
theorem run_others {m : UdpMapper} {id b f s : UInt32} {base : UdpCombiner}
    (hg : base.Geometry b f)
    (hm : m.items[id]? = some base ∨ m.items[id]? = none ∧ base = UdpCombiner.allocated b f) :
    ∃ r : List Reply × UdpMapper,
      m.run ((UdpCombiner.others b f s).map fun s => .addFragment (Heading.bytes ⟨id, s, b, f⟩)) =
        some r ∧
      (∀ k, k ≠ id → r.2.items[k]? = m.items[k]?) ∧
      (r.2.items[id]? = some
          { base with mFound := UdpCombiner.mark base.mFound (UdpCombiner.others b f s) } ∨
        m.items[id]? = none ∧ r.2.items[id]? = none) := by
  have hss : ∀ t ∈ UdpCombiner.others b f s, t < frameCount b f :=
    fun t ht => (UdpCombiner.mem_others.mp ht).1
  have hbase : (m.getCombiner id).sized b f = base := by
    rw [getCombiner]
    obtain hm | ⟨hm, rfl⟩ := hm
    · rw [hm, Option.getD_some, hg.sized]
    · rw [hm]
      rfl
  obtain ⟨r, hr, hoff, hid⟩ := run_bytes hss hbase hg
  refine ⟨r, hr, hoff, ?_⟩
  rw [hid]
  split
  · rw [‹UdpCombiner.others b f s = []›]
    exact hm.imp (fun hm => hm) fun hm => ⟨hm.1, hm.1⟩
  · exact .inl rfl

/-- Mappers that differ in one finished entry answer differently. -/
theorem not_alike_of_finished {m n : UdpMapper} (id : UInt32) {c : UdpCombiner}
    (hoff : ∀ k, k ≠ id → n.items[k]? = m.items[k]?) (hm : m.finished[id]? = none)
    (hn : n.finished[id]? = some c) : ¬Alike call n m := by
  intro halike
  have hsize := size_finished_of_alike halike
  have hmore : n.finished.size = m.finished.size + 1 := by
    apply size_finished id (c := c)
    · intro k hk
      rw [getElem?_finished, getElem?_finished, hoff k hk]
    · exact hm
    · exact hn
  omega

/-- Mappers that differ in one flag of one entry answer differently some day: once all other
fragments are found, only one of them has the frame. -/
theorem not_alike_of_flag {m n : UdpMapper} {id b f s : UInt32} {base : UdpCombiner}
    (hg : base.Geometry b f) (hflag : base.mFound[s.toNat]? = some false)
    (hoff : ∀ k, k ≠ id → n.items[k]? = m.items[k]?)
    (hn : n.items[id]? = some { base with mFound := base.mFound.set s.toNat true })
    (hm : m.items[id]? = some base ∨ m.items[id]? = none ∧ base = UdpCombiner.allocated b f) :
    ¬Alike call n m := by
  intro halike
  obtain ⟨r, hr, hroff, hentry⟩ := run_others hg hm
  obtain ⟨r', hr', hroff', hentry'⟩ := run_others (hg.set_found s.toNat) (.inl hn)
  have hmissing : UdpCombiner.isComplete
      { base with mFound := UdpCombiner.mark base.mFound (UdpCombiner.others b f s) } = false :=
    UdpCombiner.isComplete_of_not (UdpCombiner.mark_others_missing hflag)
  have hall : UdpCombiner.isComplete
      { base with mFound := UdpCombiner.mark (base.mFound.set s.toNat true) (UdpCombiner.others b f s) } =
        true := UdpCombiner.isComplete_iff.mpr (UdpCombiner.mark_others_all hg.found)
  have hnot : r.2.finished[id]? = none := by
    rw [getElem?_finished]
    obtain hr | ⟨-, hr⟩ := hentry
    · rw [hr, Option.filter_some, hmissing]
      rfl
    · rw [hr]
      rfl
  have hfinished : r'.2.finished[id]? = some { base with
      mFound := UdpCombiner.mark (base.mFound.set s.toNat true) (UdpCombiner.others b f s) } := by
    obtain hr' | ⟨hnone, -⟩ := hentry'
    · rw [getElem?_finished, hr', Option.filter_some, if_pos hall]
    · rw [hn] at hnone
      cases hnone
  refine not_alike_of_finished id ?_ hnot hfinished (halike.run hr' hr)
  intro k hk
  rw [hroff k hk, hroff' k hk, hoff k hk]

/-! ### Rejected datagrams -/

/-- The datagram is not of a size to be looked at; or its frame has an entry, and a check that
comes before `mFound` refuses it or its fragment is found already. -/
def Inert (m : UdpMapper) (data : List UInt8) : Prop :=
  (data.length < headerSize ∨ 65511 < data.length) ∨
    ∃ c, m.items[(heading data).id]? = some c ∧
      (frameCount (heading data).bufSz (heading data).fragSize ≤ (heading data).seq ∨
        c.mBufferSize ≠ 0 ∧ (c.mBufferSize ≠ (heading data).bufSz.toNat ∨
          c.mFound[(heading data).seq.toNat]? = some true))

theorem insert_self {m : UdpMapper} {id : UInt32} {c : UdpCombiner} (h : m.items[id]? = some c) :
    (⟨m.items.insert id c⟩ : UdpMapper) = m := by
  apply ext_items
  intro k
  rw [getElem?_insert]
  split
  · rw [← ‹id = k›, h]
  · rfl

/-- An inert datagram that is rejected changes nothing. -/
theorem Inert.unchanged {m : UdpMapper} (hm : m.Reached) {data : List UInt8} (hi : Inert m data)
    {c : UdpCombiner} (hc : (m.getCombiner (heading data).id).addFragment data = some (false, c)) :
    ∃ result, m.addFragment data = some (result, m) := by
  by_cases hs : data.length < headerSize ∨ 65511 < data.length
  · refine ⟨false, ?_⟩
    rw [addFragment, if_pos hs]
  obtain ⟨c₀, hitem, hrefused⟩ := hi.resolve_left hs
  have hget : m.getCombiner (heading data).id = c₀ := by
    rw [getCombiner, hitem]
    rfl
  refine ⟨true, (addFragment_of_size hs hc).trans ?_⟩
  rw [hget] at hc
  suffices hsame : c = c₀ by rw [hsame, insert_self hitem]
  by_cases hmarks : c₀.Marks data
  · obtain hseq | ⟨hne, hrefused⟩ := hrefused
    · exact absurd hmarks.seq (UInt32.not_lt.mpr hseq)
    have hflag := hrefused.resolve_left (not_not.mpr (hmarks.size.resolve_left hne))
    obtain ⟨base, f, hbase, -, -, hlt, -, rfl⟩ := hmarks.rejected (hm _ _ hitem) hc
    rw [UdpCombiner.sized, if_neg hne] at hbase
    subst hbase
    obtain ⟨_, hset⟩ := List.getElem?_eq_some_iff.mp hflag
    have hself : base.mFound.set (heading data).seq.toNat base.mFound[(heading data).seq.toNat] =
        base.mFound := List.set_getElem_self hlt
    rw [hset] at hself
    rw [hself]
  · exact congrArg Prod.snd (UdpCombiner.addFragment_of_not_marks hmarks hc)

/-- A rejected datagram may not add an entry: as it stands it would count as finished, or else it
lacks one fragment less than the entry that is made later. -/
theorem entry_of_alike {m : UdpMapper} {data : List UInt8} {c : UdpCombiner}
    (hc : (m.getCombiner (heading data).id).addFragment data = some (false, c))
    (ha : Alike call ⟨m.items.insert (heading data).id c⟩ m) :
    ∃ c₀, m.items[(heading data).id]? = some c₀ := by
  cases hitem : m.items[(heading data).id]? with
  | some c₀ => exact ⟨c₀, rfl⟩
  | none =>
    exfalso
    rw [getCombiner, hitem, Option.getD_none] at hc
    by_cases hmarks : UdpCombiner.Marks {} data
    · obtain ⟨base, f, hbase, hg, hf, hlt, -, rfl⟩ := hmarks.rejected (.inl rfl) hc
      rw [← hf rfl] at hbase
      rw [hg.found] at hlt
      have hflag : base.mFound[(heading data).seq.toNat]? = some false := by
        subst hbase
        exact List.getElem?_replicate.trans (if_pos hlt)
      exact not_alike_of_flag hg hflag (fun k hk => getElem?_insert_ne m _ hk)
        (getElem?_insert_self m _ _) (.inr ⟨hitem, hbase⟩) ha
    · have hempty : c = {} := congrArg Prod.snd (UdpCombiner.addFragment_of_not_marks hmarks hc)
      subst hempty
      refine not_alike_of_finished _ (c := {}) (fun k hk => getElem?_insert_ne m _ hk) ?_ ?_ ha
      · rw [getElem?_finished, hitem]
        rfl
      · rw [getElem?_finished, getElem?_insert_self]
        rfl

/-- An entry that has no buffer yet counts as finished until a fragment is marked in it. -/
theorem not_alike_of_unsized {m : UdpMapper} {data : List UInt8} {c : UdpCombiner}
    (hitem : m.items[(heading data).id]? = some {}) (hmarks : UdpCombiner.Marks {} data)
    (hc : UdpCombiner.addFragment {} data = some (false, c)) :
    ¬Alike call ⟨m.items.insert (heading data).id c⟩ m := by
  intro ha
  obtain ⟨base, f, hbase, -, -, -, hlast, rfl⟩ := hmarks.rejected (.inl rfl) hc
  have hallocated : base = UdpCombiner.allocated (heading data).bufSz (heading data).fragSize := hbase
  subst hallocated
  have hpartial := UdpCombiner.isComplete_allocated_set hmarks.seq hlast
  refine not_alike_of_finished _ (c := {}) (fun k hk => (getElem?_insert_ne m _ hk).symm) ?_ ?_
    fun calls => (ha calls).symm
  · rw [getElem?_finished, getElem?_insert_self, Option.filter_some, hpartial]
    rfl
  · rw [getElem?_finished, hitem]
    rfl

/-- A fragment that was missing and is marked without its bytes is heard of. -/
theorem not_alike_of_missing {m : UdpMapper} {data : List UInt8} {c c₀ : UdpCombiner}
    (hr : c₀.Reached) (hitem : m.items[(heading data).id]? = some c₀) (hz : c₀.mBufferSize ≠ 0)
    (hmarks : c₀.Marks data) (hmissing : c₀.mFound[(heading data).seq.toNat]? ≠ some true)
    (hc : c₀.addFragment data = some (false, c)) :
    ¬Alike call ⟨m.items.insert (heading data).id c⟩ m := by
  obtain ⟨base, f, hbase, hg, -, hlt, -, rfl⟩ := hmarks.rejected hr hc
  rw [UdpCombiner.sized, if_neg hz] at hbase
  subst hbase
  have hflag : base.mFound[(heading data).seq.toNat]? = some false := by
    cases hv : base.mFound[(heading data).seq.toNat] with
    | true => exact absurd (List.getElem?_eq_some_iff.mpr ⟨hlt, hv⟩) hmissing
    | false => exact List.getElem?_eq_some_iff.mpr ⟨hlt, hv⟩
  exact not_alike_of_flag hg hflag (fun k hk => getElem?_insert_ne m _ hk)
    (getElem?_insert_self m _ _) (.inl hitem)

theorem inert_of_alike {m : UdpMapper} (hm : m.Reached) {data : List UInt8} {c : UdpCombiner}
    (hs : ¬(data.length < headerSize ∨ 65511 < data.length))
    (hc : (m.getCombiner (heading data).id).addFragment data = some (false, c))
    (ha : Alike call ⟨m.items.insert (heading data).id c⟩ m) : Inert m data := by
  obtain ⟨c₀, hitem⟩ := entry_of_alike hc ha
  have hget : m.getCombiner (heading data).id = c₀ := by
    rw [getCombiner, hitem]
    rfl
  rw [hget] at hc
  refine .inr ⟨c₀, hitem, ?_⟩
  by_contra hni
  obtain ⟨hseq, hni⟩ := not_or.mp hni
  have hsize : c₀.mBufferSize = 0 ∨ c₀.mBufferSize = (heading data).bufSz.toNat := by
    by_contra hsize
    obtain ⟨hz, hb⟩ := not_or.mp hsize
    exact hni ⟨hz, .inl hb⟩
  have hmarks : c₀.Marks data :=
    ⟨by omega, by omega, UdpCombiner.fragSize_ne (by omega) (by omega) hc, UInt32.not_le.mp hseq,
      hsize⟩
  by_cases hz : c₀.mBufferSize = 0
  · obtain rfl | ⟨b, f, hg⟩ := hm _ _ hitem
    · exact not_alike_of_unsized hitem hmarks hc ha
    · exact absurd hz hg.mBufferSize_ne
  · exact not_alike_of_missing (hm _ _ hitem) hitem hz hmarks (fun hf => hni ⟨hz, .inr hf⟩) hc ha

/-- In a mapper that any calls have led to, a rejected datagram is as good as never
received exactly when it is inert. -/
theorem rejected_alike_iff {calls : List Call} {answers : List Reply} {m : UdpMapper}
    (hrun : run {} calls = some (answers, m)) {data : List UInt8} {c : UdpCombiner}
    (hc : (m.getCombiner (heading data).id).addFragment data = some (false, c)) :
    ∃ result m', m.addFragment data = some (result, m') ∧
      ((∀ later, m'.replies later = m.replies later) ↔ Inert m data) := by
  have hm : m.Reached := reached_empty.run hrun
  by_cases hi : Inert m data
  · obtain ⟨result, hsame⟩ := hi.unchanged hm hc
    exact ⟨result, m, hsame, iff_of_true (fun _ => rfl) hi⟩
  · have hs : ¬(data.length < headerSize ∨ 65511 < data.length) := fun hs => hi (.inl hs)
    refine ⟨true, _, addFragment_of_size hs hc, ?_⟩
    exact iff_of_false (fun ha => hi (inert_of_alike hm hs hc ha)) hi

/-- A mapper that the second half of a frame has come to. -/
def halfReceived : UdpMapper :=
  ⟨Std.ExtTreeMap.insert ∅ 7 ⟨[none, none, some 3, some 4], 4, [false, true]⟩⟩

theorem rejected_alike_iff_halfReceived :
    ∃ result m', halfReceived.addFragment (halfFrame 5 []) = some (result, m') ∧
      ((∀ later, m'.replies later = halfReceived.replies later) ↔
        Inert halfReceived (halfFrame 5 [])) :=
  rejected_alike_iff
    (rfl : run {} [.addFragment (halfFrame 1 [3, 4])] = some ([.addFragment true], halfReceived))
    (c := ⟨[none, none, some 3, some 4], 4, [false, true]⟩) (by decide +kernel)

/-- A datagram with a sequence number that its frame does not have: it is rejected, and after
it there is an empty frame to get. -/
theorem stray_fragment_heard :
    ¬∀ (calls : List Call) (answers : List Reply) (m : UdpMapper) (data : List UInt8)
      (c : UdpCombiner), run {} calls = some (answers, m) →
      (m.getCombiner (heading data).id).addFragment data = some (false, c) →
      ∀ result m', m.addFragment data = some (result, m') →
        ∀ later, m'.replies later = m.replies later := by
  intro h
  have hsame := h [] [] {} (halfFrame 5 []) {} rfl (by decide +kernel) true
    ⟨Std.ExtTreeMap.insert ∅ 7 {}⟩ rfl [.getFrame []]
  exact absurd hsame (by decide +kernel)

end UdpMapper

end Open3DStream
