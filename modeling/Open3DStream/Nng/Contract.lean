import Open3DStream.Nng.Reader

/-! What the reads of the connectors of nng deliver, message after message. -/

namespace Open3DStream

open Lib

namespace Recvmsg

variable {recv : Recvmsg} (h : recv.ret = 0)

include h

theorem exists_msg : ∃ msg, recv.msg = some msg := Option.isSome_iff_exists.mp (recv.isSome_of_ret h)

theorem ret_ne_again : recv.ret ≠ NNG_EAGAIN := by
  rw [h]
  decide

end Recvmsg

namespace Reader

section copy

variable {r t : Reader} {msg : NngMsg} {recv : Recvmsg} {b : List UInt8}

theorem ends_failed (ht : t.Valid) (c : ReadCall) : r.Ends c (some t.failed) :=
  ⟨⟨.fails, 0⟩, t, rfl, ht, fun _ h => by cases h⟩

theorem Valid.setError (hr : r.Valid) (msg : String) (ret : Option Int) :
    (r.setError msg ret).Valid := hr

/-- There is room for the body. -/
theorem copy_of_block (hb : r.heap.block r.data = some b) (hle : msg.body.length ≤ b.length) :
    ∃ heap, r.heap.store r.data msg.body = some heap ∧
      heap.block r.data = some (msg.body ++ b.drop msg.body.length) ∧
      r.copy msg msg.body.length =
        some (⟨.reads msg.body.length, msg.body.length⟩, { r with heap := heap }) := by
  obtain ⟨heap, hs, hblock⟩ := Heap.store_of_le hb hle
  refine ⟨heap, hs, hblock, ?_⟩
  rw [copy, List.length_append, if_pos (Nat.le_add_right _ _), List.take_left, hs]
  rfl

theorem answer_of_copy {n : Nat} {answer : ReadAnswer} (h : r.copy msg n = some (answer, t)) :
    answer = ⟨.reads msg.body.length, n⟩ := by
  rw [copy] at h
  split at h
  · obtain ⟨heap, -, h⟩ := Option.bind_eq_some_iff.mp h
    cases h
    rfl
  · cases h

theorem length_append_drop {n : Nat} (body : List UInt8) (hle : body.length ≤ b.length)
    (hn : n ≤ b.length) : n ≤ (body ++ b.drop body.length).length := by
  rw [List.length_append, List.length_drop]
  omega

theorem ends_copy_fixed (hr : r.Valid) (hle : msg.body.length ≤ r.len) (hmsg : recv.msg = some msg) :
    r.Ends (.fixed recv) (r.copy msg msg.body.length) := by
  obtain ⟨b, hb, hlen⟩ := hr
  have hroom := Nat.le_trans hle hlen
  obtain ⟨heap, hs, hblock, hcopy⟩ := copy_of_block hb hroom
  refine ⟨_, _, hcopy, ⟨_, hblock, length_append_drop msg.body hroom hlen⟩, ?_⟩
  intro n hn
  cases hn
  exact ⟨msg, hmsg, rfl, rfl, hs, rfl, rfl⟩

theorem ends_copy_growing (hb : t.heap.block t.data = some b) (hle : msg.body.length ≤ b.length)
    (hlen : t.len ≤ b.length) (hmsg : recv.msg = some msg) (passed : Bool) (how : Allocation) :
    r.Ends (.growing passed recv how) (t.copy msg msg.body.length) := by
  obtain ⟨heap, -, hblock, hcopy⟩ := copy_of_block hb hle
  have hroom := length_append_drop msg.body hle hlen
  refine ⟨_, _, hcopy, ⟨_, hblock, hroom⟩, ?_⟩
  intro n hn
  cases hn
  exact ⟨msg, hmsg, rfl, rfl, _, hblock, hroom⟩

end copy

end Reader

open Reader

namespace BlockingNngConnector

variable {r : Reader}

theorem read_ends (hr : r.Valid) (recv : Recvmsg) : r.Ends (.fixed recv) (read r recv) := by
  rw [read]
  split
  · exact ends_failed (hr.setError _ _) _
  · rename_i hret
    obtain ⟨msg, hmsg⟩ := recv.exists_msg (not_not.mp hret)
    rw [hmsg, Option.bind_eq_bind, Option.bind_some]
    split
    · exact ends_failed (hr.setError _ _) _
    · rename_i hle
      split
      · exact ends_failed (hr.setError _ _) _
      · exact ends_copy_fixed hr (Nat.le_of_not_lt hle) hmsg

/-- The buffer that is ready for a message has room for it. -/
theorem ensure_cases (hr : r.Valid) (n : Nat) (how : Allocation) :
    ensure r n how = some (none, r.heap) ∨
    ∃ buf heap b, ensure r n how = some (buf, heap) ∧ buf ≠ none ∧ heap.block buf = some b ∧
      n ≤ b.length := by
  obtain ⟨b, hb, hlen⟩ := hr
  rw [ensure]
  cases hdata : r.data with
  | none =>
    rw [hdata] at hb
    cases hb
  | some i =>
    rw [hdata] at hb
    dsimp only
    split
    · by_cases hhow : how = .fails
      · exact .inl (hhow ▸ Heap.realloc_fails hb n)
      · obtain ⟨buf, heap, hrealloc, hne, hblock, -⟩ := Heap.realloc_live hb n hhow
        exact .inr ⟨buf, heap, _, hrealloc, hne, hblock, Nat.le_of_eq (length_resize b n).symm⟩
    · rename_i hle
      exact .inr ⟨_, _, b, rfl, Option.some_ne_none i, hb, Nat.le_trans (Nat.le_of_not_lt hle) hlen⟩

theorem readGrowing_ends (hr : r.Valid) (passed : Bool) (recv : Recvmsg) (how : Allocation) :
    r.Ends (.growing passed recv how) (readGrowing r passed recv how) := by
  rw [readGrowing]
  split
  · exact ends_failed (hr.setError _ _) _
  · split
    · exact ends_failed (hr.setError _ _) _
    · rename_i hret
      obtain ⟨msg, hmsg⟩ := recv.exists_msg (not_not.mp hret)
      rw [hmsg, Option.bind_eq_bind, Option.bind_some]
      obtain he | ⟨buf, heap, b, he, hne, hb, hle⟩ := ensure_cases hr msg.body.length how
      · rw [he]
        exact ends_failed hr _
      · rw [he, Option.bind_eq_bind, Option.bind_some]
        dsimp only
        rw [if_neg hne]
        split
        · exact ends_failed ⟨b, hb, hle⟩ _
        · exact ends_copy_growing hb hle hle hmsg passed how

end BlockingNngConnector

namespace AsyncNngConnector

variable {r : Reader}

theorem read_of_fits {recv : Recvmsg} {msg : NngMsg} (hret : recv.ret = 0) (hmsg : recv.msg = some msg)
    (hle : msg.body.length ≤ r.len) (hbody : msg.hasBody = true) :
    read r recv = (r.copy msg r.len).bind fun o => some (o.1, { o.2 with mState := .READING }) := by
  rw [read, if_neg (recv.ret_ne_again hret), if_neg (not_not.mpr hret), hmsg]
  dsimp only
  rw [if_neg (Nat.not_lt.mpr hle), hbody]
  rfl

/-- A message that fits is read correctly if it is not shorter than the buffer. -/
theorem read_ends_iff (hr : r.Valid) (recv : Recvmsg) :
    r.Ends (.fixed recv) (read r recv) ↔ Sound .async r (.fixed recv) := by
  by_cases hret : recv.ret = 0
  · obtain ⟨msg, hmsg⟩ := recv.exists_msg hret
    have hsound : Sound .async r (.fixed recv) ↔ (msg.hasBody = true → r.len ≤ msg.body.length) := by
      rw [Sound, hmsg]
      simp [hret]
    rw [hsound]
    by_cases hfits : msg.body.length ≤ r.len ∧ msg.hasBody = true
    · obtain ⟨hle, hbody⟩ := hfits
      rw [read_of_fits hret hmsg hle hbody]
      refine ⟨?_, ?_⟩
      · rintro ⟨answer, t, ho, -, h⟩ -
        obtain ⟨⟨answer', t'⟩, hcopy, ho⟩ := Option.bind_eq_some_iff.mp ho
        cases ho
        obtain rfl := answer_of_copy hcopy
        obtain ⟨msg', hmsg', -, hcopied, -⟩ := h _ rfl
        exact Nat.le_of_eq hcopied
      · intro hlen
        obtain ⟨answer, t, hcopy, ht, h⟩ := ends_copy_fixed hr hle hmsg
        rw [Nat.le_antisymm (hlen hbody) hle, hcopy]
        exact ⟨answer, _, rfl, ht, h⟩
    · refine iff_of_true ?_ (fun hbody => ?_)
      · rw [read, if_neg (recv.ret_ne_again hret), if_neg (not_not.mpr hret), hmsg]
        dsimp only
        split
        · exact ends_failed (hr.setError _ _) _
        · rename_i hle
          rw [if_pos]
          · exact ends_failed (hr.setError _ _) _
          · simpa [Nat.le_of_not_lt hle] using hfits
      · by_contra hle
        exact hfits ⟨Nat.le_of_not_le hle, hbody⟩
  · refine iff_of_true ?_ (fun h => absurd h hret)
    rw [read, if_pos hret]
    split
    · exact ends_failed hr _
    · exact ends_failed (hr.setError _ _) _

/-- The buffer that is ready for a message has room for it, unless it has moved. -/
theorem ensure_cases (hr : r.Valid) (n : Nat) (how : Allocation) :
    how = .fails ∧ ensure r n how = some none ∨
    ∃ t, ensure r n how = some (some t) ∧
      if r.len < n ∧ how = .moves then t.heap.block t.data = none
      else ∃ b, t.heap.block t.data = some b ∧ n ≤ b.length ∧ t.len ≤ b.length := by
  obtain ⟨b, hb, hlen⟩ := hr
  rw [ensure]
  split
  · rename_i hlt
    by_cases hhow : how = .fails
    · rw [hhow, Heap.realloc_fails hb n]
      exact .inl ⟨rfl, rfl⟩
    · obtain ⟨buf, heap, hrealloc, hne, hblock, hin, hmoves⟩ := Heap.realloc_live hb n hhow
      rw [hrealloc, Option.bind_eq_bind, Option.bind_some]
      dsimp only
      rw [if_neg hne]
      refine .inr ⟨_, rfl, ?_⟩
      split
      · rename_i hm
        exact hmoves hm.2
      · rename_i hm
        cases how with
        | fails => exact absurd rfl hhow
        | inPlace =>
          rw [hin rfl] at hblock
          exact ⟨_, hblock, Nat.le_of_eq (length_resize b n).symm, Nat.le_of_eq (length_resize b n).symm⟩
        | moves => exact absurd ⟨hlt, rfl⟩ hm
  · rename_i hle
    refine .inr ⟨r, rfl, ?_⟩
    rw [if_neg fun h => hle h.1]
    exact ⟨b, hb, Nat.le_trans (Nat.le_of_not_lt hle) hlen, hlen⟩

theorem copy_dead {t : Reader} (ht : t.heap.block t.data = none) (msg : NngMsg) (n : Nat) :
    t.copy msg n = none := by
  rw [copy]
  split
  · rw [Heap.store_dead ht]
    rfl
  · rfl

theorem readGrowing_ends_iff (hr : r.Valid) (passed : Bool) (recv : Recvmsg) (how : Allocation) :
    r.Ends (.growing passed recv how) (readGrowing r passed recv how) ↔
      Sound .async r (.growing passed recv how) := by
  by_cases hcall : passed = true ∧ recv.ret = 0
  · obtain ⟨hpassed, hret⟩ := hcall
    obtain ⟨msg, hmsg⟩ := recv.exists_msg hret
    have hsound : Sound .async r (.growing passed recv how) ↔
        (r.len < msg.body.length → how ≠ .moves) := by
      rw [Sound, hmsg]
      simp [hpassed, hret]
    rw [hsound, readGrowing, hpassed, if_neg (by decide), if_neg (recv.ret_ne_again hret),
      if_neg (not_not.mpr hret), hmsg]
    dsimp only
    obtain ⟨hfails, he⟩ | ⟨t, he, ht⟩ := ensure_cases hr msg.body.length how
    · rw [he]
      refine iff_of_true (ends_failed hr _) fun _ hmoves => ?_
      rw [hfails] at hmoves
      cases hmoves
    · rw [he, Option.bind_eq_bind, Option.bind_some]
      dsimp only
      split at ht
      · rename_i hm
        -- it is longer than nothing, so that it has a body to be copied
        have hbody := msg.hasBody_of_ne (List.ne_nil_of_length_pos (Nat.zero_lt_of_lt hm.1))
        rw [hbody, copy_dead ht]
        refine iff_of_false ?_ fun h => h hm.1 hm.2
        rintro ⟨answer, t', h, -⟩
        cases h
      · rename_i hm
        obtain ⟨b, hb, hle, hlen⟩ := ht
        refine iff_of_true ?_ fun hlt hmoves => hm ⟨hlt, hmoves⟩
        split
        · have ht : t.Valid := ⟨b, hb, hlen⟩
          exact ends_failed (ht.setError _ _) _
        · exact ends_copy_growing hb hle hlen hmsg true how
  · refine iff_of_true ?_ fun hpassed hret => absurd ⟨hpassed, hret⟩ hcall
    rw [readGrowing]
    split
    · exact ends_failed (hr.setError _ _) _
    · rename_i hpassed
      split
      · exact ends_failed hr _
      · rw [if_pos]
        · exact ends_failed (hr.setError _ _) _
        · exact fun hret => hcall ⟨by simpa using hpassed, hret⟩

end AsyncNngConnector

namespace Reader

theorem honoured_iff {r : Reader} (hr : r.Valid) (kind : NngConnector) (c : ReadCall) :
    r.Honoured kind c ↔ r.Sound kind c := by
  cases kind with
  | blocking =>
    refine iff_of_true ?_ trivial
    cases c with
    | fixed recv => exact BlockingNngConnector.read_ends hr recv
    | growing passed recv how => exact BlockingNngConnector.readGrowing_ends hr passed recv how
  | async =>
    cases c with
    | fixed recv => exact AsyncNngConnector.read_ends_iff hr recv
    | growing passed recv how => exact AsyncNngConnector.readGrowing_ends_iff hr passed recv how

/-- Whatever messages come and whatever becomes of the requests for memory: the reads of a blocking
connector keep what they promise, and those of an asynchronous one exactly as long as no message is
shorter than a fixed buffer and no growing buffer is moved. -/
theorem reads_honoured_iff (kind : NngConnector) {r : Reader} (hr : r.Valid)
    (calls : List ReadCall) :
    (Each (step kind) (Honoured kind) r calls ↔ Each (step kind) (Sound kind) r calls) ∧
      (Each (step kind) (Sound kind) r calls →
        ∃ o, run (step kind) r calls = some o ∧ o.2.Valid) := by
  refine ⟨?_, ?_⟩
  · refine Each.congr_of_kept (P := Valid) ?_ (fun r c hr => honoured_iff hr kind c) hr calls
    rintro r c o - ⟨answer, t, ho', ht, -⟩ ho
    rw [ho'] at ho
    cases ho
    exact ht
  · refine Each.run_isSome (P := Valid) ?_ hr
    intro r c hr hc
    obtain ⟨answer, t, ho, ht, -⟩ := (honoured_iff hr kind c).mpr hc
    exact ⟨(answer, t), ho, ht⟩

def message (body behind : List UInt8) : Recvmsg :=
  ⟨0, some ⟨body, behind, true, fun _ => rfl⟩, fun _ => rfl⟩

/-- A message that fills the buffer, one that makes it grow in its place, and a short one. -/
theorem reads_honoured_iff_growing :
    let r : Reader := { heap := ⟨[some [0, 0]]⟩, data := some 0, len := 2 }
    let calls : List ReadCall := [.fixed (message [7, 8] []),
      .growing true (message [1, 2, 3] []) .inPlace,
      .growing true (message [4] [0]) .moves]
    r.Valid ∧
      ((Each (step .async) (Honoured .async) r calls ↔ Each (step .async) (Sound .async) r calls) ∧
        (Each (step .async) (Sound .async) r calls →
          ∃ o, run (step .async) r calls = some o ∧ o.2.Valid)) ∧
      Each (step .async) (Sound .async) r calls :=
  ⟨⟨_, rfl, by decide⟩, reads_honoured_iff .async ⟨_, rfl, by decide⟩ _, by decide⟩

/-- A growing buffer that moves is written where it was, and a fixed one is filled with what lies
behind a short message. -/
theorem moved_buffer_not_honoured :
    let r : Reader := { heap := ⟨[some [0, 0]]⟩, data := some 0, len := 2 }
    r.Valid ∧ ¬r.Honoured .async (.growing true (message [1, 2, 3] []) .moves) ∧
      ¬r.Honoured .async (.fixed (message [1] [9])) := by
  intro r
  have hr : r.Valid := ⟨_, rfl, by decide⟩
  refine ⟨hr, ?_, ?_⟩
  · rw [honoured_iff hr]
    decide
  · rw [honoured_iff hr]
    decide

end Reader

end Open3DStream
