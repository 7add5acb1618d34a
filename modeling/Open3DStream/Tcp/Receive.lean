import Mathlib.Data.List.Pairwise
import Open3DStream.Lib.Buffer

/-! Calls that receive until they have all of what they are to receive. -/

namespace Open3DStream

open Lib

/-- What a call of the platform's `recv` does: it finds some bytes, of which it takes no more than
are asked for, or fails. No bytes are the end of the connection. -/
inductive RecvOutcome where
  | bytes (k : Nat)
  | wouldBlock
  | fails
deriving DecidableEq

/-- How a call ends: it returns, throws, goes out of bounds, or is still waiting. -/
inductive Ended (δ : Type) where
  | returns (x : δ)
  | throws (text : String)
  | undefined
  | waits
deriving DecidableEq

/-- A socket that is received from: the bytes on their way, and what the next calls of `recv`
do. -/
structure TcpInput where
  stream : List UInt8
  recvs : List RecvOutcome
deriving DecidableEq

namespace TcpInput

/-- `Receive(buf + start, len, &recd)`. What would block leaves `recd` as it is. -/
def ReceiveRecd (s : TcpInput) (buf : List UInt8) (start len recd : Nat) :
    Ended (List UInt8 × Nat × TcpInput) :=
  match s.recvs with
  | [] => .waits
  | .fails :: _ => .throws "Reading"
  | .wouldBlock :: recvs => .returns (buf, recd, ⟨s.stream, recvs⟩)
  | .bytes k :: recvs =>
    let found := s.stream.take (min k len)
    if found.length = 0 then .throws "Connection Closed"
    else if buf.length < start + found.length then .undefined
    else .returns (overwrite buf start found, found.length, ⟨s.stream.drop (min k len), recvs⟩)

/-- The loop of `Receive(buf, len)`; each turn takes one of the `n` calls of `recv` left. -/
def receiveLoop (len : Int) : Nat → TcpInput → List UInt8 → Nat → Nat →
    Ended (List UInt8 × TcpInput)
  | 0, s, buf, count, _ => if count < len then .waits else .returns (buf, s)
  | n + 1, s, buf, count, recd =>
    if count < len then
      match s.ReceiveRecd buf count (len - count).toNat recd with
      | .returns (buf, recd, s) =>
        -- `count` is an int
        if 2147483647 < count + recd then .undefined
        else receiveLoop len n s buf (count + recd) recd
      | .throws text => .throws text
      | .undefined => .undefined
      | .waits => .waits
    else .returns (buf, s)

def Receive (s : TcpInput) (buf : List UInt8) (len : Int) : Ended (List UInt8 × TcpInput) :=
  receiveLoop len s.recvs.length s buf 0 0

/-- The loop of `ReceiveToToken`, with the character it has and the number it has stored. -/
def tokenLoop (len : Int) (token : UInt8) (bytesRead : Bool) : Nat → TcpInput → List UInt8 → UInt8 →
    Nat → Nat → Ended (Nat × List UInt8 × TcpInput)
  | 0, _, _, _, _, _ => .waits
  | n + 1, s, data, c, stored, bytesRecv =>
    match s.ReceiveRecd [c] 0 1 bytesRecv with
    | .returns (chars, bytesRecv, s) =>
      let c := chars.headD c
      if 0 < bytesRecv then
        if data.length ≤ stored then .undefined
        else
          let data := data.set stored c
          let stored := stored + 1
          if stored = len then .throws "Overflow while receiving token"
          else if c = token then if bytesRead then .returns (stored, data, s) else .undefined
          else tokenLoop len token bytesRead n s data c stored bytesRecv
      else tokenLoop len token bytesRead n s data c stored bytesRecv
    | .throws text => .throws text
    | .undefined => .undefined
    | .waits => .waits

/-- It returns true whenever it returns: `bytesRecv` is not negative. `bytesRead` says that the
caller passes a place for the number. -/
def ReceiveToToken (s : TcpInput) (data : List UInt8) (len : Int) (token : UInt8)
    (bytesRead : Bool) : Ended (Nat × List UInt8 × TcpInput) :=
  if len = 0 then .throws "Invalid data length while receiving token"
  else tokenLoop len token bytesRead s.recvs.length s data 0 0 0

/-- No call would block after one that has found bytes. -/
def Steady (recvs : List RecvOutcome) : Prop :=
  recvs.Pairwise fun o o' => o ≠ .wouldBlock → o' ≠ .wouldBlock

instance (recvs : List RecvOutcome) : Decidable (Steady recvs) :=
  inferInstanceAs (Decidable (recvs.Pairwise _))

/-! ### One call of `recv` -/

theorem ReceiveRecd_cases {s t : TcpInput} {buf buf' : List UInt8} {start len recd recd' : Nat}
    (h : s.ReceiveRecd buf start len recd = .returns (buf', recd', t)) :
    (s.recvs = .wouldBlock :: t.recvs ∧ t.stream = s.stream ∧ buf' = buf ∧ recd' = recd) ∨
    ∃ k w, s.recvs = .bytes k :: t.recvs ∧ s.stream = w ++ t.stream ∧ 0 < w.length ∧
      w.length ≤ len ∧ start + w.length ≤ buf.length ∧ buf' = overwrite buf start w ∧
      recd' = w.length := by
  obtain ⟨stream, recvs⟩ := s
  cases recvs with
  | nil => cases h
  | cons o recvs =>
    cases o with
    | fails => cases h
    | wouldBlock =>
      cases h
      exact .inl ⟨rfl, rfl, rfl, rfl⟩
    | bytes k =>
      rw [ReceiveRecd] at h
      dsimp only at h
      split at h
      · cases h
      · rename_i hpos
        split at h
        · cases h
        · rename_i hroom
          cases h
          have hle : (stream.take (min k len)).length ≤ len :=
            Nat.le_trans (List.length_take_le _ _) (Nat.min_le_right k len)
          exact .inr ⟨k, stream.take (min k len), rfl, (List.take_append_drop _ stream).symm,
            Nat.pos_of_ne_zero hpos, hle, Nat.le_of_not_lt hroom, rfl, rfl⟩

theorem steady_concat_iff {recvs : List RecvOutcome} {o : RecvOutcome} :
    Steady (recvs ++ [o]) ↔
      Steady recvs ∧ ∀ o' ∈ recvs, o' ≠ .wouldBlock → o ≠ .wouldBlock := by
  rw [Steady, List.pairwise_append]
  simp [Steady]

theorem steady_of_idle {recvs : List RecvOutcome} (h : ∀ o ∈ recvs, o = .wouldBlock) :
    Steady recvs :=
  List.pairwise_of_forall_mem_list fun o ho _ _ hne => absurd (h o ho) hne

theorem steady_bytes {recvs : List RecvOutcome} {k : Nat} (h : Steady recvs) :
    Steady (recvs ++ [.bytes k]) :=
  steady_concat_iff.mpr ⟨h, fun _ _ _ hk => by cases hk⟩

/-! ### How far a call has come -/

/-- It has found nothing yet; or it has stored just what it found; or it has counted a result
that found nothing. -/
inductive Phase (stream buf : List UInt8) :
    List RecvOutcome → List UInt8 → List UInt8 → Nat → Nat → Prop
  | idle {used : List RecvOutcome} (hused : ∀ o ∈ used, o = .wouldBlock) :
      Phase stream buf used stream buf 0 0
  | exact {used : List RecvOutcome} {rest w : List UInt8} {recd : Nat} (hused : Steady used)
      (hbytes : ∃ o ∈ used, o ≠ .wouldBlock) (hstream : stream = w ++ rest) (hrecd : 0 < recd)
      (hroom : w.length ≤ buf.length) : Phase stream buf used rest (overwrite buf 0 w) w.length recd
  | lost {used : List RecvOutcome} {rest w buf' : List UInt8} {count recd : Nat}
      (hused : ¬Steady used) (hstream : stream = w ++ rest) (hcount : w.length < count) :
      Phase stream buf used rest buf' count recd

namespace Phase

variable {stream buf rest buf' : List UInt8} {used : List RecvOutcome} {count recd : Nat}

/-- A result that finds nothing is counted as often as the last one that found bytes. -/
theorem block (h : Phase stream buf used rest buf' count recd) {buf'' : List UInt8}
    (hbuf : recd = 0 → buf'' = buf') :
    Phase stream buf (used ++ [.wouldBlock]) rest buf'' (count + recd) recd := by
  cases h with
  | idle hused =>
    rw [hbuf rfl]
    refine .idle ?_
    simpa [or_imp, forall_and] using hused
  | exact hused hbytes hstream hrecd hroom =>
    obtain ⟨o, ho, hne⟩ := hbytes
    refine .lost ?_ hstream (Nat.lt_add_of_pos_right hrecd)
    rw [steady_concat_iff]
    exact fun hs => hs.2 o ho hne rfl
  | lost hused hstream hcount =>
    refine .lost ?_ hstream (Nat.lt_add_right recd hcount)
    rw [steady_concat_iff]
    exact fun hs => hused hs.1

theorem found {w : List UInt8} (h : Phase stream buf used (w ++ rest) buf' count recd)
    (hpos : 0 < w.length) (hroom : count + w.length ≤ buf'.length) (k : Nat) :
    Phase stream buf (used ++ [.bytes k]) rest (overwrite buf' count w) (count + w.length)
      w.length := by
  have hbytes : ∃ o ∈ used ++ [.bytes k], o ≠ .wouldBlock :=
    ⟨.bytes k, List.mem_append_right _ (List.mem_singleton_self _), fun h => by cases h⟩
  cases h with
  | idle hused =>
    rw [Nat.zero_add] at hroom ⊢
    exact .exact (steady_bytes (steady_of_idle hused)) hbytes rfl hpos hroom
  | exact hused hb hstream hrecd hr =>
    rename_i w₀
    rw [overwrite_append, ← List.length_append]
    rw [length_overwrite (by omega), ← List.length_append] at hroom
    exact .exact (steady_bytes hused) hbytes (by rw [hstream, List.append_assoc]) hpos hroom
  | lost hused hstream hcount =>
    rename_i w₀
    refine .lost (w := w₀ ++ w) ?_ (by rw [hstream, List.append_assoc]) ?_
    · rw [steady_concat_iff]
      exact fun hs => hused hs.1
    · rw [List.length_append]
      omega

theorem not_steady_block (h : Phase stream buf used rest buf' count recd) (hrecd : 0 < recd) :
    ¬Steady (used ++ [.wouldBlock]) := by
  rw [steady_concat_iff]
  rintro ⟨hs, hblock⟩
  cases h with
  | idle hused => exact absurd hrecd (Nat.lt_irrefl 0)
  | exact hused hbytes hstream hr hroom =>
    obtain ⟨o, ho, hne⟩ := hbytes
    exact hblock o ho hne rfl
  | lost hused hstream hcount => exact hused hs

theorem split (h : Phase stream buf used rest buf' count recd) : ∃ w, stream = w ++ rest := by
  cases h with
  | idle hused => exact ⟨[], rfl⟩
  | exact hused hbytes hstream hrecd hroom => exact ⟨_, hstream⟩
  | lost hused hstream hcount => exact ⟨_, hstream⟩

/-- No more is found than is counted. -/
theorem length_le (h : Phase stream buf used rest buf' count recd) :
    stream.length ≤ rest.length + count := by
  cases h with
  | idle hused => exact Nat.le_refl _
  | exact hused hbytes hstream hrecd hroom =>
    rw [hstream, List.length_append]
    omega
  | lost hused hstream hcount =>
    rw [hstream, List.length_append]
    omega

end Phase

/-! ### Exactly so many bytes -/

/-- The call has stored the next `n` bytes, and left the others on their way. -/
def TakesNext (stream buf : List UInt8) (n : Nat) (buf' rest : List UInt8) : Prop :=
  ∃ w, w.length = n ∧ stream = w ++ rest ∧ buf' = overwrite buf 0 w

/-- Where the loop of `Receive` leaves a call: no more is found than was asked for, and less where
something is counted that was not found. -/
theorem receiveLoop_phase {stream buf buf₁ buf' : List UInt8} {used : List RecvOutcome}
    {len : Int} {n count recd : Nat} {s t : TcpInput}
    (hp : Phase stream buf used s.stream buf₁ count recd)
    (hlen : stream.length ≤ s.stream.length + len.toNat)
    (hlost : stream.length < s.stream.length + count → stream.length < s.stream.length + len.toNat)
    (h : receiveLoop len n s buf₁ count recd = .returns (buf', t)) :
    ∃ (used' : List RecvOutcome) (count' recd' : Nat), s.recvs = used' ++ t.recvs ∧ len ≤ count' ∧
      Phase stream buf (used ++ used') t.stream buf' count' recd' ∧
      stream.length ≤ t.stream.length + len.toNat ∧
      (stream.length < t.stream.length + count' → stream.length < t.stream.length + len.toNat) := by
  induction n generalizing s used buf₁ count recd with
  | zero =>
    rw [receiveLoop] at h
    split at h
    · cases h
    · rename_i hdone
      cases h
      exact ⟨[], count, recd, rfl, Int.not_lt.mp hdone, by rwa [List.append_nil], hlen, hlost⟩
  | succ n ih =>
    rw [receiveLoop] at h
    split at h
    · rename_i hmore
      cases hr : s.ReceiveRecd buf₁ count (len - count).toNat recd with
      | returns r =>
        obtain ⟨buf₂, recd', u⟩ := r
        rw [hr] at h
        dsimp only at h
        split at h
        · cases h
        · have hcount := hp.length_le
          obtain ⟨hrecvs, hstream, rfl, rfl⟩ | ⟨k, w, hrecvs, hstream, hpos, hle, hroom, rfl, rfl⟩ :=
            ReceiveRecd_cases hr
          · have hp' := hp.block fun _ => rfl
            rw [← hstream] at hp' hlen hlost hcount
            obtain ⟨used', count', recd'', hu, hge, hp'', hends⟩ := ih hp' hlen (by omega) h
            refine ⟨.wouldBlock :: used', count', recd'', by rw [hrecvs, hu]; rfl, hge, ?_, hends⟩
            rwa [List.append_assoc] at hp''
          · rw [hstream] at hp hlen hlost hcount
            rw [List.length_append] at hlen hlost hcount
            obtain ⟨used', count', recd'', hu, hge, hp'', hends⟩ :=
              ih (hp.found hpos hroom k) (by omega) (by omega) h
            refine ⟨.bytes k :: used', count', recd'', by rw [hrecvs, hu]; rfl, hge, ?_, hends⟩
            rwa [List.append_assoc] at hp''
      | throws _ | undefined | waits =>
        rw [hr] at h
        cases h
    · rename_i hdone
      cases h
      exact ⟨[], count, recd, rfl, Int.not_lt.mp hdone, by rwa [List.append_nil], hlen, hlost⟩

theorem Receive_takesNext_iff {s t : TcpInput} {buf buf' : List UInt8} {len : Int}
    (h : s.Receive buf len = .returns (buf', t)) :
    ∃ used, s.recvs = used ++ t.recvs ∧
      (TakesNext s.stream buf len.toNat buf' t.stream ↔ Steady used) := by
  have hstart : Phase s.stream buf [] s.stream buf 0 0 := .idle fun o ho => absurd ho List.not_mem_nil
  obtain ⟨used, count, recd, hused, hge, hp, hlen, hlost⟩ :=
    receiveLoop_phase hstart (Nat.le_add_right _ _) (fun h => absurd h (by omega)) h
  rw [List.nil_append] at hp
  refine ⟨used, hused, ?_⟩
  generalize t.stream = rest at hp hlen hlost ⊢
  generalize s.stream = stream at hp hlen hlost ⊢
  cases hp with
  | idle hidle =>
    have hzero : len.toNat = 0 := by omega
    rw [hzero]
    exact iff_of_true ⟨[], rfl, rfl, (overwrite_nil buf 0).symm⟩ (steady_of_idle hidle)
  | exact hsteady hbytes hstream hrecd hroom =>
    rename_i w
    rw [hstream, List.length_append] at hlen
    exact iff_of_true ⟨w, by omega, hstream, rfl⟩ hsteady
  | lost hsteady hstream hcount =>
    refine iff_of_false ?_ hsteady
    rintro ⟨w', hw', hstream', -⟩
    have hshort := hlost (by rw [hstream, List.length_append]; omega)
    rw [hstream', List.length_append] at hshort
    omega

/-- A call for bytes that are there, with room for them, returns when every result of `recv`
finds some. -/
theorem receiveLoop_returns {len : Int} {n count recd : Nat} {s : TcpInput} {buf : List UInt8}
    (hn : len ≤ count + n) (hrecvs : n ≤ s.recvs.length)
    (hfound : ∀ o ∈ s.recvs, ∃ k, 0 < k ∧ o = .bytes k) (hstream : len ≤ count + s.stream.length)
    (hroom : len ≤ buf.length) (hmax : len ≤ 2147483647) :
    ∃ r, receiveLoop len n s buf count recd = .returns r := by
  induction n generalizing s buf count recd with
  | zero =>
    rw [receiveLoop, if_neg (by omega)]
    exact ⟨_, rfl⟩
  | succ n ih =>
    rw [receiveLoop]
    split
    · rename_i hmore
      obtain ⟨stream, recvs⟩ := s
      cases recvs with
      | nil => exact absurd hrecvs (Nat.not_succ_le_zero n)
      | cons o recvs =>
        obtain ⟨⟨k, hk, rfl⟩, hrest⟩ := List.forall_mem_cons.mp hfound
        dsimp only at hstream
        have hlen : (stream.take (min k (len - count).toNat)).length =
            min (min k (len - count).toNat) stream.length := List.length_take
        have hafter : (overwrite buf count (stream.take (min k (len - count).toNat))).length =
            buf.length := length_overwrite (by omega)
        have hleft : (stream.drop (min k (len - count).toNat)).length =
            stream.length - min k (len - count).toNat := List.length_drop
        rw [List.length_cons] at hrecvs
        rw [ReceiveRecd]
        dsimp only
        rw [if_neg (by omega), if_neg (by omega)]
        dsimp only
        rw [if_neg (by omega)]
        exact ih (by omega) (by dsimp only; omega) hrest (by dsimp only; omega) (by omega)
    · exact ⟨_, rfl⟩

theorem Receive_returns {s : TcpInput} {buf : List UInt8} {len : Int}
    (hfound : ∀ o ∈ s.recvs, ∃ k, 0 < k ∧ o = .bytes k) (hrecvs : len ≤ s.recvs.length)
    (hstream : len ≤ s.stream.length) (hroom : len ≤ buf.length) (hmax : len ≤ 2147483647) :
    ∃ r, s.Receive buf len = .returns r :=
  receiveLoop_returns (by omega) (Nat.le_refl _) hfound (by omega) hroom hmax

/-! ### Up to a token -/

/-- The call has stored the next bytes up to the first token, and says how many these are. -/
def TakesToken (stream buf : List UInt8) (token : UInt8) (n : Nat) (buf' rest : List UInt8) : Prop :=
  ∃ u, token ∉ u ∧ n = (u ++ [token]).length ∧ stream = u ++ [token] ++ rest ∧
    buf' = overwrite buf 0 (u ++ [token])

/-- What one character brings: none yet, one that was found, or one that is stored again. -/
theorem Phase.char {stream buf data : List UInt8} {used : List RecvOutcome} {stored recd recd' : Nat}
    {s t : TcpInput} {c : UInt8} {chars : List UInt8}
    (hp : Phase stream buf used s.stream data stored recd) (hrecd : recd ≤ 1)
    (hr : s.ReceiveRecd [c] 0 1 recd = .returns (chars, recd', t)) :
    ∃ o, s.recvs = o :: t.recvs ∧
      ((recd' = 0 ∧ t.stream = s.stream ∧ Phase stream buf (used ++ [o]) t.stream data stored 0) ∨
      (recd' = 1 ∧ (stored < data.length →
        Phase stream buf (used ++ [o]) t.stream (data.set stored (chars.headD c)) (stored + 1) 1) ∧
        (s.stream = chars.headD c :: t.stream ∨
          t.stream = s.stream ∧ ¬Steady (used ++ [o])))) := by
  obtain ⟨hrecvs, hstream, rfl, rfl⟩ | ⟨k, w, hrecvs, hstream, hpos, hle, -, rfl, rfl⟩ :=
    ReceiveRecd_cases hr
  · refine ⟨.wouldBlock, hrecvs, ?_⟩
    rw [hstream]
    obtain rfl | rfl : recd' = 0 ∨ recd' = 1 := by omega
    · exact .inl ⟨rfl, rfl, hp.block fun _ => rfl⟩
    · exact .inr ⟨rfl, fun _ => hp.block fun h => absurd h Nat.one_ne_zero,
        .inr ⟨rfl, hp.not_steady_block Nat.one_pos⟩⟩
  · obtain ⟨x, rfl⟩ := List.length_eq_one_iff.mp (Nat.le_antisymm hle hpos)
    refine ⟨.bytes k, hrecvs, .inr ⟨rfl, fun hroom => ?_, .inl hstream⟩⟩
    rw [hstream] at hp
    rw [← overwrite_singleton hroom]
    exact hp.found hpos hroom k

theorem tokenLoop_phase {stream buf data data' : List UInt8} {used : List RecvOutcome} {len : Int}
    {token c : UInt8} {bytesRead : Bool} {n stored recd k : Nat} {s t : TcpInput}
    (hp : Phase stream buf used s.stream data stored recd) (hrecd : recd ≤ 1)
    (htoken : ∀ w, stream = w ++ s.stream → token ∉ w)
    (h : tokenLoop len token bytesRead n s data c stored recd = .returns (k, data', t)) :
    ∃ used' recd', s.recvs = used' ++ t.recvs ∧
      Phase stream buf (used ++ used') t.stream data' k recd' ∧
      (Steady (used ++ used') → ∃ u, stream = u ++ [token] ++ t.stream ∧ token ∉ u) := by
  induction n generalizing s used data c stored recd with
  | zero => cases h
  | succ n ih =>
    rw [tokenLoop] at h
    cases hr : s.ReceiveRecd [c] 0 1 recd with
    | returns r =>
      obtain ⟨chars, recd', u⟩ := r
      rw [hr] at h
      dsimp only at h
      obtain ⟨o, hrecvs, ⟨rfl, hstream, hp'⟩ | ⟨rfl, hp', hchar⟩⟩ := hp.char hrecd hr
      · rw [if_neg (Nat.lt_irrefl 0)] at h
        obtain ⟨used', r, hu, hp'', hfirst⟩ :=
          ih hp' (Nat.zero_le 1) (by rwa [hstream]) h
        rw [List.append_assoc] at hp'' hfirst
        exact ⟨o :: used', r, by rw [hrecvs, hu]; rfl, hp'', hfirst⟩
      · rw [if_pos Nat.one_pos] at h
        obtain ⟨w, hw⟩ := hp.split
        split at h
        · cases h
        · rename_i hroom
          have hp' := hp' (Nat.lt_of_not_le hroom)
          split at h
          · cases h
          · split at h
            · rename_i htok
              split at h
              · cases h
                refine ⟨[o], 1, hrecvs, hp', fun hs => ⟨w, ?_, htoken w hw⟩⟩
                obtain hchar | ⟨-, hnot⟩ := hchar
                · rw [hw, hchar, htok, List.append_assoc]
                  rfl
                · exact absurd hs hnot
              · cases h
            · rename_i hother
              have htoken' : ∀ w', stream = w' ++ u.stream → token ∉ w' := by
                intro w' hw'
                obtain hchar | ⟨hchar, -⟩ := hchar
                · rw [hw, hchar, List.append_cons] at hw'
                  rw [← List.append_cancel_right hw', List.mem_append, List.mem_singleton]
                  rintro (hmem | heq)
                  · exact htoken w hw hmem
                  · exact hother heq.symm
                · exact htoken w' (hchar ▸ hw')
              obtain ⟨used', r, hu, hp'', hfirst⟩ := ih hp' (Nat.le_refl 1) htoken' h
              rw [List.append_assoc] at hp'' hfirst
              exact ⟨o :: used', r, by rw [hrecvs, hu]; rfl, hp'', hfirst⟩
    | throws _ | undefined | waits =>
      rw [hr] at h
      cases h

theorem ReceiveToToken_takesToken_iff {s t : TcpInput} {data data' : List UInt8} {len : Int}
    {token : UInt8} {bytesRead : Bool} {n : Nat}
    (h : s.ReceiveToToken data len token bytesRead = .returns (n, data', t)) :
    ∃ used, s.recvs = used ++ t.recvs ∧
      (TakesToken s.stream data token n data' t.stream ↔ Steady used) := by
  have hstart : Phase s.stream data [] s.stream data 0 0 :=
    .idle fun o ho => absurd ho List.not_mem_nil
  have hnone : ∀ w, s.stream = w ++ s.stream → token ∉ w := by
    intro w hw
    rw [List.self_eq_append_left.mp hw]
    exact List.not_mem_nil
  rw [ReceiveToToken] at h
  split at h
  · cases h
  · obtain ⟨used, recd, hused, hp, hfirst⟩ := tokenLoop_phase hstart (Nat.zero_le 1) hnone h
    rw [List.nil_append] at hp hfirst
    refine ⟨used, hused, ?_⟩
    generalize t.stream = rest at hp hfirst ⊢
    generalize s.stream = stream at hp hfirst ⊢
    cases hp with
    | idle hidle =>
      obtain ⟨u, hu, -⟩ := hfirst (steady_of_idle hidle)
      have hlen := congrArg List.length hu
      simp only [List.length_append, List.length_singleton] at hlen
      omega
    | exact hsteady hbytes hstream hrecd hroom =>
      obtain ⟨u, hu, hnot⟩ := hfirst hsteady
      obtain rfl := List.append_cancel_right (hstream.symm.trans hu)
      exact iff_of_true ⟨u, hnot, rfl, hu, rfl⟩ hsteady
    | lost hsteady hstream hcount =>
      refine iff_of_false ?_ hsteady
      rintro ⟨u, -, rfl, hu, -⟩
      obtain rfl := List.append_cancel_right (hstream.symm.trans hu)
      exact absurd hcount (Nat.lt_irrefl _)

/-! ### Both calls -/

/-- Whatever the calls of `recv` do, what a call that returns has stored is what came next on the
connection exactly when none of the calls it made would block after one that had found bytes. -/
theorem takesNext_iff_steady (s : TcpInput) (buf : List UInt8) :
    (∀ len buf' t, s.Receive buf len = .returns (buf', t) →
      ∃ used, s.recvs = used ++ t.recvs ∧
        (TakesNext s.stream buf len.toNat buf' t.stream ↔ Steady used)) ∧
    (∀ len token bytesRead n buf' t,
      s.ReceiveToToken buf len token bytesRead = .returns (n, buf', t) →
      ∃ used, s.recvs = used ++ t.recvs ∧
        (TakesToken s.stream buf token n buf' t.stream ↔ Steady used)) :=
  ⟨fun _ _ _ h => Receive_takesNext_iff h, fun _ _ _ _ _ _ h => ReceiveToToken_takesToken_iff h⟩

/-- Two bytes found by two calls, with one between them that would block: the call returns with
one of its bytes not received. -/
theorem blocked_byte_skipped :
    let s : TcpInput := ⟨[7, 8], [.bytes 1, .wouldBlock, .bytes 1]⟩
    s.Receive [0, 0] 2 = .returns ([7, 0], ⟨[8], [.bytes 1]⟩) ∧
      ¬TakesNext s.stream [0, 0] 2 [7, 0] [8] := by
  refine ⟨by decide, ?_⟩
  rintro ⟨w, hw, hstream, -⟩
  have hlen := congrArg List.length hstream
  rw [List.length_append, hw] at hlen
  exact absurd hlen (by decide)

end TcpInput

end Open3DStream
