import Open3DStream.Nng.Handles

/-! Which of the handles are lost. -/

namespace Open3DStream.AsyncHandles

open Lib Nng

variable {s : AsyncHandles} {hs : List (Nat × Resource)} {l a : Nat}

/-! ### What is held -/

/-- The handles designate what is held, and a dialer is held no longer than its socket. -/
structure Account (log : List (Dealing Resource Usage)) (mSocket mDialer aio : Option Nat)
    (hs : List (Nat × Resource)) : Prop where
  balanced : Balanced log hs
  socket : ∀ k ∈ mSocket, (k, .socket) ∈ hs
  dialer : ∀ d ∈ mDialer, ∃ k url, .acquired d (.dialer k url) ∈ log
  aio : ∀ k ∈ aio, (k, .aio) ∈ hs
  dialers : ∀ d k url, (d, .dialer k url) ∈ hs → (k, .socket) ∈ hs
  kinds : ∀ x ∈ hs, x.2 ≠ .message ∧ x.2 ≠ .tls_config

/-- So many sockets are lost, and so many aios are there. -/
def Owes (s : AsyncHandles) (l a : Nat) : Prop :=
  ∃ hs, Account s.dealings s.mSocket s.mDialer s.aio hs ∧
    amount .socket hs = l + s.mSocket.isSome.toNat ∧ amount .aio hs = a

/-- What is acquired stays in the log. -/
theorem Account.of_balanced {log log' : List (Dealing Resource Usage)}
    {mSocket mDialer aio : Option Nat} (h : Account log mSocket mDialer aio hs)
    (hbalanced : Balanced log' hs) (hlog : ∀ w ∈ log, w ∈ log') :
    Account log' mSocket mDialer aio hs := by
  refine ⟨hbalanced, h.socket, ?_, h.aio, h.dialers, h.kinds⟩
  intro d hd
  obtain ⟨k, url, hacquired⟩ := h.dialer d hd
  exact ⟨k, url, hlog _ hacquired⟩

theorem balanced_use {log : List (Dealing Resource Usage)} (h : Balanced log hs) {k : Option Nat}
    (hk : ∀ j ∈ k, j ∈ hs.map Prod.fst) (u : Usage) :
    Balanced (log ++ k.toList.map (.used · u)) hs := by
  cases k with
  | none => simpa using h
  | some j => exact h.use (hk j rfl) u

theorem Account.use (h : Account s.dealings s.mSocket s.mDialer s.aio hs) {k : Option Nat}
    (hk : ∀ j ∈ k, j ∈ hs.map Prod.fst) (u : Usage) :
    Account (s.use k u).dealings s.mSocket s.mDialer s.aio hs :=
  h.of_balanced (balanced_use h.balanced hk u) fun _ hw => List.mem_append_left _ hw

theorem Owes.useSocket (h : Owes s l a) (u : Usage) : Owes (s.use s.mSocket u) l a := by
  obtain ⟨hs, haccount, hamounts⟩ := h
  exact ⟨hs, haccount.use (fun k hk => List.mem_map_of_mem (haccount.socket k hk)) u, hamounts⟩

theorem Owes.useAio (h : Owes s l a) (u : Usage) : Owes (s.use s.aio u) l a := by
  obtain ⟨hs, haccount, hamounts⟩ := h
  exact ⟨hs, haccount.use (fun k hk => List.mem_map_of_mem (haccount.aio k hk)) u, hamounts⟩

/-- The dialer has not been closed yet. -/
def Dialable (s : AsyncHandles) : Prop := ∀ d ∈ s.mDialer, d ∈ held s.dealings

theorem Owes.useDialer (h : Owes s l a) (hd : Dialable s) (u : Usage) :
    Owes (s.use s.mDialer u) l a := by
  obtain ⟨hs, haccount, hamounts⟩ := h
  refine ⟨hs, haccount.use (fun d hmem => ?_) u, hamounts⟩
  have hheld := hd d hmem
  rwa [held, haccount.balanced.holdings] at hheld

theorem Account.acquire (h : Account s.dealings s.mSocket s.mDialer s.aio hs) {r : Resource}
    (hr : r ≠ .message ∧ r ≠ .tls_config) (hd : ∀ k url, r = .dialer k url → (k, .socket) ∈ hs) :
    Account (s.acquire r).dealings s.mSocket s.mDialer s.aio (hs ++ [(s.dealings.length, r)]) := by
  refine ⟨h.balanced.acquire r, ?_, ?_, ?_, ?_, ?_⟩
  · exact fun k hk => List.mem_append_left _ (h.socket k hk)
  · intro d hd
    obtain ⟨k, url, hacquired⟩ := h.dialer d hd
    exact ⟨k, url, List.mem_append_left _ hacquired⟩
  · exact fun k hk => List.mem_append_left _ (h.aio k hk)
  · intro d k url hmem
    obtain hmem | hmem := List.mem_append.mp hmem
    · exact List.mem_append_left _ (h.dialers d k url hmem)
    · cases List.mem_singleton.mp hmem
      exact List.mem_append_left _ (hd k url rfl)
  · intro x hx
    obtain hx | hx := List.mem_append.mp hx
    · exact h.kinds x hx
    · cases List.mem_singleton.mp hx
      exact hr

theorem Owes.opened (h : Owes s l a) : Owes s.opened (l + s.mSocket.isSome.toNat) a := by
  obtain ⟨hs, haccount, hsockets, haios⟩ := h
  refine ⟨hs ++ [(s.dealings.length, .socket)], ?_, ?_, ?_⟩
  · refine { haccount.acquire (r := .socket) (by decide) (fun k url h => by cases h) with socket := ?_ }
    rintro k ⟨⟩
    exact List.mem_append_right _ (List.mem_singleton_self _)
  · rw [amount_concat, hsockets]
    rfl
  · rw [amount_concat, haios]
    rfl

theorem Owes.allocated (h : Owes s l a) : Owes s.allocated l (a + 1) := by
  obtain ⟨hs, haccount, hsockets, haios⟩ := h
  refine ⟨hs ++ [(s.dealings.length, .aio)], ?_, ?_, ?_⟩
  · refine { haccount.acquire (r := .aio) (by decide) (fun k url h => by cases h) with aio := ?_ }
    rintro k ⟨⟩
    exact List.mem_append_right _ (List.mem_singleton_self _)
  · rw [amount_concat, hsockets]
    rfl
  · rw [amount_concat, haios]
    rfl

theorem Owes.created (h : Owes s l a) {k : Nat} (hk : s.mSocket = some k) (url : String) :
    Owes (s.created k url) l a ∧ Dialable (s.created k url) := by
  obtain ⟨hs, haccount, hsockets, haios⟩ := h
  have hnew := haccount.acquire (r := .dialer k url) ⟨by simp, by simp⟩ (by
    rintro j url ⟨⟩
    exact haccount.socket k hk)
  refine ⟨⟨hs ++ [(s.dealings.length, .dialer k url)], ?_, ?_, ?_⟩, ?_⟩
  · refine { hnew with dialer := ?_ }
    rintro d ⟨⟩
    exact ⟨k, url, List.mem_append_right _ (List.mem_singleton_self _)⟩
  · rw [amount_concat, hsockets]
    rfl
  · rw [amount_concat, haios]
    rfl
  · rintro d ⟨⟩
    exact hnew.balanced.mem_held (by simp)

/-! ### What is released -/

/-- Dialers are closed. -/
theorem Account.releaseDialers (h : Account s.dealings s.mSocket s.mDialer s.aio hs) {ks : List Nat}
    (hn : ks.Nodup) (hks : ∀ d ∈ ks, ∃ k url, (d, .dialer k url) ∈ hs) :
    Account (s.release ks).dealings s.mSocket s.mDialer s.aio (hs.filter (·.1 ∉ ks)) ∧
      ∀ r, (∀ k url, r ≠ .dialer k url) → ∀ k, (k, r) ∈ hs → k ∉ ks := by
  have hother : ∀ r, (∀ k url, r ≠ .dialer k url) → ∀ k, (k, r) ∈ hs → k ∉ ks := by
    intro r hr k hk hmem
    obtain ⟨j, url, hj⟩ := hks k hmem
    exact hr j url (h.balanced.unique hk hj)
  have hstays {r : Resource} (hr : ∀ k url, r ≠ .dialer k url) {k : Nat} (hk : (k, r) ∈ hs) :
      (k, r) ∈ hs.filter (·.1 ∉ ks) :=
    List.mem_filter.mpr ⟨hk, decide_eq_true (hother r hr k hk)⟩
  refine ⟨⟨?_, ?_, ?_, ?_, ?_, ?_⟩, hother⟩
  · refine h.balanced.releaseAll hn ?_
    intro d hd
    obtain ⟨k, url, hk⟩ := hks d hd
    exact List.mem_map_of_mem hk
  · exact fun k hk => hstays (by simp) (h.socket k hk)
  · intro d hd
    obtain ⟨k, url, hacquired⟩ := h.dialer d hd
    exact ⟨k, url, List.mem_append_left _ hacquired⟩
  · exact fun k hk => hstays (by simp) (h.aio k hk)
  · intro d k url hd
    exact hstays (by simp) (h.dialers d k url (List.mem_filter.mp hd).1)
  · exact fun x hx => h.kinds x (List.mem_filter.mp hx).1

theorem Owes.releaseDialers (h : Owes s l a) {ks : List Nat} (hn : ks.Nodup)
    (hks : ∀ d ∈ ks, ∃ k url, (d, .dialer k url) ∈ holdings s.dealings) : Owes (s.release ks) l a := by
  obtain ⟨hs, haccount, hsockets, haios⟩ := h
  rw [haccount.balanced.holdings] at hks
  obtain ⟨hreleased, hother⟩ := haccount.releaseDialers hn hks
  have hamount (r : Resource) (hr : ∀ k url, r ≠ .dialer k url) :
      amount r (hs.filter (·.1 ∉ ks)) = amount r hs := by
    apply amount_filter_of_ne
    rintro ⟨k, r'⟩ hx rfl
    exact decide_eq_true (hother r' hr k hx)
  refine ⟨_, hreleased, ?_, ?_⟩
  · rw [hamount .socket (by simp), hsockets]
    rfl
  · rw [hamount .aio (by simp), haios]

theorem Owes.nng_dialer_close (h : Owes s l a) : Owes (s.nng_dialer_close s.mDialer) l a := by
  obtain ⟨hs, haccount, -⟩ := id h
  refine h.releaseDialers ?_ ?_
  · cases s.mDialer with
    | none => exact List.nodup_nil
    | some d => exact (List.nodup_singleton d).filter _
  · intro d hd
    obtain ⟨hd, hheld⟩ := List.mem_filter.mp hd
    obtain ⟨k, url, hacquired⟩ := haccount.dialer d (Option.mem_toList.mp hd)
    have hproper := haccount.balanced.proper
    exact ⟨k, url, (holds_iff hproper).mpr
      ⟨hacquired, ((held_iff hproper).mp (of_decide_eq_true hheld)).2⟩⟩

/-- Something is released that has no dialers, and that no handle designates any more. -/
theorem Account.release {log : List (Dealing Resource Usage)} {mSocket mDialer aio : Option Nat}
    (h : Account log mSocket mDialer aio hs) {k : Nat} {r : Resource} (hmem : (k, r) ∈ hs)
    (hnone : ∀ d url, (d, .dialer k url) ∉ hs) {mSocket' aio' : Option Nat}
    (hsocket : ∀ j ∈ mSocket', j ∈ mSocket ∧ j ≠ k) (haio : ∀ j ∈ aio', j ∈ aio ∧ j ≠ k) :
    Account (log ++ [.released k]) mSocket' mDialer aio' (hs.filter (·.1 ≠ k)) ∧
      amount r (hs.filter (·.1 ≠ k)) + 1 = amount r hs ∧
      ∀ r', r' ≠ r → amount r' (hs.filter (·.1 ≠ k)) = amount r' hs := by
  have hother {j : Nat} {r' : Resource} (hne : j ≠ k) (hj : (j, r') ∈ hs) :
      (j, r') ∈ hs.filter (·.1 ≠ k) :=
    List.mem_filter.mpr ⟨hj, decide_eq_true hne⟩
  refine ⟨⟨?_, ?_, ?_, ?_, ?_, ?_⟩, amount_release h.balanced.nodup hmem, ?_⟩
  · exact h.balanced.release (List.mem_map_of_mem hmem)
  · exact fun j hj => hother (hsocket j hj).2 (h.socket j (hsocket j hj).1)
  · intro d hd
    obtain ⟨j, url, hacquired⟩ := h.dialer d hd
    exact ⟨j, url, List.mem_append_left _ hacquired⟩
  · exact fun j hj => hother (haio j hj).2 (h.aio j (haio j hj).1)
  · intro d j url hd
    obtain ⟨hheld, -⟩ := List.mem_filter.mp hd
    refine hother ?_ (h.dialers d j url hheld)
    rintro rfl
    exact hnone d url hheld
  · exact fun x hx => h.kinds x (List.mem_filter.mp hx).1
  · intro r' hne
    apply amount_filter_of_ne
    rintro ⟨j, r''⟩ hj rfl
    refine decide_eq_true ?_
    rintro rfl
    exact hne (h.balanced.unique hj hmem)

/-- The dialers of a socket go before it. -/
theorem Owes.nng_close (h : Owes s l a) {k : Nat} (hk : s.mSocket = some k) :
    Owes { s.nng_close k with mSocket := none } l a := by
  let ks := ((holdings s.dealings).filter (·.2.dials k)).map Prod.fst
  have hproper : Proper s.dealings := by
    obtain ⟨hs, haccount, -⟩ := id h
    exact haccount.balanced.proper
  have hn : ks.Nodup := (nodup_held hproper).sublist (List.filter_sublist.map _)
  have hks : ∀ d ∈ ks, ∃ j url, (d, .dialer j url) ∈ holdings s.dealings := by
    intro d hd
    obtain ⟨⟨_, r⟩, hx, rfl⟩ := List.mem_map.mp hd
    obtain ⟨hx, hdials⟩ := List.mem_filter.mp hx
    cases r with
    | dialer j url => exact ⟨j, url, hx⟩
    | socket | aio | message | tls_config => cases hdials
  obtain ⟨hs, haccount, hsockets, haios⟩ := h.releaseDialers hn hks
  have hnone : ∀ d url, (d, .dialer k url) ∉ hs := by
    intro d url hd
    obtain ⟨hacquired, hnot⟩ :=
      (holds_iff haccount.balanced.proper).mp (haccount.balanced.holdings ▸ hd)
    obtain ⟨hsdealings, hnot⟩ := not_or.mp (mt List.mem_append.mpr hnot)
    have hheld : (d, .dialer k url) ∈ holdings s.dealings := by
      refine (holds_iff hproper).mpr ⟨?_, hsdealings⟩
      obtain hacquired | hacquired := List.mem_append.mp hacquired
      · exact hacquired
      · obtain ⟨j, -, hj⟩ := List.mem_map.mp hacquired
        cases hj
    have hmem : d ∈ ks :=
      List.mem_map_of_mem (f := Prod.fst) (List.mem_filter.mpr ⟨hheld, decide_eq_true rfl⟩)
    exact hnot (List.mem_map_of_mem hmem)
  have hmem := haccount.socket k hk
  have hkaio : ∀ j ∈ s.aio, j ∈ s.aio ∧ j ≠ k := by
    intro j hj
    refine ⟨hj, ?_⟩
    rintro rfl
    cases haccount.balanced.unique hmem (haccount.aio j hj)
  have hksocket : ∀ j ∈ (none : Option Nat), j ∈ s.mSocket ∧ j ≠ k :=
    fun j hj => absurd hj (Option.not_mem_none j)
  obtain ⟨hclosed, hsocket, hother⟩ := haccount.release hmem hnone hksocket hkaio
  refine ⟨_, hclosed, ?_, ?_⟩
  · change amount .socket hs = l + s.mSocket.isSome.toNat at hsockets
    rw [hk] at hsockets
    exact Nat.succ.inj (hsocket.trans hsockets)
  · rw [hother .aio (by simp), haios]

theorem Owes.freed (h : Owes s l (a + 1)) (ha : s.aio.isSome) :
    Owes { s.release s.aio.toList with aio := none } l a := by
  obtain ⟨hs, haccount, hsockets, haios⟩ := h
  obtain ⟨k, hk⟩ := Option.isSome_iff_exists.mp ha
  have hmem := haccount.aio k hk
  have hnone : ∀ d url, (d, .dialer k url) ∉ hs := by
    intro d url hd
    cases haccount.balanced.unique hmem (haccount.dialers d k url hd)
  have hksocket : ∀ j ∈ s.mSocket, j ∈ s.mSocket ∧ j ≠ k := by
    intro j hj
    refine ⟨hj, ?_⟩
    rintro rfl
    cases haccount.balanced.unique hmem (haccount.socket j hj)
  have hkaio : ∀ j ∈ (none : Option Nat), j ∈ s.aio ∧ j ≠ k :=
    fun j hj => absurd hj (Option.not_mem_none j)
  obtain ⟨hfreed, haio, hother⟩ := haccount.release hmem hnone hksocket hkaio
  rw [hk]
  refine ⟨_, hfreed, ?_, ?_⟩
  · rw [hother .socket (by simp), hsockets]
    rfl
  · exact Nat.succ.inj (haio.trans haios)

/-! ### What is only borrowed -/

/-- The ledger has changed, and what is held has not. -/
theorem Owes.of_balanced {t : AsyncHandles}
    (haccount : Account s.dealings s.mSocket s.mDialer s.aio hs)
    (hamounts : amount .socket hs = l + s.mSocket.isSome.toNat ∧ amount .aio hs = a)
    (hbalanced : Balanced t.dealings hs) (hlog : ∀ w ∈ s.dealings, w ∈ t.dealings)
    (hsocket : t.mSocket = s.mSocket) (hdialer : t.mDialer = s.mDialer) (haio : t.aio = s.aio) :
    Owes t l a := by
  rw [Owes, hsocket, hdialer, haio]
  exact ⟨hs, haccount.of_balanced hbalanced hlog, hamounts⟩

theorem Owes.applyTlsPsk (h : Owes s l a) (hd : Dialable s) (o : Returns) :
    Owes (s.applyTlsPsk o).2 l a ∧ Dialable (s.applyTlsPsk o).2 ∧
      (s.applyTlsPsk o).2.mSocket = s.mSocket ∧ (s.applyTlsPsk o).2.aio = s.aio := by
  rw [AsyncHandles.applyTlsPsk]
  split
  · exact ⟨h, hd, rfl, rfl⟩
  · split
    · exact ⟨h, hd, rfl, rfl⟩
    · obtain ⟨hs, haccount, hamounts⟩ := h
      have hdialer : ∀ d ∈ s.mDialer, d ∈ hs.map Prod.fst := by
        intro d hmem
        have hheld := hd d hmem
        rwa [held, haccount.balanced.holdings] at hheld
      have hdialable {t : AsyncHandles} (hbalanced : Balanced t.dealings hs)
          (ht : t.mDialer = s.mDialer) : Dialable t := by
        intro d hmem
        exact hbalanced.mem_held (hdialer d (ht ▸ hmem))
      have hmem : s.dealings.length ∈ (hs ++ [(s.dealings.length, Resource.tls_config)]).map Prod.fst := by
        simp
      have hkeyed := (haccount.balanced.acquire .tls_config).use hmem .config_psk
      have hset := balanced_use hkeyed (k := s.mDialer) (fun d hd => by simp [hdialer d hd])
        .dialer_set_ptr
      dsimp only
      split
      · refine ⟨.of_balanced haccount hamounts hset.giveBack ?_ rfl rfl rfl,
          hdialable hset.giveBack rfl, rfl, rfl⟩
        exact fun w hw => List.mem_append_left _ (List.mem_append_left _ (List.mem_append_left _
          (List.mem_append_left _ hw)))
      · refine ⟨.of_balanced haccount hamounts hkeyed.giveBack ?_ rfl rfl rfl,
          hdialable hkeyed.giveBack rfl, rfl, rfl⟩
        exact fun w hw => List.mem_append_left _ (List.mem_append_left _ (List.mem_append_left _ hw))

/-- A message is passed on or freed. -/
theorem Account.parted (h : Account s.dealings s.mSocket s.mDialer s.aio hs) (data : List UInt8) :
    Account ((s.appended data).release [s.dealings.length]).dealings s.mSocket s.mDialer s.aio hs ∧
      Account ((s.offered data).release [s.dealings.length]).dealings s.mSocket s.mDialer s.aio hs := by
  have hmem : s.dealings.length ∈ (hs ++ [(s.dealings.length, Resource.message)]).map Prod.fst := by
    simp
  have hsocket : ∀ k ∈ s.mSocket, k ∈ (hs ++ [(s.dealings.length, Resource.message)]).map Prod.fst := by
    intro k hk
    exact List.mem_map_of_mem (List.mem_append_left _ (h.socket k hk))
  have happended : Balanced (s.appended data).dealings (hs ++ [(s.dealings.length, .message)]) :=
    (h.balanced.acquire .message).use hmem (.append data)
  have hoffered : Balanced (s.offered data).dealings (hs ++ [(s.dealings.length, .message)]) :=
    (balanced_use happended hsocket .sendmsg).use hmem .sendmsg
  have hlog : ∀ w ∈ s.dealings, w ∈ (s.appended data).dealings := fun w hw =>
    List.mem_append_left _ (List.mem_append_left _ hw)
  refine ⟨h.of_balanced happended.giveBack ?_, h.of_balanced hoffered.giveBack ?_⟩
  · exact fun w hw => List.mem_append_left _ (hlog w hw)
  · exact fun w hw => List.mem_append_left _ (List.mem_append_left _ (List.mem_append_left _ (hlog w hw)))

theorem Account.write (h : Account s.dealings s.mSocket s.mDialer s.aio hs) (data : List UInt8)
    (o : WriteReturns) :
    Account (s.write data o).2.dealings s.mSocket s.mDialer s.aio hs ∧
      (s.write data o).2.mSocket = s.mSocket ∧ (s.write data o).2.mDialer = s.mDialer ∧
      (s.write data o).2.aio = s.aio := by
  obtain ⟨hfreed, htaken⟩ := h.parted data
  rw [AsyncHandles.write, NNG_ERROR]
  split
  · exact ⟨h, rfl, rfl, rfl⟩
  · dsimp only
    split
    · exact ⟨hfreed, by simp [setError], by simp [setError], by simp [setError]⟩
    · split
      · exact ⟨htaken, by simp, by simp, by simp⟩
      · split
        · exact ⟨htaken, by simp, by simp, by simp⟩
        · exact ⟨htaken, by simp [setError], by simp [setError], by simp [setError]⟩

theorem Owes.write (h : Owes s l a) (data : List UInt8) (o : WriteReturns) :
    Owes (s.write data o).2 l a ∧ (s.write data o).2.mSocket = s.mSocket ∧
      (s.write data o).2.aio = s.aio := by
  obtain ⟨hs, haccount, hamounts⟩ := h
  obtain ⟨hwrite, hsocket, hdialer, haio⟩ := haccount.write data o
  refine ⟨?_, hsocket, haio⟩
  rw [Owes, hsocket, hdialer, haio]
  exact ⟨hs, hwrite, hamounts⟩

/-! ### Starts -/

theorem NNG_ERROR_of_ne {ret : Int} (h : ret ≠ 0) (s : AsyncHandles) (msg : String)
    (next : AsyncHandles → Bool × AsyncHandles) : s.NNG_ERROR msg ret next = (false, s.setError msg ret) :=
  if_pos h

theorem NNG_ERROR_of_zero {ret : Int} (h : ret = 0) (s : AsyncHandles) (msg : String)
    (next : AsyncHandles → Bool × AsyncHandles) : s.NNG_ERROR msg ret next = next s :=
  if_neg (not_not.mpr h)

theorem nng_open_of_zero {ret : Int} (h : ret = 0) (s : AsyncHandles) : s.nng_open ret = s.opened :=
  if_pos h

theorem nng_open_of_ne {ret : Int} (h : ret ≠ 0) (s : AsyncHandles) : s.nng_open ret = s := if_neg h

theorem nng_aio_alloc_of_zero {ret : Int} (h : ret = 0) (s : AsyncHandles) :
    s.nng_aio_alloc ret = s.allocated :=
  if_pos h

theorem nng_aio_alloc_of_ne {ret : Int} (h : ret ≠ 0) (s : AsyncHandles) : s.nng_aio_alloc ret = s :=
  if_neg h

/-- An aio is there only with a socket. -/
def Anchored (s : AsyncHandles) : Prop := s.mSocket = none → s.aio = none

theorem anchored_of_some {k : Nat} (h : s.mSocket = some k) : Anchored s :=
  fun hnone => absurd (h.symm.trans hnone) (Option.some_ne_none k)

/-- How many sockets a start loses: the one that was open, if it opens another. -/
def lost (s : AsyncHandles) (o : Returns) : Nat := if o.opened = 0 then s.mSocket.isSome.toNat else 0

theorem started_startReceiving (h : Owes s l a) (hs : Anchored s)
    (opening allocating attaching : String) (attach : Usage) (o : Returns) :
    Owes (startReceiving opening allocating attaching attach s o).2 (l + s.lost o)
        (a + if o.opened = 0 ∧ o.allocated = 0 then 1 else 0) ∧
      Anchored (startReceiving opening allocating attaching attach s o).2 := by
  rw [startReceiving, lost]
  by_cases ho : o.opened = 0
  · rw [NNG_ERROR_of_zero ho, nng_open_of_zero ho, if_pos ho]
    by_cases ha : o.allocated = 0
    · rw [NNG_ERROR_of_zero ha, nng_aio_alloc_of_zero ha, if_pos ⟨ho, ha⟩]
      have hattached := h.opened.allocated.useSocket attach
      by_cases hattach : o.attached = 0
      · rw [NNG_ERROR_of_zero hattach]
        exact ⟨(hattached.useSocket .recv_aio).useAio .recv_aio, anchored_of_some rfl⟩
      · rw [NNG_ERROR_of_ne hattach]
        exact ⟨hattached, anchored_of_some rfl⟩
    · rw [NNG_ERROR_of_ne ha, nng_aio_alloc_of_ne ha, if_neg (fun hboth => ha hboth.2)]
      exact ⟨h.opened, anchored_of_some rfl⟩
  · rw [NNG_ERROR_of_ne ho, nng_open_of_ne ho, if_neg ho, if_neg (fun hboth => ho hboth.1)]
    exact ⟨h, hs⟩

theorem started_AsyncPublisher (h : Owes s l a) (hs : Anchored s) (url : String) (o : Returns) :
    Owes (AsyncPublisher.start s url o).2 (l + s.lost o) a ∧
      Anchored (AsyncPublisher.start s url o).2 := by
  rw [AsyncPublisher.start, lost]
  by_cases ho : o.opened = 0
  · rw [NNG_ERROR_of_zero ho, nng_open_of_zero ho, if_pos ho]
    have hattached := h.opened.useSocket (.listen url)
    by_cases hattach : o.attached = 0
    · rw [NNG_ERROR_of_zero hattach]
      exact ⟨hattached, anchored_of_some rfl⟩
    · rw [NNG_ERROR_of_ne hattach]
      exact ⟨hattached, anchored_of_some rfl⟩
  · rw [NNG_ERROR_of_ne ho, nng_open_of_ne ho, if_neg ho]
    exact ⟨h, hs⟩

theorem started_AsyncPipelinePull (h : Owes s l a) (hs : Anchored s) (url : String) (o : Returns) :
    Owes (AsyncPipelinePull.start s url o).2 (l + s.lost o)
        (a + if o.opened = 0 ∧ o.allocated = 0 then 1 else 0) ∧
      Anchored (AsyncPipelinePull.start s url o).2 := by
  rw [AsyncPipelinePull.start, lost]
  dsimp only
  by_cases ho : o.opened = 0
  · rw [if_neg (not_not.mpr ho), nng_open_of_zero ho, if_pos ho]
    by_cases ha : o.allocated = 0
    · rw [if_neg (not_not.mpr ha), nng_aio_alloc_of_zero ha]
      have hattached := h.opened.allocated.useSocket (.listen url)
      rw [if_pos (⟨ho, ha⟩ : o.opened = 0 ∧ o.allocated = 0)]
      by_cases hattach : o.attached = 0
      · rw [if_neg (not_not.mpr hattach)]
        exact ⟨(hattached.useSocket .recv_aio).useAio .recv_aio, anchored_of_some rfl⟩
      · rw [if_pos hattach]
        exact ⟨hattached, anchored_of_some rfl⟩
    · rw [if_pos ha, nng_aio_alloc_of_ne ha, if_neg (fun hboth => ha hboth.2)]
      exact ⟨h.opened, anchored_of_some rfl⟩
  · rw [if_pos ho, nng_open_of_ne ho, if_neg ho, if_neg (fun hboth => ho hboth.1)]
    exact ⟨h, hs⟩

theorem Dialable.use (h : Dialable s) (k : Option Nat) (u : Usage) : Dialable (s.use k u) := by
  intro d hd
  have hheld := h d hd
  cases k with
  | none => simpa [AsyncHandles.use] using hheld
  | some j =>
    change d ∈ held (s.dealings ++ [.used j u])
    rwa [held, holdings_concat]

/-- The key that is set does not change in a start. -/
theorem applyTlsPsk_congr {t : AsyncHandles} (hidentity : t.mPskIdentity = s.mPskIdentity)
    (hkey : t.mPskKey = s.mPskKey) (o : Returns) : (t.applyTlsPsk o).1 = (s.applyTlsPsk o).1 := by
  rw [applyTlsPsk, applyTlsPsk, hidentity, hkey]
  split
  · rfl
  · split
    · rfl
    · dsimp only
      split <;> rfl

theorem nng_dialer_create_of_zero {k : Nat} (hk : s.mSocket = some k) {ret : Int} (h : ret = 0)
    (url : String) : s.nng_dialer_create url ret = s.created k url := by
  rw [nng_dialer_create, hk]
  exact if_pos h

theorem nng_dialer_create_of_ne {ret : Int} (h : ret ≠ 0) (url : String) :
    s.nng_dialer_create url ret = s := by
  rw [nng_dialer_create]
  split
  · exact if_neg h
  · rfl

/-- The aio comes last, when all else has gone well. -/
theorem started_AsyncSubscriber (h : Owes s l a) (hs : Anchored s) (url : String) (o : Returns) :
    Owes (AsyncSubscriber.start s url o).2 (l + s.lost o)
        (a + if o.opened = 0 ∧ o.subscribed = 0 ∧ o.created = 0 ∧ (s.applyTlsPsk o).1 = 0 ∧
          o.notified = 0 ∧ o.started = 0 ∧ o.allocated = 0 then 1 else 0) ∧
      Anchored (AsyncSubscriber.start s url o).2 := by
  rw [AsyncSubscriber.start, lost]
  by_cases ho : o.opened = 0
  · rw [NNG_ERROR_of_zero ho, nng_open_of_zero ho, if_pos ho]
    have hopened := h.opened.useSocket .setopt
    by_cases hsub : o.subscribed = 0
    · rw [NNG_ERROR_of_zero hsub]
      by_cases hcreate : o.created = 0
      · obtain ⟨hcreated, hdialable⟩ := hopened.created (k := s.dealings.length) rfl url
        obtain ⟨htls, hdialable, hsocket, -⟩ := hcreated.applyTlsPsk hdialable o
        have hret := applyTlsPsk_congr (s := s)
          (t := (s.opened.use s.opened.mSocket .setopt).created s.dealings.length url) rfl rfl o
        rw [NNG_ERROR_of_zero hcreate, nng_dialer_create_of_zero rfl hcreate, ← hret]
        generalize AsyncHandles.applyTlsPsk _ o = r at htls hdialable hsocket ⊢
        obtain ⟨ret, t⟩ := r
        dsimp only at htls hdialable hsocket ⊢
        replace hsocket : t.mSocket = some s.dealings.length := hsocket
        by_cases hr : ret = 0
        · rw [NNG_ERROR_of_zero hr]
          have hnotified := htls.useSocket .pipe_notify
          by_cases hnotify : o.notified = 0
          · rw [NNG_ERROR_of_zero hnotify]
            have hstarted := hnotified.useDialer (hdialable.use _ _) .dialer_start
            by_cases hstart : o.started = 0
            · rw [NNG_ERROR_of_zero hstart]
              by_cases ha : o.allocated = 0
              · rw [NNG_ERROR_of_zero ha, nng_aio_alloc_of_zero ha,
                  if_pos ⟨ho, hsub, hcreate, hr, hnotify, hstart, ha⟩]
                exact ⟨(hstarted.allocated.useSocket .recv_aio).useAio .recv_aio, anchored_of_some hsocket⟩
              · rw [NNG_ERROR_of_ne ha, nng_aio_alloc_of_ne ha, if_neg (by tauto)]
                exact ⟨hstarted, anchored_of_some hsocket⟩
            · rw [NNG_ERROR_of_ne hstart, if_neg (by tauto)]
              exact ⟨hstarted, anchored_of_some hsocket⟩
          · rw [NNG_ERROR_of_ne hnotify, if_neg (by tauto)]
            exact ⟨hnotified, anchored_of_some hsocket⟩
        · rw [NNG_ERROR_of_ne hr, if_neg (by tauto)]
          exact ⟨htls, anchored_of_some hsocket⟩
      · rw [NNG_ERROR_of_ne hcreate, nng_dialer_create_of_ne hcreate, if_neg (by tauto)]
        exact ⟨hopened, anchored_of_some rfl⟩
    · rw [NNG_ERROR_of_ne hsub, if_neg (by tauto)]
      exact ⟨hopened, anchored_of_some rfl⟩
  · rw [NNG_ERROR_of_ne ho, nng_open_of_ne ho, if_neg ho, if_neg (by tauto)]
    exact ⟨h, hs⟩

theorem Owes.dropDialer (h : Owes s l a) : Owes { s with mDialer := none } l a := by
  obtain ⟨hs, haccount, hamounts⟩ := h
  exact ⟨hs, { haccount with dialer := fun d hd => absurd hd (Option.not_mem_none d) }, hamounts⟩

theorem Owes.retract (h : Owes s l (a + 1)) (ha : s.aio.isSome) {k : Nat} (hk : s.mSocket = some k) :
    Owes (AsyncPipelinePush.retract s) l a ∧ Anchored (AsyncPipelinePush.retract s) := by
  have hclosed := h.nng_dialer_close.dropDialer.freed ha
  rw [AsyncPipelinePush.retract]
  dsimp only
  split
  · rename_i hnone
    exact absurd (hk.symm.trans hnone) (Option.some_ne_none k)
  · rename_i j hj
    exact ⟨hclosed.nng_close hj, fun _ => rfl⟩

/-- What a start makes that cannot dial is taken apart again, but not what one makes that fails
before that. -/
theorem started_AsyncPipelinePush (h : Owes s l a) (hs : Anchored s) (url : String) (o : Returns) :
    Owes (AsyncPipelinePush.start s url o).2 (l + s.lost o)
        (a + if o.opened = 0 ∧ o.allocated = 0 ∧
          ¬(o.created = 0 ∧ (s.applyTlsPsk o).1 = 0 ∧ o.started ≠ 0) then 1 else 0) ∧
      Anchored (AsyncPipelinePush.start s url o).2 := by
  rw [AsyncPipelinePush.start, lost]
  by_cases ho : o.opened = 0
  · rw [NNG_ERROR_of_zero ho, nng_open_of_zero ho, if_pos ho]
    dsimp only
    have hopened := h.opened.useSocket .setopt
    by_cases ha : o.allocated = 0
    · rw [NNG_ERROR_of_zero ha, nng_aio_alloc_of_zero ha]
      have hallocated := hopened.allocated
      by_cases hcreate : o.created = 0
      · obtain ⟨hcreated, hdialable⟩ := hallocated.created (k := s.dealings.length) rfl url
        obtain ⟨htls, hdialable, hsocket, haio⟩ := hcreated.applyTlsPsk hdialable o
        have hret := applyTlsPsk_congr (s := s)
          (t := ((s.opened.use s.opened.mSocket .setopt).allocated).created s.dealings.length url)
          rfl rfl o
        rw [NNG_ERROR_of_zero hcreate, nng_dialer_create_of_zero rfl hcreate, ← hret]
        generalize AsyncHandles.applyTlsPsk _ o = r at htls hdialable hsocket haio ⊢
        obtain ⟨ret, t⟩ := r
        dsimp only at htls hdialable hsocket haio ⊢
        replace hsocket : t.mSocket = some s.dealings.length := hsocket
        by_cases hr : ret = 0
        · rw [NNG_ERROR_of_zero hr]
          have hstarted := htls.useDialer hdialable .dialer_start
          by_cases hstart : o.started = 0
          · rw [if_neg (not_not.mpr hstart), if_pos ⟨ho, ha, by tauto⟩]
            exact ⟨(hstarted.useSocket .recv_aio).useAio .recv_aio, anchored_of_some hsocket⟩
          · rw [if_pos hstart, if_neg (by tauto)]
            have hfailed : Owes ((t.use t.mDialer .dialer_start).setError "Pipeline push dial" o.started)
                (l + s.mSocket.isSome.toNat) (a + 1) := hstarted
            have hthere : t.aio.isSome := by
              rw [haio]
              rfl
            exact hfailed.retract hthere hsocket
        · rw [NNG_ERROR_of_ne hr, if_pos ⟨ho, ha, by tauto⟩]
          exact ⟨htls, anchored_of_some hsocket⟩
      · rw [NNG_ERROR_of_ne hcreate, nng_dialer_create_of_ne hcreate, if_pos ⟨ho, ha, by tauto⟩]
        exact ⟨hallocated, anchored_of_some rfl⟩
    · rw [NNG_ERROR_of_ne ha, nng_aio_alloc_of_ne ha, if_neg (by tauto)]
      exact ⟨hopened, anchored_of_some rfl⟩
  · rw [NNG_ERROR_of_ne ho, nng_open_of_ne ho, if_neg ho, if_neg (by tauto)]
    exact ⟨h, hs⟩

/-! ### Runs -/

theorem Owes.stop (h : Owes s l a) (hs : Anchored s) :
    Owes s.stop l a ∧ s.stop.mSocket = none ∧ s.stop.aio = none := by
  rw [AsyncHandles.stop]
  split
  · rename_i hnone
    exact ⟨h, hnone, hs hnone⟩
  · rename_i k hk
    obtain ⟨hs, haccount, hamounts⟩ := ((h.nng_close hk).nng_dialer_close).useAio .aio_stop
    exact ⟨⟨hs, { haccount with aio := fun j hj => absurd hj (Option.not_mem_none j) }, hamounts⟩, rfl, rfl⟩

/-- Nothing is left to be freed when the connector is destroyed. -/
theorem Owes.destroy (h : Owes s l a) (hs : Anchored s) :
    Owes s.destroy l a ∧ s.destroy.mSocket = none := by
  obtain ⟨hstop, hsocket, haio⟩ := h.stop hs
  have heq : s.destroy = s.stop := by
    rw [AsyncHandles.destroy, haio]
    simp [AsyncHandles.release]
  rw [heq]
  exact ⟨hstop, hsocket⟩

namespace Call

/-- How many sockets are lost in a call. -/
def lost (s : AsyncHandles) : Call → Nat
  | .start _ o => s.lost o
  | _ => 0

/-- How many aios a call makes and leaves. -/
def kept (kind : AsyncKind) (s : AsyncHandles) : Call → Nat
  | .start _ o =>
    match kind with
    | .AsyncPairClient | .AsyncPairServer | .AsyncRequest | .AsyncReply | .AsyncPipelinePull =>
      if o.opened = 0 ∧ o.allocated = 0 then 1 else 0
    | .AsyncPublisher => 0
    | .AsyncSubscriber =>
      if o.opened = 0 ∧ o.subscribed = 0 ∧ o.created = 0 ∧ (s.applyTlsPsk o).1 = 0 ∧
        o.notified = 0 ∧ o.started = 0 ∧ o.allocated = 0 then 1 else 0
    | .AsyncPipelinePush =>
      if o.opened = 0 ∧ o.allocated = 0 ∧
        ¬(o.created = 0 ∧ (s.applyTlsPsk o).1 = 0 ∧ o.started ≠ 0) then 1 else 0
  | _ => 0

end Call

variable {kind : AsyncKind}

theorem started (h : Owes s l a) (hs : Anchored s) (url : String) (o : Returns) :
    Owes (start kind s url o).2 (l + s.lost o) (a + (Call.start url o).kept kind s) ∧
      Anchored (start kind s url o).2 := by
  cases kind with
  | AsyncPairClient | AsyncPairServer | AsyncRequest | AsyncReply =>
    exact started_startReceiving h hs _ _ _ _ o
  | AsyncPublisher => exact started_AsyncPublisher h hs url o
  | AsyncSubscriber => exact started_AsyncSubscriber h hs url o
  | AsyncPipelinePush => exact started_AsyncPipelinePush h hs url o
  | AsyncPipelinePull => exact started_AsyncPipelinePull h hs url o

theorem called {c : Call} {r : Bool × AsyncHandles} (h : Owes s l a) (hs : Anchored s)
    (hr : call kind s c = some r) :
    Owes r.2 (l + c.lost s) (a + c.kept kind s) ∧ Anchored r.2 := by
  cases c with
  | setTlsPsk identity key =>
    cases hr
    obtain ⟨hs', h⟩ := h
    exact ⟨⟨hs', h⟩, hs⟩
  | start url o =>
    cases hr
    exact started h hs url o
  | write data o =>
    cases hr
    split
    · exact ⟨h, hs⟩
    · obtain ⟨hwrite, hsocket, haio⟩ := h.write data o
      refine ⟨hwrite, fun hnone => ?_⟩
      rw [haio]
      exact hs (hsocket.symm.trans hnone)
  | stop =>
    cases hr
    obtain ⟨hstop, -, haio⟩ := h.stop hs
    exact ⟨hstop, fun _ => haio⟩

theorem owes_empty : Owes {} 0 0 := by
  refine ⟨[], ⟨balanced_nil, ?_, ?_, ?_, ?_, ?_⟩, rfl, rfl⟩
  · exact fun k hk => absurd hk (Option.not_mem_none k)
  · exact fun k hk => absurd hk (Option.not_mem_none k)
  · exact fun k hk => absurd hk (Option.not_mem_none k)
  · exact fun _ _ _ hd => absurd hd List.not_mem_nil
  · exact fun _ hx => absurd hx List.not_mem_nil

theorem Owes.unique {l' a' : Nat} (h : Owes s l a) (h' : Owes s l' a') : l = l' ∧ a = a' := by
  obtain ⟨hs, haccount, hsockets, haios⟩ := h
  obtain ⟨hs', haccount', hsockets', haios'⟩ := h'
  obtain rfl : hs = hs' := haccount.balanced.holdings.symm.trans haccount'.balanced.holdings
  exact ⟨Nat.add_right_cancel (hsockets.symm.trans hsockets'), haios.symm.trans haios'⟩

/-- What a run owes. -/
theorem owes_run {calls : List Call} {os : List Bool}
    (h : run (call kind) {} calls = some (os, s)) :
    Owes s (tally (call kind) Call.lost {} calls)
      (tally (call kind) (Call.kept kind) {} calls) ∧ Anchored s := by
  have hempty : Anchored {} := fun _ => rfl
  obtain ⟨⟨a, hlost⟩, hanchored⟩ :
      (∃ a, Owes s (0 + tally (call kind) Call.lost {} calls) a) ∧ Anchored s := by
    refine run_tally (f := Call.lost) (P := fun s l => (∃ a, Owes s l a) ∧ Anchored s) ?_ ⟨⟨0, owes_empty⟩, hempty⟩ h
    rintro s c r l ⟨⟨a, h⟩, hs⟩ hr
    obtain ⟨howes, hanchored⟩ := called h hs hr
    exact ⟨⟨_, howes⟩, hanchored⟩
  obtain ⟨⟨l, hkept⟩, -⟩ :
      (∃ l, Owes s l (0 + tally (call kind) (Call.kept kind) {} calls)) ∧ Anchored s := by
    refine run_tally (f := Call.kept kind) (P := fun s a => (∃ l, Owes s l a) ∧ Anchored s) ?_ ⟨⟨0, owes_empty⟩, hempty⟩ h
    rintro s c r a ⟨⟨l, h⟩, hs⟩ hr
    obtain ⟨howes, hanchored⟩ := called h hs hr
    exact ⟨⟨_, howes⟩, hanchored⟩
  obtain ⟨rfl, rfl⟩ := hlost.unique hkept
  rw [Nat.zero_add, Nat.zero_add] at hlost
  exact ⟨hlost, hanchored⟩

/-- A push is started twice, and can dial the second time. -/
def retried : List Call :=
  [.start "tcp://10.0.0.1:6000" { started := 6 }, .start "tcp://10.0.0.1:6000" {},
    .write [1, 2] { sendmsg := NNG_EAGAIN }, .stop]

/-- Nothing is left of a connector exactly when every start that opens a socket finds none open,
and every one that makes an aio is of a push that cannot dial. -/
theorem holdings_destroy_eq_nil_iff {calls : List Call} {os : List Bool}
    (h : run (call kind) {} calls = some (os, s)) :
    holdings s.destroy.dealings = [] ↔
      Each (call kind) (fun s c => c.lost s = 0) {} calls ∧
        Each (call kind) (fun s c => c.kept kind s = 0) {} calls := by
  obtain ⟨howes, hanchored⟩ := owes_run h
  obtain ⟨⟨hs, haccount, hsockets, haios⟩, hnone⟩ := howes.destroy hanchored
  rw [hnone] at hsockets
  replace hsockets : amount .socket hs = tally (call kind) Call.lost {} calls := hsockets
  rw [← tally_eq_zero_iff, ← tally_eq_zero_iff, ← haios, ← hsockets, haccount.balanced.holdings]
  refine ⟨?_, ?_⟩
  · rintro rfl
    exact ⟨rfl, rfl⟩
  · rintro ⟨hsockets, haios⟩
    rw [amount, List.countP_eq_zero] at hsockets haios
    have hnosocket (k : Nat) : (k, .socket) ∉ hs := fun hk => hsockets _ hk (decide_eq_true rfl)
    rw [List.eq_nil_iff_forall_not_mem]
    rintro ⟨k, r⟩ hk
    cases r with
    | socket => exact hnosocket k hk
    | dialer j url => exact hnosocket j (haccount.dialers k j url hk)
    | aio => exact haios _ hk (decide_eq_true rfl)
    | message => exact (haccount.kinds _ hk).1 rfl
    | tls_config => exact (haccount.kinds _ hk).2 rfl

theorem holdings_destroy_eq_nil_iff_undialed : ∃ s, run (call .AsyncPipelinePush) {}
      (retried.take 1) = some ([false], s) ∧ holdings s.destroy.dealings = [] := by
  obtain ⟨s, hrun⟩ : ∃ s, run (call .AsyncPipelinePush) {} (retried.take 1) =
      some ([false], s) := ⟨_, rfl⟩
  exact ⟨s, hrun, (holdings_destroy_eq_nil_iff hrun).mpr (by decide)⟩

end Open3DStream.AsyncHandles
