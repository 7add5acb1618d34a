import Mathlib.Data.List.Induction
import Mathlib.Order.Basic
import Open3DStream.Lib.Lists

/-! The connectors that receive in callbacks of nng. -/

namespace Open3DStream

open Lib

namespace Connector

/-- `eState`. -/
inductive EState where
  | NOTSTARTED | STARTED | READING | STATE_ERROR | CLOSED
deriving DecidableEq

end Connector

/-- A receive of nng. When it is done its callback is due, with the result and the message;
`idle` is between the two. -/
inductive Aio where
  | idle
  | posted
  | done (ret : Int) (msg : Option (List UInt8))
deriving DecidableEq

/-- `mError` is the text and the code that nng has words for; `queue` is what the socket
holds, and `receiving` says that a callback is in `nng_recv`. -/
structure AsyncNngConnector where
  queue : List (List UInt8) := []
  aio : Aio := .idle
  receiving : Bool := false
  mInDataFunc : Bool := false
  mState : Connector.EState := .NOTSTARTED
  mError : Option (String × Option Int) := none
  calls : List (List UInt8) := []
deriving DecidableEq

namespace AsyncNngConnector

def setFunc (c : AsyncNngConnector) : AsyncNngConnector := { c with mInDataFunc := true }

def setError (c : AsyncNngConnector) (msg : String) (ret : Option Int) : AsyncNngConnector :=
  { c with mError := some (msg, ret), mState := .STATE_ERROR }

/-- A receive takes the oldest message, or waits for one. -/
def nngRecvAio (c : AsyncNngConnector) : AsyncNngConnector :=
  match c.queue with
  | [] => { c with aio := .posted }
  | msg :: queue => { c with aio := .done 0 (some msg), queue := queue }

def inData (c : AsyncNngConnector) (data : List UInt8) : AsyncNngConnector :=
  if c.mInDataFunc then { c with calls := c.calls ++ [data] } else c

/-- The message is taken out of the receive that is done, and another receive is posted. -/
def asyncReadMsg (c : AsyncNngConnector) (ret : Int) (msg : Option (List UInt8)) :
    AsyncNngConnector :=
  if ret ≠ 0 then { c with aio := .idle }.setError "Async read" ret
  else
    let c := c.nngRecvAio
    match msg with
    | none => c.setError "No message wile doing an async read" none
    | some data =>
      let c := if 0 < data.length then c.inData data else c
      { c with mState := .READING }

/-- What the two classes `Callback_` say when something fails. -/
structure Reports where
  result : Option String
  receive : Option String

def report (c : AsyncNngConnector) (text : Option String) (ret : Int) : AsyncNngConnector :=
  text.elim c fun text => c.setError text ret

/-- `Callback_` up to its call of `nng_recv`. -/
def Callback_ (reports : Reports) (c : AsyncNngConnector) (ret : Int) : AsyncNngConnector :=
  if ret ≠ 0 then { c with aio := .idle }.report reports.result ret
  else { c with aio := .idle, receiving := true }

/-- `Callback_` after `nng_recv` has returned a message. -/
def received (c : AsyncNngConnector) (buf : List UInt8) : AsyncNngConnector :=
  ({ c with receiving := false }.inData buf).nngRecvAio

end AsyncNngConnector

/-- The classes that start a receive. -/
inductive Receiver where
  | AsyncPipelinePull | AsyncRequest | AsyncReply | AsyncPair | AsyncSubscriber
deriving DecidableEq

/-- The callback a class gives its receives. -/
inductive Callback where
  | asyncReadMsg
  | Callback_ (reports : AsyncNngConnector.Reports)

namespace Receiver

open AsyncNngConnector

def AsyncPipeline.Callback : Callback := .Callback_ ⟨none, none⟩

def AsyncRequestReply.Callback : Callback :=
  .Callback_ ⟨some "Aio result on async request reply", some "Async receive request"⟩

def callback : Receiver → Callback
  | .AsyncPipelinePull => AsyncPipeline.Callback
  | .AsyncRequest => AsyncRequestReply.Callback
  | .AsyncReply => AsyncRequestReply.Callback
  | .AsyncPair => .asyncReadMsg
  | .AsyncSubscriber => .asyncReadMsg

/-- Pipelines do not say that they have started. -/
def start (r : Receiver) (c : AsyncNngConnector) : AsyncNngConnector :=
  let c := c.nngRecvAio
  match r with
  | .AsyncPipelinePull => c
  | _ => { c with mState := .STARTED }

/-- What happens to a connector: a message arrives, its receive fails, or the thread of the
callbacks goes on. -/
inductive Event where
  | arrive (msg : List UInt8)
  | fail (ret : Int)
  | turn
deriving DecidableEq

def arrive (c : AsyncNngConnector) (msg : List UInt8) : AsyncNngConnector :=
  match c.aio with
  | .posted => { c with aio := .done 0 (some msg) }
  | _ => { c with queue := c.queue ++ [msg] }

/-- Only a receive that waits fails. -/
def fail (r : Receiver) (c : AsyncNngConnector) (ret : Int) : AsyncNngConnector :=
  match c.aio, c.receiving, c.queue, r.callback with
  | .posted, _, _, _ => { c with aio := .done ret none }
  | _, true, [], .Callback_ reports => { c with receiving := false }.report reports.receive ret
  | _, _, _, _ => c

/-- One callback at a time; one that waits in `nng_recv` goes on when there is a message. -/
def turn (r : Receiver) (c : AsyncNngConnector) : AsyncNngConnector :=
  if c.receiving then
    match c.queue with
    | [] => c
    | buf :: queue => { c with queue := queue }.received buf
  else
    match c.aio with
    | .done ret msg =>
      match r.callback with
      | .asyncReadMsg => c.asyncReadMsg ret msg
      | .Callback_ reports => c.Callback_ reports ret
    | _ => c

def step (r : Receiver) (c : AsyncNngConnector) : Event → AsyncNngConnector
  | .arrive msg => arrive c msg
  | .fail ret => r.fail c ret
  | .turn => r.turn c

/-- A connector that was given a function and started, after some events. -/
def after (r : Receiver) (events : List Event) : AsyncNngConnector :=
  events.foldl r.step (r.start (setFunc {}))

/-- The messages that arrived. -/
def arrivals (events : List Event) : List (List UInt8) :=
  events.filterMap fun
    | .arrive msg => some msg
    | _ => none

/-- The callbacks have nothing to do until the next message. -/
def waits (c : AsyncNngConnector) : Bool :=
  if c.receiving then c.queue.isEmpty
  else
    match c.aio with
    | .done _ _ => false
    | _ => true

/-- Nothing fails and no message is empty. -/
def Event.Sound : Event → Prop
  | .arrive msg => msg ≠ []
  | .fail _ => False
  | .turn => True

/-- The callback takes the message that its receive has brought. -/
def Takes (r : Receiver) : Prop := r.callback = .asyncReadMsg

/-! ### Coming to rest -/

/-- What is left to do for the callbacks. -/
def due (c : AsyncNngConnector) : Nat :=
  3 * c.queue.length + if c.receiving then 1 else
    match c.aio with
    | .done _ _ => 2
    | _ => 0

theorem nngRecvAio_due {c : AsyncNngConnector} (h : c.receiving = false) :
    due c.nngRecvAio ≤ 3 * c.queue.length := by
  rw [nngRecvAio]
  cases hq : c.queue with
  | nil => simp [due, h]
  | cons msg queue =>
    simp only [due, h, List.length_cons]
    simp
    omega

@[simp] theorem due_setError (c : AsyncNngConnector) (msg : String) (ret : Option Int) :
    due (c.setError msg ret) = due c := rfl

@[simp] theorem due_report (c : AsyncNngConnector) (text : Option String) (ret : Int) :
    due (c.report text ret) = due c := by
  cases text <;> rfl

@[simp] theorem due_inData (c : AsyncNngConnector) (data : List UInt8) :
    due (c.inData data) = due c := by
  rw [inData]
  split <;> rfl

theorem asyncReadMsg_due {c : AsyncNngConnector} (h : c.receiving = false) (ret : Int)
    (msg : Option (List UInt8)) : due (c.asyncReadMsg ret msg) ≤ 3 * c.queue.length := by
  have hrecv := nngRecvAio_due h
  rw [asyncReadMsg]
  split
  · rw [due_setError]
    simp [due, h]
  · cases msg with
    | none => exact hrecv
    | some data =>
      dsimp only
      split
      · exact (due_inData _ data).le.trans hrecv
      · exact hrecv

theorem received_due {c : AsyncNngConnector} (buf : List UInt8) :
    due (c.received buf) ≤ 3 * c.queue.length := by
  have hinData : ({ c with receiving := false }.inData buf).queue = c.queue ∧
      ({ c with receiving := false }.inData buf).receiving = false := by
    rw [inData]
    split <;> exact ⟨rfl, rfl⟩
  rw [received]
  refine (nngRecvAio_due hinData.2).trans ?_
  rw [hinData.1]

/-- Every turn of a callback leaves it less to do. -/
theorem turn_due (r : Receiver) {c : AsyncNngConnector} (h : waits c = false) :
    due (r.turn c) < due c := by
  rw [waits] at h
  rw [turn]
  cases hreceiving : c.receiving with
  | true =>
    rw [hreceiving, if_pos rfl] at h
    rw [if_pos rfl]
    cases hq : c.queue with
    | nil =>
      rw [hq] at h
      cases h
    | cons buf queue =>
      refine (received_due buf).trans_lt ?_
      have hdue : due c = 3 * (queue.length + 1) + 1 := by simp [due, hq, hreceiving]
      dsimp only
      omega
  | false =>
    rw [hreceiving, if_neg Bool.false_ne_true] at h
    rw [if_neg Bool.false_ne_true]
    cases haio : c.aio with
    | idle =>
      rw [haio] at h
      cases h
    | posted =>
      rw [haio] at h
      cases h
    | done ret msg =>
      have hdue : due c = 3 * c.queue.length + 2 := by simp [due, hreceiving, haio]
      rw [hdue]
      dsimp only
      split
      · exact (asyncReadMsg_due hreceiving ret msg).trans_lt (by omega)
      · rw [Callback_]
        split
        · rw [due_report]
          simp [due, hreceiving]
        · simp [due]

theorem turns_wait (r : Receiver) (c : AsyncNngConnector) :
    ∃ n, waits ((List.replicate n .turn).foldl r.step c) = true := by
  induction hn : due c using Nat.strongRecOn generalizing c with
  | ind n ih =>
    cases h : waits c with
    | true => exact ⟨0, h⟩
    | false =>
      obtain ⟨m, hm⟩ := ih _ (hn ▸ turn_due r h) (r.turn c) rfl
      exact ⟨m + 1, hm⟩

/-! ### A callback that takes the message -/

/-- What has arrived was passed on, is in the receive, or is in the socket. -/
inductive Taken (arrived : List (List UInt8)) : AsyncNngConnector → Prop
  | posted {c : AsyncNngConnector} (aio : c.aio = .posted) (queue : c.queue = [])
      (receiving : c.receiving = false) (mInDataFunc : c.mInDataFunc = true)
      (calls : c.calls = arrived) : Taken arrived c
  | done {c : AsyncNngConnector} {msg : List UInt8} (aio : c.aio = .done 0 (some msg))
      (receiving : c.receiving = false) (mInDataFunc : c.mInDataFunc = true)
      (calls : c.calls ++ msg :: c.queue = arrived) : Taken arrived c

theorem Taken.arrive {arrived : List (List UInt8)} {c : AsyncNngConnector} (h : Taken arrived c)
    (msg : List UInt8) : Taken (arrived ++ [msg]) (arrive c msg) := by
  rw [Receiver.arrive]
  cases h with
  | posted aio queue receiving mInDataFunc calls =>
    rw [aio]
    refine .done rfl receiving mInDataFunc ?_
    dsimp only
    rw [queue, calls]
  | done aio receiving mInDataFunc calls =>
    simp only [aio]
    refine .done rfl receiving mInDataFunc ?_
    rw [← calls, List.append_assoc, List.cons_append]

theorem Taken.turn {arrived : List (List UInt8)} {r : Receiver} (hr : r.Takes)
    {c : AsyncNngConnector} (h : Taken arrived c) (hne : ∀ msg ∈ arrived, msg ≠ []) :
    Taken arrived (r.turn c) := by
  rw [Receiver.turn]
  cases h with
  | posted aio queue receiving mInDataFunc calls =>
    rw [receiving, if_neg Bool.false_ne_true, aio]
    exact .posted aio queue receiving mInDataFunc calls
  | done aio receiving mInDataFunc calls =>
    rename_i msg
    have hpos : 0 < msg.length := by
      apply List.length_pos_iff.mpr
      apply hne
      rw [← calls]
      exact List.mem_append_right _ List.mem_cons_self
    rw [receiving, if_neg Bool.false_ne_true, aio]
    dsimp only
    rw [show r.callback = .asyncReadMsg from hr]
    dsimp only
    rw [asyncReadMsg, if_neg (not_not.mpr rfl)]
    dsimp only
    rw [if_pos hpos, nngRecvAio]
    cases hq : c.queue with
    | nil =>
      rw [hq] at calls
      dsimp only
      rw [inData, if_pos mInDataFunc]
      exact .posted rfl rfl receiving mInDataFunc calls
    | cons next queue =>
      rw [hq] at calls
      dsimp only
      rw [inData, if_pos mInDataFunc]
      refine .done rfl receiving mInDataFunc ?_
      rw [← calls, List.append_assoc]
      rfl

/-! ### A callback that receives once more -/

/-- The messages that came with a receive that is done are left in it; the callback passes
on the ones after them. -/
inductive Skipped (arrived : List (List UInt8)) : AsyncNngConnector → Prop
  | posted {c : AsyncNngConnector} (aio : c.aio = .posted) (queue : c.queue = [])
      (receiving : c.receiving = false) (mInDataFunc : c.mInDataFunc = true)
      (even : arrived.length % 2 = 0) (calls : c.calls = everySecond arrived) : Skipped arrived c
  | done {c : AsyncNngConnector} {past : List (List UInt8)} {msg : List UInt8}
      (aio : c.aio = .done 0 (some msg)) (receiving : c.receiving = false)
      (mInDataFunc : c.mInDataFunc = true) (even : past.length % 2 = 0)
      (calls : c.calls = everySecond past) (queue : past ++ msg :: c.queue = arrived) :
      Skipped arrived c
  | receiving {c : AsyncNngConnector} {past : List (List UInt8)} {msg : List UInt8}
      (aio : c.aio = .idle) (receiving : c.receiving = true) (mInDataFunc : c.mInDataFunc = true)
      (even : past.length % 2 = 0) (calls : c.calls = everySecond past)
      (queue : past ++ msg :: c.queue = arrived) : Skipped arrived c

theorem Skipped.arrive {arrived : List (List UInt8)} {c : AsyncNngConnector}
    (h : Skipped arrived c) (msg : List UInt8) : Skipped (arrived ++ [msg]) (arrive c msg) := by
  rw [Receiver.arrive]
  cases h with
  | posted aio queue receiving mInDataFunc even calls =>
    rw [aio]
    refine .done rfl receiving mInDataFunc even calls ?_
    dsimp only
    rw [queue]
  | done aio receiving mInDataFunc even calls queue =>
    simp only [aio]
    refine .done rfl receiving mInDataFunc even calls ?_
    rw [← queue, List.append_assoc, List.cons_append]
  | receiving aio receiving mInDataFunc even calls queue =>
    rename_i past m
    simp only [aio]
    have hqueue : past ++ m :: (c.queue ++ [msg]) = arrived ++ [msg] := by
      rw [← queue, List.append_assoc, List.cons_append]
    exact .receiving rfl receiving mInDataFunc even calls hqueue

theorem Skipped.turn {arrived : List (List UInt8)} {r : Receiver} (hr : ¬ r.Takes)
    {c : AsyncNngConnector} (h : Skipped arrived c) : Skipped arrived (r.turn c) := by
  rw [Receiver.turn]
  cases h with
  | posted aio queue receiving mInDataFunc even calls =>
    rw [receiving, if_neg Bool.false_ne_true, aio]
    exact .posted aio queue receiving mInDataFunc even calls
  | done aio receiving mInDataFunc even calls queue =>
    rw [receiving, if_neg Bool.false_ne_true, aio]
    cases hcallback : r.callback with
    | asyncReadMsg => exact absurd hcallback hr
    | Callback_ reports =>
      dsimp only
      rw [Callback_, if_neg (not_not.mpr rfl)]
      exact .receiving rfl rfl mInDataFunc even calls queue
  | receiving aio receiving mInDataFunc even calls queue =>
    rename_i past msg
    rw [receiving, if_pos rfl]
    cases hq : c.queue with
    | nil => exact .receiving aio receiving mInDataFunc even calls queue
    | cons buf rest =>
      -- the message that is passed on is the one after the message that came with the receive
      rw [hq] at queue
      have heven : (past ++ [msg, buf]).length % 2 = 0 := by
        rw [List.length_append, List.length_cons, List.length_singleton]
        omega
      have hcalls : c.calls ++ [buf] = everySecond (past ++ [msg, buf]) := by
        rw [everySecond_append even, calls]
        rfl
      dsimp only
      rw [received, inData, if_pos mInDataFunc, nngRecvAio]
      cases rest with
      | nil =>
        subst queue
        exact .posted rfl rfl rfl mInDataFunc heven hcalls
      | cons next rest =>
        refine .done rfl rfl mInDataFunc heven hcalls ?_
        rw [← queue, List.append_assoc]
        rfl

/-! ### Runs -/

theorem after_concat (r : Receiver) (events : List Event) (e : Event) :
    r.after (events ++ [e]) = r.step (r.after events) e := by
  rw [after, List.foldl_append]
  rfl

theorem arrivals_concat (events : List Event) (e : Event) :
    arrivals (events ++ [e]) = arrivals events ++ arrivals [e] := List.filterMap_append

theorem arrivals_turns (events : List Event) (n : Nat) :
    arrivals (events ++ List.replicate n .turn) = arrivals events := by
  induction n with
  | zero => rw [List.replicate_zero, List.append_nil]
  | succ n ih =>
    rw [List.replicate_succ', ← List.append_assoc, arrivals_concat, ih]
    exact List.append_nil _

/-- The rule for runs in which nothing fails. -/
theorem after_invariant {r : Receiver} {P : List (List UInt8) → AsyncNngConnector → Prop}
    (hstart : P [] (r.after []))
    (harrive : ∀ arrived c msg, P arrived c → P (arrived ++ [msg]) (arrive c msg))
    (hturn : ∀ arrived c, (∀ msg ∈ arrived, msg ≠ []) → P arrived c → P arrived (r.turn c))
    {events : List Event} (he : ∀ e ∈ events, e.Sound) :
    P (arrivals events) (r.after events) ∧ ∀ msg ∈ arrivals events, msg ≠ [] := by
  induction events using List.reverseRecOn with
  | nil => exact ⟨hstart, by simp [arrivals]⟩
  | append_singleton events e ih =>
    obtain ⟨hP, hne⟩ := ih fun x hx => he x (List.mem_append_left _ hx)
    have hsound := he e (List.mem_append_right _ List.mem_cons_self)
    rw [after_concat, arrivals_concat]
    cases e with
    | arrive msg =>
      refine ⟨harrive _ _ msg hP, ?_⟩
      intro m hm
      obtain hm | hm := List.mem_append.mp hm
      · exact hne m hm
      · rw [List.mem_singleton.mp hm]
        exact hsound
    | fail ret => exact absurd hsound not_false
    | turn =>
      have hnone : arrivals events ++ arrivals [.turn] = arrivals events := List.append_nil _
      rw [hnone]
      exact ⟨hturn _ _ hne hP, hne⟩

theorem after_taken {r : Receiver} (hr : r.Takes) {events : List Event}
    (he : ∀ e ∈ events, e.Sound) : Taken (arrivals events) (r.after events) := by
  refine (after_invariant (P := Taken) ?_ (fun _ _ msg h => h.arrive msg)
    (fun _ _ hne h => h.turn hr hne) he).1
  cases r <;> exact .posted rfl rfl rfl rfl rfl

theorem after_skipped {r : Receiver} (hr : ¬ r.Takes) {events : List Event}
    (he : ∀ e ∈ events, e.Sound) : Skipped (arrivals events) (r.after events) := by
  refine (after_invariant (P := Skipped) ?_ (fun _ _ msg h => h.arrive msg)
    (fun _ _ _ h => h.turn hr) he).1
  cases r <;> exact .posted rfl rfl rfl rfl rfl rfl

theorem Taken.calls_of_waits {arrived : List (List UInt8)} {c : AsyncNngConnector}
    (h : Taken arrived c) (hw : waits c = true) : c.calls = arrived := by
  cases h with
  | posted aio queue receiving mInDataFunc calls => exact calls
  | done aio receiving mInDataFunc calls =>
    rw [waits, receiving, if_neg Bool.false_ne_true, aio] at hw
    cases hw

theorem Skipped.calls_of_waits {arrived : List (List UInt8)} {c : AsyncNngConnector}
    (h : Skipped arrived c) (hw : waits c = true) : c.calls = everySecond arrived := by
  cases h with
  | posted aio queue receiving mInDataFunc even calls => exact calls
  | done aio receiving mInDataFunc even calls queue =>
    rw [waits, receiving, if_neg Bool.false_ne_true, aio] at hw
    cases hw
  | receiving aio receiving mInDataFunc even calls queue =>
    rw [waits, receiving, if_pos rfl, List.isEmpty_iff] at hw
    rw [← queue, hw, everySecond_append even, calls]
    exact (List.append_nil _).symm

theorem sound_turns {events : List Event} (he : ∀ e ∈ events, e.Sound) (n : Nat) :
    ∀ e ∈ events ++ List.replicate n .turn, e.Sound := by
  intro e hmem
  obtain hmem | hmem := List.mem_append.mp hmem
  · exact he e hmem
  · rw [List.eq_of_mem_replicate hmem]
    trivial

theorem Taken.calls_append {arrived : List (List UInt8)} {c : AsyncNngConnector}
    (h : Taken arrived c) : c.calls <+: arrived := by
  cases h with
  | posted aio queue receiving mInDataFunc calls => exact ⟨[], by rw [List.append_nil, calls]⟩
  | done aio receiving mInDataFunc calls => exact ⟨_, calls⟩

/-- Callbacks come to rest, and have then passed on every message once and in order exactly
when they take it out of the receive that brought it, or there was none. Those that do are
never ahead. -/
theorem passed_on_iff (r : Receiver) {events : List Event} (he : ∀ e ∈ events, e.Sound) :
    (r.Takes → (r.after events).calls <+: arrivals events) ∧
      (∃ n, waits (r.after (events ++ List.replicate n .turn)) = true) ∧
      ∀ n, waits (r.after (events ++ List.replicate n .turn)) = true →
        ((r.after (events ++ List.replicate n .turn)).calls = arrivals events ↔
          r.Takes ∨ arrivals events = []) := by
  refine ⟨fun hr => (after_taken hr he).calls_append, ?_, ?_⟩
  · obtain ⟨n, hn⟩ := turns_wait r (r.after events)
    refine ⟨n, ?_⟩
    rwa [after, List.foldl_append]
  · intro n hn
    have hsound := sound_turns he n
    have harrivals := arrivals_turns events n
    by_cases hr : r.Takes
    · have hcalls := (after_taken hr hsound).calls_of_waits hn
      exact iff_of_true (hcalls.trans harrivals) (.inl hr)
    · have hcalls := (after_skipped hr hsound).calls_of_waits hn
      rw [hcalls, harrivals, everySecond_eq_self_iff, or_iff_right hr]

theorem passed_on_iff_pair :
    (Takes .AsyncPair → (after .AsyncPair [.arrive [1], .turn, .arrive [2]]).calls <+:
        arrivals [.arrive [1], .turn, .arrive [2]]) ∧
      (∃ n, waits (after .AsyncPair ([.arrive [1], .turn, .arrive [2]] ++
        List.replicate n .turn)) = true) ∧
      ∀ n, waits (after .AsyncPair ([.arrive [1], .turn, .arrive [2]] ++
          List.replicate n .turn)) = true →
        ((after .AsyncPair ([.arrive [1], .turn, .arrive [2]] ++ List.replicate n .turn)).calls =
            arrivals [.arrive [1], .turn, .arrive [2]] ↔
          Takes .AsyncPair ∨ arrivals [.arrive [1], .turn, .arrive [2]] = []) := by
  apply passed_on_iff
  intro e he
  simp only [List.mem_cons, List.not_mem_nil, or_false] at he
  obtain rfl | rfl | rfl := he
  · exact List.cons_ne_nil _ _
  · trivial
  · exact List.cons_ne_nil _ _

/-- Of two messages the pipeline passes on the second. -/
theorem first_message_skipped :
    waits (after .AsyncPipelinePull [.arrive [1], .turn, .arrive [2], .turn]) = true ∧
      arrivals [.arrive [1], .turn, .arrive [2], .turn] = [[1], [2]] ∧
      (after .AsyncPipelinePull [.arrive [1], .turn, .arrive [2], .turn]).calls = [[2]] := by
  decide

end Receiver

end Open3DStream
