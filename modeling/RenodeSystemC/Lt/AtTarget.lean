import Mathlib.Algebra.Order.BigOperators.Group.List
import RenodeSystemC.Lt.Memory
import RenodeSystemC.Native.NonBlocking

/-!
# The approximately-timed side of `at_target_1_phase`

`nb_transport_fw` performs a request at once and completes it, except every twentieth, which it
defers: the transaction goes into `m_response_PEQ`, due after the delays of the call, of the memory
and of the target, and `begin_response_method` performs and answers it. What the method waits for
next depends on how the initiator takes the answer: for the queue's event, for a time, or for
`END_RESP`. While it waits for anything else, notifications of the queue's event pass unseen.

**Theorem (`responses_exact`).** In every run each deferred request is answered exactly once, in
the order of the due times and never before its own; never more than one answer waits for its
`END_RESP`; memory and replies are those of the requests performed one by one; and no wakeup is
lost: as long as a request is in the queue the method will look at it, unless it waits for
`END_RESP`.
-/

namespace RenodeSystemC.AtTarget

open Lt Bytes
open NonBlocking (Phase SyncEnum)

/-! ## State -/

/-- A generic payload, and which payload object it is. -/
structure Transaction where
  id : Nat
  gp : Payload
  deriving DecidableEq

/-- What `begin_response_method` waits for. -/
inductive Trigger where
  /-- It runs, or will in this evaluation phase. -/
  | runnable
  /-- The event of `m_response_PEQ`. -/
  | peqEvent
  /-- `next_trigger(delay)`. -/
  | timeout (n : Notification Nat)
  /-- `m_end_resp_rcvd_event`. -/
  | endResp
  deriving DecidableEq

/-- `at_target_1_phase`, and the kernel as far as it sees it. -/
structure State (peq : PeqWithGet Transaction) where
  now : Nat
  requestCount : UInt64
  responsePeq : peq.Queue
  peqEvent : Notification Nat
  /-- `m_end_resp_rcvd_event` is notified, always for the next delta cycle. -/
  endRespRcvd : Bool
  trigger : Trigger
  target : Target

variable {peq : PeqWithGet Transaction}

variable (peq) in
/-- The constructor; the method is not initialized. -/
def State.init (target : Target) : State peq where
  now := 0
  requestCount := 1
  responsePeq := peq.empty
  peqEvent := .none
  endRespRcvd := false
  trigger := .peqEvent
  target := target

/-- The transactions in the queue. -/
def State.queued (s : State peq) : List (Timed Nat Transaction) := peq.scheduled s.responsePeq

/-! ## The functions -/

/-- `memory::get_delay`. -/
def getDelay (m : Memory) (gp : Payload) (delayTime : ScTime) : Memory × ScTime :=
  match gp.command with
  | .ignore => (if m.previousWarning then m else { m with previousWarning := true }, delayTime)
  | .write => (m, delayTime + m.writeDelay)
  | .read => (m, delayTime + m.readDelay)

/-- What `nb_transport_fw` leaves in its arguments, and returns. -/
structure Reply where
  gp : Payload
  phase : Phase
  delayTime : ScTime
  status : SyncEnum
  deriving DecidableEq

/-- `nb_transport_fw`; `none` is `REPORT_FATAL`, which ends the process. -/
def State.nbTransportFw (s : State peq) (trans : Transaction) (phase : Phase) (delayTime : ScTime) :
    Option (State peq × Reply) :=
  match phase with
  | .beginReq =>
    let count := s.requestCount
    let s := { s with requestCount := count + 1 }
    if count % 20 ≠ 0 then
      let (m, gp, delayTime) := s.target.targetMemory.operation trans.gp delayTime
      some ({ s with target := { s.target with targetMemory := m } },
        ⟨gp, .beginReq, delayTime + s.target.acceptDelay, .completed⟩)
    else
      let (m, delayTime) := getDelay s.target.targetMemory trans.gp delayTime
      let delayTime := delayTime + s.target.acceptDelay
      some ({ s with
        target := { s.target with targetMemory := m }
        responsePeq := peq.notify s.now s.responsePeq trans delayTime.toNat
        peqEvent := s.peqEvent.notify s.now (s.now + delayTime.toNat) },
        ⟨trans.gp, .endReq, s.target.acceptDelay, .updated⟩)
  | .endResp => some ({ s with endRespRcvd := true }, ⟨trans.gp, .endResp, delayTime, .completed⟩)
  | .endReq | .beginResp => none

/-- A call of `nb_transport_bw` with `BEGIN_RESP`. -/
structure Response where
  time : Nat
  /-- The transaction as it was taken from the queue. -/
  request : Transaction
  /-- The payload as it is passed on. -/
  gp : Payload
  returned : SyncEnum
  deriving DecidableEq

/-- The `switch` on what `nb_transport_bw` returned. -/
def nextTrigger (now : Nat) (delay : ScTime) : SyncEnum → Trigger
  | .completed => .timeout (Notification.none.notify now (now + delay.toNat))
  | .accepted => .endResp
  | .updated => .runnable

/-- `begin_response_method`, up to its end or the return of its next `nb_transport_bw`, which
returns `status` and leaves `delay`. -/
def State.beginResponseMethod (s : State peq) (status : SyncEnum) (delay : ScTime) :
    State peq × Option Response :=
  match peq.getNextTransaction s.now s.responsePeq with
  | .transaction transaction queue =>
    let (m, gp, _) := s.target.targetMemory.operation transaction.gp 0
    ({ s with
      responsePeq := queue
      target := { s.target with targetMemory := m }
      trigger := nextTrigger s.now delay status }, some ⟨s.now, transaction, gp, status⟩)
  | .null queue notified =>
    let event := match notified with
      | none => s.peqEvent
      | some t => s.peqEvent.notify s.now (s.now + t)
    ({ s with responsePeq := queue, peqEvent := event, trigger := .peqEvent }, none)

/-! ## The machine -/

inductive Event where
  /-- A call of `nb_transport_fw`, also from within `nb_transport_bw`. -/
  | nbTransportFw (trans : Transaction) (phase : Phase) (delayTime : ScTime)
  /-- The method runs; the next `nb_transport_bw` returns `status` and leaves `delay`. -/
  | run (status : SyncEnum) (delay : ScTime)
  /-- The delta notification phase. -/
  | deltaCycle
  /-- Nothing is left to do at this time, and time goes on to `t`. -/
  | advance (t : Nat)
  deriving DecidableEq

inductive Output where
  /-- A call of `nb_transport_fw`, when it was made and what it returned. -/
  | forward (now : Nat) (trans : Transaction) (phase : Phase) (delayTime : ScTime) (reply : Reply)
  | backward (r : Response)
  deriving DecidableEq

/-- Some event is notified for the next delta cycle. -/
def State.deltaPending (s : State peq) : Bool :=
  s.peqEvent = .delta ∨ s.endRespRcvd = true ∨ s.trigger = .timeout .delta

/-- The delta notifications; those the method waits for wake it. -/
def State.deltaCycle (s : State peq) : State peq :=
  let wakes : Prop := s.trigger = .peqEvent ∧ s.peqEvent = .delta ∨
    s.trigger = .endResp ∧ s.endRespRcvd = true ∨ s.trigger = .timeout .delta
  { s with
    peqEvent := if s.peqEvent = .delta then .none else s.peqEvent
    endRespRcvd := false
    trigger := if wakes then .runnable else s.trigger }

/-- A notification is not for a time before `t`. -/
def notBefore (t : Nat) : Notification Nat → Prop
  | .timed u => t ≤ u
  | _ => True

instance (t : Nat) : ∀ n, Decidable (notBefore t n)
  | .timed _ => inferInstanceAs (Decidable (_ ≤ _))
  | .none | .delta => inferInstanceAs (Decidable True)

/-- Time can go on to `t`: nothing is left to do now and no notification is passed. -/
def State.canAdvance (s : State peq) (t : Nat) : Prop :=
  s.now < t ∧ s.trigger ≠ .runnable ∧ s.deltaPending = false ∧ notBefore t s.peqEvent ∧
    match s.trigger with
    | .timeout n => notBefore t n
    | _ => True

instance (s : State peq) (t : Nat) : Decidable (s.canAdvance t) := by
  unfold State.canAdvance
  cases s.trigger <;> infer_instance

/-- Time goes on, and the notifications for `t` wake the method. -/
def State.advance (s : State peq) (t : Nat) : State peq :=
  let wakes : Prop :=
    s.trigger = .peqEvent ∧ s.peqEvent = .timed t ∨ s.trigger = .timeout (.timed t)
  { s with
    now := t
    peqEvent := if s.peqEvent = .timed t then .none else s.peqEvent
    trigger := if wakes then .runnable else s.trigger }

def step (s : State peq) : Event → Option (State peq × List Output)
  | .nbTransportFw transaction phase delayTime =>
    match s.nbTransportFw transaction phase delayTime with
    | none => none
    | some (s', reply) => some (s', [.forward s.now transaction phase delayTime reply])
  | .run status delay =>
    if s.trigger = .runnable then
      let (s', r) := s.beginResponseMethod status delay
      some (s', (r.map Output.backward).toList)
    else none
  | .deltaCycle =>
    if s.trigger ≠ .runnable ∧ s.deltaPending = true then some (s.deltaCycle, []) else none
  | .advance t => if s.canAdvance t then some (s.advance t, []) else none

variable (peq) in
/-- The target with its initiator, from the start of the simulation. -/
def atTarget (target : Target) : Machine (State peq) Event Output where
  init := .init peq target
  step := step

/-! ## Traces -/

/-- The time at which a deferred request is due. -/
def dueTime (slot : Slot) (now : Nat) (command : Command) (delayTime : ScTime) : Nat :=
  let delayTime := match command with
    | .ignore => delayTime
    | .write => delayTime + slot.writeDelay
    | .read => delayTime + slot.readDelay
  now + (delayTime + slot.acceptDelay).toNat

def Output.status : Output → Option SyncEnum
  | .forward _ _ .beginReq _ reply => some reply.status
  | _ => none

def Output.deferred (slot : Slot) : Output → Option (Timed Nat Transaction)
  | .forward now request .beginReq delayTime reply =>
    if reply.status = .updated then some ⟨dueTime slot now request.gp.command delayTime, request⟩
    else none
  | _ => none

def Output.response : Output → Option Response
  | .backward r => some r
  | _ => none

/-- The request whose operation has been performed, with the status and the data it was left
with. -/
def Output.performed : Output → Option (Payload × ResponseStatus × List UInt8)
  | .forward _ request .beginReq _ reply =>
    if reply.status = .completed then some (request.gp, reply.gp.responseStatus, reply.gp.data)
    else none
  | .backward r => some (r.request.gp, r.gp.responseStatus, r.gp.data)
  | _ => none

/-- What `nb_transport_fw` returned for the requests, in the order of the calls. -/
def statuses (tr : List Output) : List SyncEnum := tr.filterMap Output.status

/-- The deferred requests with their due times, in the order of the calls. -/
def deferred (slot : Slot) (tr : List Output) : List (Timed Nat Transaction) :=
  tr.filterMap (Output.deferred slot)

def responses (tr : List Output) : List Response := tr.filterMap Output.response

/-- The requests in the order in which they were performed. -/
def performed (tr : List Output) : List (Payload × ResponseStatus × List UInt8) :=
  tr.filterMap Output.performed

def endResps (tr : List Output) : Nat :=
  tr.countP fun o => match o with
    | .forward _ _ .endResp _ _ => true
    | _ => false

/-- The answers that the initiator has accepted, to end them with `END_RESP`. -/
def acceptedResps (tr : List Output) : Nat :=
  tr.countP fun o => match o with
    | .backward r => r.returned = .accepted
    | _ => false

/-- A memory of `size` bytes performs a request: its bytes afterwards, the status and the data. -/
def perform (size : Nat) (a : Bytes) (gp : Payload) : Bytes × ResponseStatus × List UInt8 :=
  if gp.address.toNat + gp.data.length < size then
    match gp.command with
    | .read => (a, .ok, a.load gp.address.toNat gp.data.length)
    | .write => (a.store gp.address.toNat gp.data, .ok, gp.data)
    | .ignore => (a, .ok, gp.data)
  else (a, .addressError, gp.data)

/-! ## One operation -/

theorem getDelay_memory (m : Memory) (gp : Payload) (d : ScTime) :
    (getDelay m gp d).1.memory = m.memory ∧ (getDelay m gp d).1.memorySize = m.memorySize ∧
      (getDelay m gp d).1.readDelay = m.readDelay ∧
      (getDelay m gp d).1.writeDelay = m.writeDelay := by
  unfold getDelay
  split
  · split_ifs <;> exact ⟨rfl, rfl, rfl, rfl⟩
  · exact ⟨rfl, rfl, rfl, rfl⟩
  · exact ⟨rfl, rfl, rfl, rfl⟩

/-- An operation is that of a memory of the same size, whatever the delay. -/
theorem operation_eq_perform {m : Memory} (hsize : m.memorySize.toNat ≤ 2 ^ 28) (gp : Payload)
    (d : ScTime) :
    ((m.operation gp d).1.memory, (m.operation gp d).2.1.responseStatus,
      (m.operation gp d).2.1.data) = perform m.memorySize.toNat m.memory gp := by
  have hok : m.checkAddress gp = .ok ↔ gp.address.toNat + gp.data.length < m.memorySize.toNat :=
    checkAddress_eq_ok_iff hsize
  have hcommand := unsupported_command gp
  unfold perform
  split_ifs with hin
  · have hcheck := hok.2 hin
    cases hc : gp.command with
    | read =>
      obtain ⟨hm, hdata, -⟩ := operation_read d hc hcheck
      rw [operation_status, hcheck, hm, hdata]
    | write =>
      obtain ⟨hm, hdata, -⟩ := operation_write d hc hcheck
      rw [operation_status, hcheck, hm, hdata]
    | ignore =>
      rw [hc] at hcommand
      simp only [hcheck, Memory.operation, Memory.execute, hcommand]
      split_ifs <;> simp [Payload.setResponseStatus, unsupported_data]
  · have hcheck := checkAddress_eq_error (fun h => hin (hok.1 h))
    rw [operation_status, hcheck]
    simp only [Memory.operation, Memory.execute, hcheck]
    cases hc : (unsupported gp).command with
    | ignore =>
      dsimp only
      split_ifs <;> simp [Payload.setResponseStatus, unsupported_data]
    | read | write => simp [Payload.setResponseStatus, unsupported_data]

/-! ## One step -/

/-- The target performs a request as a memory of its size does, and keeps its configuration. -/
structure Performs (target target' : Target) (request gp : Payload) : Prop where
  slot : target'.slot = target.slot
  result : (target'.targetMemory.memory, gp.responseStatus, gp.data) =
    perform target.slot.size target.targetMemory.memory request

theorem performs_operation {target : Target} (hsize : target.slot.size ≤ 2 ^ 28) (gp : Payload)
    (d : ScTime) :
    Performs target { target with targetMemory := (target.targetMemory.operation gp d).1 } gp
      (target.targetMemory.operation gp d).2.1 := by
  obtain ⟨hms, hread, hwrite⟩ := operation_config target.targetMemory gp d
  refine ⟨?_, operation_eq_perform hsize gp d⟩
  simp only [Target.slot, hms, hread, hwrite]

/-- What a step does, in terms of the transactions in the queue. -/
inductive Stepped (s : State peq) : Event → State peq → List Output → Prop
  | completed {request : Transaction} {delayTime : ScTime} {target : Target} {reply : Reply}
      (hcount : s.requestCount % 20 ≠ 0) (hperforms : Performs s.target target request.gp reply.gp)
      (hreply : reply.status = .completed) :
      Stepped s (.nbTransportFw request .beginReq delayTime)
        { s with requestCount := s.requestCount + 1, target := target }
        [.forward s.now request .beginReq delayTime reply]
  | deferred {request : Transaction} {delayTime : ScTime} {target : Target} {reply : Reply}
      {queue : peq.Queue} {due : Nat} (hcount : s.requestCount % 20 = 0)
      (hslot : target.slot = s.target.slot)
      (hmem : target.targetMemory.memory = s.target.targetMemory.memory)
      (hdue : due = dueTime s.target.slot s.now request.gp.command delayTime)
      (hq : peq.scheduled queue = schedule ⟨due, request⟩ s.queued)
      (hreply : reply.status = .updated) :
      Stepped s (.nbTransportFw request .beginReq delayTime)
        { s with
          requestCount := s.requestCount + 1
          target := target
          responsePeq := queue
          peqEvent := s.peqEvent.notify s.now due }
        [.forward s.now request .beginReq delayTime reply]
  | endResp {request : Transaction} {delayTime : ScTime} {reply : Reply} :
      Stepped s (.nbTransportFw request .endResp delayTime) { s with endRespRcvd := true }
        [.forward s.now request .endResp delayTime reply]
  | answered (htrigger : s.trigger = .runnable) {d : Nat} {request : Transaction}
      {rest : List (Timed Nat Transaction)} {queue : peq.Queue} {target : Target} {gp : Payload}
      {status : SyncEnum} {delay : ScTime} (hs : s.queued = ⟨d, request⟩ :: rest) (hd : d ≤ s.now)
      (hq : peq.scheduled queue = rest) (hperforms : Performs s.target target request.gp gp) :
      Stepped s (.run status delay)
        { s with
          responsePeq := queue
          target := target
          trigger := nextTrigger s.now delay status }
        [.backward ⟨s.now, request, gp, status⟩]
  | suspended (htrigger : s.trigger = .runnable) {d : Nat} {request : Transaction}
      {rest : List (Timed Nat Transaction)} {queue : peq.Queue} {status : SyncEnum}
      {delay : ScTime} (hs : s.queued = ⟨d, request⟩ :: rest) (hd : s.now < d)
      (hq : peq.scheduled queue = s.queued) :
      Stepped s (.run status delay)
        { s with responsePeq := queue, peqEvent := s.peqEvent.notify s.now d, trigger := .peqEvent }
        []
  | drained (htrigger : s.trigger = .runnable) {queue : peq.Queue} {status : SyncEnum}
      {delay : ScTime} (hs : s.queued = []) (hq : peq.scheduled queue = []) :
      Stepped s (.run status delay) { s with responsePeq := queue, trigger := .peqEvent } []
  | delta (htrigger : s.trigger ≠ .runnable) (hpending : s.deltaPending = true) :
      Stepped s .deltaCycle s.deltaCycle []
  | advanced {t : Nat} (h : s.canAdvance t) : Stepped s (.advance t) (s.advance t) []

/-- The time that `notify` is called with is the due time. -/
theorem toNat_getDelay (target : Target) (now : Nat) (gp : Payload) (delayTime : ScTime) :
    now + ((getDelay target.targetMemory gp delayTime).2 + target.acceptDelay).toNat =
      dueTime target.slot now gp.command delayTime := by
  unfold getDelay dueTime
  cases gp.command <;> rfl

theorem stepped_request {s s' : State peq} {o : List Output} {request : Transaction}
    {delayTime : ScTime} (hsize : s.target.slot.size ≤ 2 ^ 28)
    (h : step s (.nbTransportFw request .beginReq delayTime) = some (s', o)) :
    Stepped s (.nbTransportFw request .beginReq delayTime) s' o := by
  simp only [step, State.nbTransportFw] at h
  split at h
  · cases h
  · rename_i s₁ reply heq
    split_ifs at heq with hcount <;> cases heq <;> cases h
    · exact .completed hcount (performs_operation hsize request.gp delayTime) rfl
    · obtain ⟨hmem, hms, hread, hwrite⟩ :=
        getDelay_memory s.target.targetMemory request.gp delayTime
      have hslot : Target.slot { s.target with
          targetMemory := (getDelay s.target.targetMemory request.gp delayTime).1 } =
            s.target.slot := by
        simp only [Target.slot, hms, hread, hwrite]
      simp only [toNat_getDelay]
      refine .deferred (not_not.1 hcount) hslot hmem rfl ?_ rfl
      rw [peq.scheduled_notify, toNat_getDelay]
      rfl

theorem stepped_run {s s' : State peq} {o : List Output} {status : SyncEnum} {delay : ScTime}
    (hsize : s.target.slot.size ≤ 2 ^ 28) (h : step s (.run status delay) = some (s', o)) :
    Stepped s (.run status delay) s' o := by
  simp only [step] at h
  split_ifs at h with htrigger
  simp only [State.beginResponseMethod] at h
  cases hs : s.queued with
  | nil =>
    obtain ⟨queue, hnext, hq⟩ := peq.getNextTransaction_nil s.now hs
    rw [hnext] at h
    cases h
    exact .drained htrigger hs hq
  | cons x rest =>
    obtain ⟨d, request⟩ := x
    rcases Nat.lt_or_ge s.now d with hlt | hle
    · obtain ⟨queue, hnext, hq⟩ := peq.getNextTransaction_early hs hlt
      rw [hnext] at h
      simp only [Nat.add_sub_of_le hlt.le] at h
      cases h
      exact .suspended htrigger hs hlt hq
    · obtain ⟨queue, hnext, hq⟩ := peq.getNextTransaction_due hs hle
      rw [hnext] at h
      cases h
      exact .answered htrigger hs hle hq (performs_operation hsize request.gp 0)

theorem stepped {s s' : State peq} {e : Event} {o : List Output}
    (hsize : s.target.slot.size ≤ 2 ^ 28) (h : step s e = some (s', o)) : Stepped s e s' o := by
  cases e with
  | nbTransportFw request phase delayTime =>
    cases phase with
    | beginReq => exact stepped_request hsize h
    | endResp =>
      cases h
      exact .endResp
    | endReq | beginResp => cases h
  | run status delay => exact stepped_run hsize h
  | deltaCycle =>
    simp only [step] at h
    split_ifs at h with hc
    cases h
    exact .delta hc.1 hc.2
  | advance t =>
    simp only [step] at h
    split_ifs at h with hc
    cases h
    exact .advanced hc

/-! ## The method wakes up -/

/-- While the method waits for the queue's event, nothing in the queue is overdue and the event is
notified in time; a timeout is notified. -/
structure Timely (s : State peq) : Prop where
  inOrder : s.queued.Pairwise fun a b => a.due ≤ b.due
  pending : s.peqEvent.Pending s.now
  wakeup : s.trigger = .peqEvent → ∀ x ∈ s.queued, s.now ≤ x.due ∧ s.peqEvent.WakesBy s.now x.due
  timeout : ∀ n, s.trigger = .timeout n → n ≠ .none ∧ n.Pending s.now

theorem timely_init (target : Target) : Timely (State.init peq target) := by
  have hnone : (State.init peq target).queued = [] := peq.scheduled_empty
  refine ⟨?_, trivial, ?_, fun n hn => Trigger.noConfusion hn⟩
  · rw [hnone]
    exact List.Pairwise.nil
  · rw [hnone]
    exact fun _ => List.forall_mem_nil _

/-- The method goes on after an answer. -/
theorem timeout_nextTrigger {now : Nat} {delay : ScTime} {status : SyncEnum} {n : Notification Nat}
    (h : nextTrigger now delay status = .timeout n) : n ≠ .none ∧ n.Pending now := by
  cases status with
  | accepted | updated => cases h
  | completed =>
    cases h
    unfold Notification.notify
    split_ifs with hd
    · exact ⟨by simp, trivial⟩
    · exact ⟨by simp, not_le.1 hd⟩

/-- A woken method runs; one that is not woken waits for what it waited for. -/
theorem timely_deltaCycle {s : State peq} (h : Timely s) : Timely s.deltaCycle := by
  have hpending : s.deltaCycle.peqEvent.Pending s.now := by
    unfold State.deltaCycle
    dsimp only
    split_ifs
    · trivial
    · exact h.pending
  by_cases hwakes : s.trigger = .peqEvent ∧ s.peqEvent = .delta ∨
      s.trigger = .endResp ∧ s.endRespRcvd = true ∨ s.trigger = .timeout .delta
  · have htrigger : s.deltaCycle.trigger = .runnable := if_pos hwakes
    exact ⟨h.inOrder, hpending, by simp [htrigger], by simp [htrigger]⟩
  · have htrigger : s.deltaCycle.trigger = s.trigger := if_neg hwakes
    refine ⟨h.inOrder, hpending, ?_, ?_⟩
    · intro hp
      rw [htrigger] at hp
      have hne : s.peqEvent ≠ .delta := fun hd => hwakes (Or.inl ⟨hp, hd⟩)
      have hsame : s.deltaCycle.peqEvent = s.peqEvent := if_neg hne
      rw [hsame]
      exact h.wakeup hp
    · intro n hn
      rw [htrigger] at hn
      exact h.timeout n hn

theorem timely_advance {s : State peq} (h : Timely s) {t : Nat} (ht : s.canAdvance t) :
    Timely (s.advance t) := by
  obtain ⟨hlt, hne, hdelta, hpeq, hout⟩ := ht
  have hpending : (s.advance t).peqEvent.Pending t := by
    unfold State.advance
    dsimp only
    split_ifs with he
    · trivial
    · cases hp : s.peqEvent with
      | none | delta => trivial
      | timed u =>
        rw [hp] at hpeq he
        exact lt_of_le_of_ne hpeq (fun htu => he (by rw [htu]))
  by_cases hwakes : s.trigger = .peqEvent ∧ s.peqEvent = .timed t ∨ s.trigger = .timeout (.timed t)
  · have htrigger : (s.advance t).trigger = .runnable := if_pos hwakes
    exact ⟨h.inOrder, hpending, by simp [htrigger], by simp [htrigger]⟩
  · have htrigger : (s.advance t).trigger = s.trigger := if_neg hwakes
    refine ⟨h.inOrder, hpending, ?_, ?_⟩
    · intro hp
      rw [htrigger] at hp
      have hsame : (s.advance t).peqEvent = s.peqEvent := if_neg fun he => hwakes (Or.inl ⟨hp, he⟩)
      rw [hsame]
      intro x hx
      obtain ⟨-, hwake⟩ := h.wakeup hp x hx
      cases he : s.peqEvent with
      | none =>
        rw [he] at hwake
        cases hwake
      | delta => simp [State.deltaPending, he] at hdelta
      | timed u =>
        rw [he] at hwake hpeq
        exact ⟨le_trans hpeq hwake, hwake⟩
    · intro n hn
      rw [htrigger] at hn
      obtain ⟨hnone, -⟩ := h.timeout n hn
      refine ⟨hnone, ?_⟩
      rw [hn] at hout
      cases n with
      | none | delta => trivial
      | timed u =>
        have htu : t ≠ u := by
          intro htu
          rw [← htu] at hn
          exact hwakes (Or.inr hn)
        exact lt_of_le_of_ne hout htu

theorem timely_step {s s' : State peq} {e : Event} {o : List Output} (h : Timely s)
    (hs : Stepped s e s' o) : Timely s' := by
  cases hs with
  | completed => exact ⟨h.inOrder, h.pending, h.wakeup, h.timeout⟩
  | @deferred request delayTime target reply queue due hcount hslot hmem hdue hq hreply =>
    have hle : s.now ≤ due := by
      rw [hdue]
      exact Nat.le_add_right _ _
    refine ⟨?_, h.pending.notify, ?_, h.timeout⟩
    · change (peq.scheduled queue).Pairwise _
      rw [hq]
      exact pairwise_schedule h.inOrder
    · intro hp
      change ∀ x ∈ peq.scheduled queue, _
      rw [hq]
      intro x hx
      rcases mem_schedule.1 hx with rfl | hx
      · exact ⟨hle, Notification.wakesBy_notify hle⟩
      · obtain ⟨hnow, hwake⟩ := h.wakeup hp x hx
        exact ⟨hnow, hwake.notify hnow⟩
  | endResp => exact ⟨h.inOrder, h.pending, h.wakeup, h.timeout⟩
  | @answered htrigger d request rest queue target gp status delay hs hd hq hperforms =>
    have hord := h.inOrder
    rw [hs] at hord
    refine ⟨?_, h.pending, ?_, fun n hn => timeout_nextTrigger hn⟩
    · change (peq.scheduled queue).Pairwise _
      rw [hq]
      exact hord.of_cons
    · intro hp
      cases status <;> cases hp
  | @suspended htrigger d request rest queue status delay hs hd hq =>
    have hord := h.inOrder
    rw [hs] at hord
    refine ⟨?_, h.pending.notify, ?_, fun n hn => Trigger.noConfusion hn⟩
    · change (peq.scheduled queue).Pairwise _
      rw [hq]
      exact h.inOrder
    · intro _
      change ∀ x ∈ peq.scheduled queue, _
      rw [hq, hs]
      intro x hx
      have hdx : d ≤ x.due := by
        rcases List.mem_cons.1 hx with rfl | hx
        · exact le_rfl
        · exact (List.pairwise_cons.1 hord).1 x hx
      exact ⟨hd.le.trans hdx, (Notification.wakesBy_notify hd.le).mono hdx⟩
  | @drained htrigger queue status delay hs hq =>
    have hnil : (State.queued { s with responsePeq := queue, trigger := .peqEvent }) = [] := hq
    refine ⟨?_, h.pending, ?_, fun n hn => Trigger.noConfusion hn⟩
    · rw [hnil]
      exact List.Pairwise.nil
    · rw [hnil]
      exact fun _ => List.forall_mem_nil _
  | delta => exact timely_deltaCycle h
  | advanced hadvance => exact timely_advance h hadvance

/-! ## Every deferred request is answered -/

def Event.IsCall : Event → Prop
  | .nbTransportFw _ _ _ => True
  | _ => False

/-- The queue is empty, or the method waits for an `END_RESP` that has not come. -/
def State.Settled (s : State peq) : Prop :=
  s.queued = [] ∨ s.trigger = .endResp ∧ s.endRespRcvd = false

/-- How long the method still waits for its timeout. -/
def Trigger.remaining (now : Nat) : Trigger → Nat
  | .timeout (.timed u) => u - now
  | _ => 0

/-- What the kernel and the method still have to do in this and the next evaluation phase. -/
def State.stage (s : State peq) : Nat :=
  (if s.peqEvent = .delta then 2 else 0) + (if s.endRespRcvd then 2 else 0) +
    (if s.trigger = .timeout .delta then 2 else 0) + if s.trigger = .runnable then 1 else 0

/-- How long the transactions in the queue still have to wait. -/
def waits (now : Nat) (l : List (Timed Nat Transaction)) : Nat := (l.map fun x => x.due - now).sum

/-- An answer is worth more than the longest timeout it can cause. -/
def State.rank (s : State peq) : Nat :=
  (2 ^ 65 + 4) * s.queued.length + 2 * waits s.now s.queued + 2 * s.trigger.remaining s.now +
    s.stage

theorem waits_antitone {now t : Nat} (h : now ≤ t) (l : List (Timed Nat Transaction)) :
    waits t l ≤ waits now l := by
  apply List.sum_le_sum
  intro x _
  exact Nat.sub_le_sub_left h x.due

/-- When time goes on, a transaction that is not overdue has to wait at least one tick less. -/
theorem waits_lt {now t : Nat} (ht : now < t) {l : List (Timed Nat Transaction)} (hne : l ≠ [])
    (h : ∀ x ∈ l, t ≤ x.due) : waits t l < waits now l := by
  cases l with
  | nil => exact absurd rfl hne
  | cons x l =>
    have hrest := waits_antitone ht.le l
    have hx := h x List.mem_cons_self
    unfold waits at hrest ⊢
    rw [List.map_cons, List.sum_cons, List.map_cons, List.sum_cons]
    omega

/-- The timeout after an answer, and the way to it. -/
theorem nextTrigger_bound (now : Nat) (delay : ScTime) (status : SyncEnum) :
    2 * (nextTrigger now delay status).remaining now +
        ((if nextTrigger now delay status = .timeout .delta then 2 else 0) +
          if nextTrigger now delay status = .runnable then 1 else 0) < 2 ^ 65 + 4 := by
  have hdelay := delay.toNat_lt
  cases status with
  | accepted | updated => simp [nextTrigger, Trigger.remaining]
  | completed =>
    unfold nextTrigger Notification.notify
    split_ifs with h₁ h₂ h₃ <;> simp only [Trigger.remaining] at * <;> omega

theorem rank_answered {s s' : State peq} {x : Timed Nat Transaction}
    {rest : List (Timed Nat Transaction)} {delay : ScTime} {status : SyncEnum}
    (htrigger : s.trigger = .runnable) (hs : s.queued = x :: rest) (hq : s'.queued = rest)
    (hnow : s'.now = s.now) (hevent : s'.peqEvent = s.peqEvent)
    (hrcvd : s'.endRespRcvd = s.endRespRcvd)
    (hnext : s'.trigger = nextTrigger s.now delay status) : s'.rank < s.rank := by
  have hbound := nextTrigger_bound s.now delay status
  have hzero : Trigger.runnable.remaining s.now = 0 := rfl
  unfold State.rank State.stage waits
  rw [hs, hq, hnow, hevent, hrcvd, hnext, htrigger, hzero, List.length_cons, List.map_cons,
    List.sum_cons]
  simp only [reduceCtorEq, if_false, if_true]
  omega

theorem rank_suspended {s s' : State peq} {d : Nat} (htrigger : s.trigger = .runnable)
    (hq : s'.queued = s.queued) (hnow : s'.now = s.now) (hd : s.now < d)
    (hevent : s'.peqEvent = s.peqEvent.notify s.now d) (hrcvd : s'.endRespRcvd = s.endRespRcvd)
    (hnext : s'.trigger = .peqEvent) : s'.rank < s.rank := by
  unfold State.rank State.stage
  rw [hq, hnow, hevent, hrcvd, hnext, htrigger]
  simp only [Trigger.remaining, Notification.notify_eq_delta_iff hd, reduceCtorEq, if_false,
    if_true]
  omega

theorem rank_deltaCycle {s : State peq} (htrigger : s.trigger ≠ .runnable)
    (hpending : s.deltaPending = true) : s.deltaCycle.rank < s.rank := by
  have hcleared : s.deltaCycle.peqEvent ≠ .delta := by
    unfold State.deltaCycle
    dsimp only
    split_ifs with h
    · simp
    · exact h
  have hqueued : s.deltaCycle.queued = s.queued := rfl
  have hnow : s.deltaCycle.now = s.now := rfl
  have hrcvd : s.deltaCycle.endRespRcvd = false := rfl
  simp only [State.deltaPending, decide_eq_true_eq] at hpending
  unfold State.rank State.stage
  rw [hqueued, hnow, hrcvd, if_neg hcleared, if_neg htrigger]
  by_cases hwakes : s.trigger = .peqEvent ∧ s.peqEvent = .delta ∨
      s.trigger = .endResp ∧ s.endRespRcvd = true ∨ s.trigger = .timeout .delta
  · have hnext : s.deltaCycle.trigger = .runnable := if_pos hwakes
    rw [hnext]
    simp only [Trigger.remaining, reduceCtorEq, if_false, if_true]
    rcases hwakes with ⟨-, h⟩ | ⟨-, h⟩ | h <;> simp only [h, if_true] <;> omega
  · have hnext : s.deltaCycle.trigger = s.trigger := if_neg hwakes
    rw [hnext, if_neg htrigger]
    have hne : s.trigger ≠ .timeout .delta := fun h => hwakes (Or.inr (Or.inr h))
    simp only [hne, or_false] at hpending
    rcases hpending with h | h <;> simp only [h, if_true, Bool.false_eq_true, if_false] <;> omega

/-- When time goes on, some transaction or the timeout is waited for. -/
theorem rank_advance {s : State peq} (h : Timely s) {t : Nat} (ht : s.canAdvance t)
    (hne : ¬ s.Settled) : (s.advance t).rank < s.rank := by
  obtain ⟨hlt, htrigger, hdelta, hpeq, hout⟩ := ht
  obtain ⟨hqueue, hwaits⟩ := not_or.1 hne
  have hqueued : (s.advance t).queued = s.queued := rfl
  have hnow : (s.advance t).now = t := rfl
  have hrcvd : (s.advance t).endRespRcvd = s.endRespRcvd := rfl
  have hantitone := waits_antitone hlt.le s.queued
  simp only [State.deltaPending, decide_eq_false_iff_not, not_or] at hdelta
  obtain ⟨hdelta, hrcvd', htimeout⟩ := hdelta
  have hevent : (s.advance t).peqEvent ≠ .delta := by
    unfold State.advance
    dsimp only
    split_ifs
    · simp
    · exact hdelta
  have hnext : (s.advance t).trigger = .runnable ∨ (s.advance t).trigger = s.trigger := by
    unfold State.advance
    dsimp only
    split_ifs
    · exact Or.inl rfl
    · exact Or.inr rfl
  unfold State.rank State.stage
  rw [hqueued, hnow, hrcvd, if_neg hevent, if_neg hdelta, if_neg htrigger, if_neg htimeout]
  cases hw : s.trigger with
  | runnable => exact absurd hw htrigger
  | endResp => exact absurd ⟨hw, Bool.eq_false_iff.2 hrcvd'⟩ hwaits
  | peqEvent =>
    have hwait : waits t s.queued < waits s.now s.queued := by
      apply waits_lt hlt hqueue
      intro x hx
      obtain ⟨-, hwake⟩ := h.wakeup hw x hx
      cases he : s.peqEvent with
      | none =>
        rw [he] at hwake
        cases hwake
      | delta => exact absurd he hdelta
      | timed u =>
        rw [he] at hwake hpeq
        exact le_trans hpeq hwake
    rcases hnext with hnext | hnext
    · rw [hnext]
      simp only [Trigger.remaining, reduceCtorEq, if_false, if_true]
      omega
    · rw [hnext, hw]
      simp only [Trigger.remaining, reduceCtorEq, if_false]
      omega
  | timeout n =>
    cases n with
    | none => exact absurd rfl (h.timeout _ hw).1
    | delta => exact absurd hw htimeout
    | timed u =>
      rw [hw] at hout
      have htu : t ≤ u := hout
      rcases hnext with hnext | hnext
      · rw [hnext]
        simp only [Trigger.remaining, reduceCtorEq, if_false, if_true]
        omega
      · rw [hnext, hw]
        simp only [Trigger.remaining, Trigger.timeout.injEq, reduceCtorEq, if_false]
        omega

/-- **Without new calls every step brings the method closer to an empty queue**, or to a wait for
`END_RESP`. -/
theorem rank_step {s s' : State peq} {e : Event} {o : List Output} (h : Timely s)
    (he : ¬ e.IsCall) (hs : Stepped s e s' o) :
    (s.Settled → s'.Settled) ∧ (¬ s.Settled → s'.rank < s.rank) := by
  cases hs with
  | completed | deferred | endResp => exact absurd trivial he
  | answered htrigger hs hd hq hperforms =>
    refine ⟨?_, fun _ => rank_answered htrigger hs hq rfl rfl rfl rfl⟩
    intro hc
    rcases hc with hnil | ⟨hw, -⟩
    · rw [hnil] at hs
      cases hs
    · rw [hw] at htrigger
      cases htrigger
  | suspended htrigger hs hd hq =>
    refine ⟨?_, fun _ => rank_suspended htrigger hq rfl hd rfl rfl rfl⟩
    intro hc
    rcases hc with hnil | ⟨hw, -⟩
    · exact Or.inl (hq.trans hnil)
    · rw [hw] at htrigger
      cases htrigger
  | drained htrigger hs hq => exact ⟨fun _ => Or.inl hq, fun hc => absurd (Or.inl hs) hc⟩
  | delta htrigger hpending =>
    refine ⟨?_, fun _ => rank_deltaCycle htrigger hpending⟩
    intro hc
    rcases hc with hnil | ⟨hw, hrcvd⟩
    · exact Or.inl hnil
    · have hsame : s.deltaCycle.trigger = s.trigger := by
        apply if_neg
        simp [hw, hrcvd]
      exact Or.inr ⟨hsame.trans hw, rfl⟩
  | @advanced t hadvance =>
    refine ⟨?_, rank_advance h hadvance⟩
    intro hc
    rcases hc with hnil | ⟨hw, hrcvd⟩
    · exact Or.inl hnil
    · have hsame : (s.advance t).trigger = s.trigger := by
        apply if_neg
        simp [hw]
      exact Or.inr ⟨hsame.trans hw, hrcvd⟩

/-- Until then, the kernel or the method has something to do. -/
theorem exists_step {s : State peq} (h : Timely s) (hne : ¬ s.Settled) :
    ∃ e : Event, ¬ e.IsCall ∧ (step s e).isSome := by
  obtain ⟨hqueue, hwaits⟩ := not_or.1 hne
  by_cases hr : s.trigger = .runnable
  · refine ⟨.run .completed 0, id, ?_⟩
    simp only [step, if_pos hr]
    rfl
  by_cases hpending : s.deltaPending = true
  · refine ⟨.deltaCycle, id, ?_⟩
    rw [step, if_pos ⟨hr, hpending⟩]
    rfl
  have hdelta := Bool.eq_false_iff.2 hpending
  suffices hadvance : ∃ t, s.canAdvance t by
    obtain ⟨t, ht⟩ := hadvance
    refine ⟨.advance t, id, ?_⟩
    rw [step, if_pos ht]
    rfl
  simp only [State.deltaPending, decide_eq_true_eq, not_or] at hpending
  obtain ⟨hpeq, hrcvd, htimeout⟩ := hpending
  cases hw : s.trigger with
  | runnable => exact absurd hw hr
  | endResp => exact absurd ⟨hw, Bool.eq_false_iff.2 hrcvd⟩ hwaits
  | peqEvent =>
    obtain ⟨x, hx⟩ := List.exists_mem_of_ne_nil _ hqueue
    obtain ⟨-, hwake⟩ := h.wakeup hw x hx
    have hlater := h.pending
    cases he : s.peqEvent with
    | none =>
      rw [he] at hwake
      cases hwake
    | delta => exact absurd he hpeq
    | timed u =>
      rw [he] at hlater
      exact ⟨u, hlater, hr, hdelta, by rw [he]; exact le_rfl, by rw [hw]; trivial⟩
  | timeout n =>
    obtain ⟨hnone, hlater⟩ := h.timeout n hw
    have hlater' := h.pending
    cases n with
    | none => exact absurd rfl hnone
    | delta => exact absurd hw htimeout
    | timed u =>
      -- the queue's event may be notified before the timeout
      cases he : s.peqEvent with
      | none => exact ⟨u, hlater, hr, hdelta, by rw [he]; trivial, by rw [hw]; exact le_rfl⟩
      | delta => exact absurd he hpeq
      | timed v =>
        rw [he] at hlater'
        refine ⟨min u v, lt_min hlater hlater', hr, hdelta, ?_, ?_⟩
        · rw [he]
          exact min_le_right u v
        · rw [hw]
          exact min_le_left u v

/-! ## Traces of runs -/

/-- What the `k`-th call with `BEGIN_REQ` returns, counted from zero, for a counter of 64 bits that
starts at one. -/
def statusAt (k : Nat) : SyncEnum := if (k + 1) % 2 ^ 64 % 20 = 0 then .updated else .completed

/-- The trace of a run, and the transactions that have been taken from the queue. -/
structure Inv (c : Slot) (s : State peq) (tr : List Output)
    (answered : List (Timed Nat Transaction)) : Prop where
  timely : Timely s
  slot : s.target.slot = c
  count : s.requestCount = UInt64.ofNat ((statuses tr).length + 1)
  returns : statuses tr = (List.range (statuses tr).length).map statusAt
  order : StableSort (deferred c tr) (answered ++ s.queued)
  past : ∀ x ∈ answered, x.due ≤ s.now
  answers : List.Forall₂ (fun x r => x.entry = r.request ∧ x.due ≤ r.time) answered (responses tr)
  outstanding : acceptedResps tr + (if s.endRespRcvd then 1 else 0) ≤
    endResps tr + if s.trigger = .endResp then 1 else 0
  memory : Machine.replay (perform c.size) (fun _ => 0) ((performed tr).map Prod.fst) =
    (s.target.targetMemory.memory, (performed tr).map Prod.snd)

section Traces

variable (c : Slot) (tr o : List Output)

theorem statuses_append : statuses (tr ++ o) = statuses tr ++ statuses o := List.filterMap_append

theorem deferred_append : deferred c (tr ++ o) = deferred c tr ++ deferred c o :=
  List.filterMap_append

theorem responses_append : responses (tr ++ o) = responses tr ++ responses o :=
  List.filterMap_append

theorem performed_append : performed (tr ++ o) = performed tr ++ performed o :=
  List.filterMap_append

/-- A call or an answer that an observation passes over. -/
theorem filterMap_other {β : Type*} (f : Output → Option β) {x : Output} (h : f x = none) :
    (tr ++ [x]).filterMap f = tr.filterMap f := by
  rw [List.filterMap_append, List.filterMap_cons_none h, List.filterMap_nil, List.append_nil]

theorem endResps_append : endResps (tr ++ o) = endResps tr + endResps o := List.countP_append

theorem acceptedResps_append : acceptedResps (tr ++ o) = acceptedResps tr + acceptedResps o :=
  List.countP_append

end Traces

namespace Inv

variable {c : Slot} {s s' : State peq} {tr : List Output} {answered : List (Timed Nat Transaction)}

/-- A step that neither calls nor is called. -/
theorem silent (h : Inv c s tr answered) (ht : Timely s') (hq : s'.queued = s.queued)
    (hnow : s.now ≤ s'.now) (htarget : s'.target = s.target)
    (hcount : s'.requestCount = s.requestCount)
    (hout : (if s'.endRespRcvd then 1 else 0) + (if s.trigger = .endResp then 1 else 0) ≤
      (if s.endRespRcvd then 1 else 0) + if s'.trigger = .endResp then 1 else 0) :
    Inv c s' tr answered := by
  have houtstanding := h.outstanding
  refine ⟨ht, ?_, ?_, h.returns, ?_, fun x hx => (h.past x hx).trans hnow, h.answers, by omega, ?_⟩
  · rw [htarget, h.slot]
  · rw [hcount, h.count]
  · rw [hq]
    exact h.order
  · rw [htarget]
    exact h.memory

/-- The counter and what it decides. -/
theorem returns_concat (h : Inv c s tr answered) (status : SyncEnum)
    (hstatus : status = if s.requestCount % 20 = 0 then .updated else .completed) :
    s.requestCount + 1 = UInt64.ofNat ((statuses tr ++ [status]).length + 1) ∧
      statuses tr ++ [status] =
        (List.range (statuses tr ++ [status]).length).map statusAt := by
  have hnat : s.requestCount.toNat = ((statuses tr).length + 1) % 2 ^ 64 := by
    rw [h.count, UInt64.toNat_ofNat']
  have hzero : s.requestCount % 20 = 0 ↔ ((statuses tr).length + 1) % 2 ^ 64 % 20 = 0 := by
    rw [← hnat, ← UInt64.toNat_inj, UInt64.toNat_mod]
    exact Iff.rfl
  rw [List.length_append, List.length_singleton]
  refine ⟨?_, ?_⟩
  · rw [h.count, UInt64.ofNat_add (_ + 1) 1]
    rfl
  · rw [List.range_succ, List.map_append, ← h.returns, hstatus]
    simp only [hzero, List.map_singleton, statusAt]

theorem performed_concat (h : Inv c s tr answered) {target : Target} {request gp : Payload}
    (hp : Performs s.target target request gp) :
    Machine.replay (perform c.size) (fun _ => 0)
        ((performed tr ++ [(request, gp.responseStatus, gp.data)]).map Prod.fst) =
      (target.targetMemory.memory,
        (performed tr ++ [(request, gp.responseStatus, gp.data)]).map Prod.snd) := by
  have hresult := hp.result
  rw [h.slot] at hresult
  rw [List.map_append, List.map_singleton, Machine.replay_concat, h.memory, ← hresult,
    List.map_append, List.map_singleton]

/-- A request that is performed at once. -/
theorem completed (h : Inv c s tr answered) {request : Transaction} {delayTime : ScTime}
    {target : Target} {reply : Reply} (hcount : s.requestCount % 20 ≠ 0)
    (hperforms : Performs s.target target request.gp reply.gp)
    (hreply : reply.status = .completed)
    (ht : Timely { s with requestCount := s.requestCount + 1, target := target }) :
    Inv c { s with requestCount := s.requestCount + 1, target := target }
      (tr ++ [.forward s.now request .beginReq delayTime reply]) answered := by
  have hstatuses : statuses [.forward s.now request .beginReq delayTime reply] = [reply.status] :=
    rfl
  have hdeferred : deferred c [.forward s.now request .beginReq delayTime reply] = [] := by
    simp [deferred, Output.deferred, hreply]
  have hresponses : responses [.forward s.now request .beginReq delayTime reply] = [] := rfl
  have hperformed : performed [.forward s.now request .beginReq delayTime reply] =
      [(request.gp, reply.gp.responseStatus, reply.gp.data)] := by
    simp [performed, Output.performed, hreply]
  obtain ⟨hcounter, hreturns⟩ :=
    h.returns_concat reply.status (by rw [if_neg hcount, hreply])
  refine ⟨ht, hperforms.slot.trans h.slot, ?_, ?_, ?_, h.past, ?_, ?_, ?_⟩
  · rw [statuses_append, hstatuses]
    exact hcounter
  · rw [statuses_append, hstatuses]
    exact hreturns
  · rw [deferred_append, hdeferred, List.append_nil]
    exact h.order
  · rw [responses_append, hresponses, List.append_nil]
    exact h.answers
  · rw [acceptedResps_append, endResps_append]
    exact h.outstanding
  · rw [performed_append, hperformed]
    exact h.performed_concat hperforms

/-- A request that is put into the queue: what has been taken from it is not due later. -/
theorem deferred (h : Inv c s tr answered) {request : Transaction} {delayTime : ScTime}
    {target : Target} {reply : Reply} {queue : peq.Queue} {due : Nat}
    (hcount : s.requestCount % 20 = 0) (hslot : target.slot = s.target.slot)
    (hmem : target.targetMemory.memory = s.target.targetMemory.memory)
    (hdue : due = dueTime s.target.slot s.now request.gp.command delayTime)
    (hq : peq.scheduled queue = schedule ⟨due, request⟩ s.queued) (hreply : reply.status = .updated)
    {event : Notification Nat}
    (ht : Timely { s with
      requestCount := s.requestCount + 1
      target := target
      responsePeq := queue
      peqEvent := event }) :
    Inv c { s with
      requestCount := s.requestCount + 1
      target := target
      responsePeq := queue
      peqEvent := event } (tr ++ [.forward s.now request .beginReq delayTime reply]) answered := by
  have hstatuses : statuses [.forward s.now request .beginReq delayTime reply] = [reply.status] :=
    rfl
  have hdeferred : AtTarget.deferred c [.forward s.now request .beginReq delayTime reply] =
      [⟨due, request⟩] := by
    rw [hdue, h.slot]
    simp [AtTarget.deferred, Output.deferred, hreply]
  have hresponses : responses [.forward s.now request .beginReq delayTime reply] = [] := rfl
  have hperformed : performed [.forward s.now request .beginReq delayTime reply] = [] := by
    simp [performed, Output.performed, hreply]
  obtain ⟨hcounter, hreturns⟩ :=
    h.returns_concat reply.status (by rw [if_pos hcount, hreply])
  have hpast : ∀ x ∈ answered, x.due ≤ due := by
    intro x hx
    rw [hdue]
    exact (h.past x hx).trans (Nat.le_add_right _ _)
  refine ⟨ht, hslot.trans h.slot, ?_, ?_, ?_, h.past, ?_, ?_, ?_⟩
  · rw [statuses_append, hstatuses]
    exact hcounter
  · rw [statuses_append, hstatuses]
    exact hreturns
  · change StableSort _ (answered ++ peq.scheduled queue)
    rw [deferred_append, hdeferred, hq, append_schedule (x := ⟨due, request⟩) hpast]
    exact h.order.concat _
  · rw [responses_append, hresponses, List.append_nil]
    exact h.answers
  · rw [acceptedResps_append, endResps_append]
    exact h.outstanding
  · rw [performed_append, hperformed, List.append_nil, hmem]
    exact h.memory

/-- The answer that the initiator has accepted is ended. -/
theorem endResp (h : Inv c s tr answered) {request : Transaction} {delayTime : ScTime}
    {reply : Reply} (ht : Timely { s with endRespRcvd := true }) :
    Inv c { s with endRespRcvd := true } (tr ++ [.forward s.now request .endResp delayTime reply])
      answered := by
  have hone : endResps [.forward s.now request .endResp delayTime reply] = 1 := rfl
  have hnone : acceptedResps [.forward s.now request .endResp delayTime reply] = 0 := rfl
  have houtstanding := h.outstanding
  refine ⟨ht, h.slot, ?_, ?_, ?_, h.past, ?_, ?_, ?_⟩
  · rw [statuses, filterMap_other tr _ rfl]
    exact h.count
  · rw [statuses, filterMap_other tr _ rfl]
    exact h.returns
  · rw [AtTarget.deferred, filterMap_other tr _ rfl]
    exact h.order
  · rw [responses, filterMap_other tr _ rfl]
    exact h.answers
  · rw [acceptedResps_append, endResps_append, hone, hnone]
    simp only [if_true]
    omega
  · rw [performed, filterMap_other tr _ rfl]
    exact h.memory

/-- One more answer: the first transaction of the queue, which is due. -/
theorem answer (h : Inv c s tr answered) (htrigger : s.trigger = .runnable) {d : Nat}
    {request : Transaction} {rest : List (Timed Nat Transaction)} {queue : peq.Queue}
    {target : Target} {gp : Payload} {status : SyncEnum} {delay : ScTime}
    (hs : s.queued = ⟨d, request⟩ :: rest) (hd : d ≤ s.now) (hq : peq.scheduled queue = rest)
    (hperforms : Performs s.target target request.gp gp)
    (ht : Timely { s with
      responsePeq := queue
      target := target
      trigger := nextTrigger s.now delay status }) :
    Inv c { s with
      responsePeq := queue
      target := target
      trigger := nextTrigger s.now delay status } (tr ++ [.backward ⟨s.now, request, gp, status⟩])
      (answered ++ [⟨d, request⟩]) := by
  have horder := h.order
  have houtstanding := h.outstanding
  refine ⟨ht, hperforms.slot.trans h.slot, ?_, ?_, ?_, ?_, ?_, ?_, ?_⟩
  · rw [statuses, filterMap_other tr _ rfl]
    exact h.count
  · rw [statuses, filterMap_other tr _ rfl]
    exact h.returns
  · change StableSort _ (_ ++ peq.scheduled queue)
    rw [hs] at horder
    rw [AtTarget.deferred, filterMap_other tr _ rfl, hq, List.append_assoc]
    exact horder
  · exact List.forall_mem_append.2 ⟨h.past, List.forall_mem_singleton.2 hd⟩
  · rw [responses_append]
    exact List.rel_append h.answers (List.Forall₂.cons ⟨rfl, hd⟩ List.Forall₂.nil)
  · have hnone : endResps [.backward ⟨s.now, request, gp, status⟩] = 0 := rfl
    rw [acceptedResps_append, endResps_append, hnone]
    rw [htrigger] at houtstanding
    cases status <;> simp [acceptedResps, nextTrigger] at houtstanding ⊢ <;> omega
  · rw [performed_append]
    exact h.performed_concat hperforms

end Inv

theorem inv_step {c : Slot} {s s' : State peq} {tr o : List Output} {e : Event}
    {answered : List (Timed Nat Transaction)} (h : Inv c s tr answered) (hs : Stepped s e s' o) :
    ∃ answered', Inv c s' (tr ++ o) answered' := by
  have ht := timely_step h.timely hs
  cases hs with
  | completed hcount hperforms hreply => exact ⟨_, h.completed hcount hperforms hreply ht⟩
  | deferred hcount hslot hmem hdue hq hreply =>
    exact ⟨_, h.deferred hcount hslot hmem hdue hq hreply ht⟩
  | endResp => exact ⟨_, h.endResp ht⟩
  | answered htrigger hs hd hq hperforms => exact ⟨_, h.answer htrigger hs hd hq hperforms ht⟩
  | suspended htrigger hs hd hq =>
    rw [List.append_nil]
    refine ⟨answered, h.silent ht hq le_rfl rfl rfl ?_⟩
    simp [htrigger]
  | drained htrigger hs hq =>
    rw [List.append_nil]
    refine ⟨answered, h.silent ht (hq.trans hs.symm) le_rfl rfl rfl ?_⟩
    simp [htrigger]
  | delta htrigger hpending =>
    rw [List.append_nil]
    refine ⟨answered, h.silent ht rfl le_rfl rfl rfl ?_⟩
    -- a pending `END_RESP` is consumed, by a method that waits for it or by nobody
    have hrcvd : s.deltaCycle.endRespRcvd = false := rfl
    rw [hrcvd]
    by_cases hr : s.endRespRcvd = true
    · rw [if_pos hr, if_neg Bool.false_ne_true]
      split_ifs <;> omega
    · by_cases hw : s.trigger = .endResp
      · have hsame : s.deltaCycle.trigger = s.trigger := by
          apply if_neg
          simp [hw, hr]
        rw [hsame]
        simp [hr]
      · simp [hw]
  | @advanced t hadvance =>
    rw [List.append_nil]
    refine ⟨answered, h.silent ht rfl hadvance.1.le rfl rfl ?_⟩
    have hrcvd : (s.advance t).endRespRcvd = s.endRespRcvd := rfl
    rw [hrcvd]
    by_cases hw : s.trigger = .endResp
    · have hsame : (s.advance t).trigger = s.trigger := by
        apply if_neg
        simp [hw]
      rw [hsame]
    · simp [hw]

/-! ## Runs -/

theorem inv_init {target : Target} (hzero : target.targetMemory.memory = fun _ => 0) :
    Inv target.slot (State.init peq target) [] [] := by
  have hnone : (State.init peq target).queued = [] := peq.scheduled_empty
  refine ⟨timely_init target, rfl, rfl, rfl, ?_, List.forall_mem_nil _, List.Forall₂.nil, le_rfl,
    ?_⟩
  · rw [hnone]
    exact StableSort.nil
  · exact congrArg (fun m => (m, [])) hzero.symm

theorem run_inv (target : Target) (hsize : target.slot.size ≤ 2 ^ 28)
    (hzero : target.targetMemory.memory = fun _ => 0) {es : List Event} {s : State peq}
    {tr : List Output} (h : (atTarget peq target).Run es s tr) :
    ∃ answered, Inv target.slot s tr answered := by
  refine Machine.inv_run (I := fun s tr => ∃ answered, Inv target.slot s tr answered)
    ⟨[], inv_init hzero⟩ ?_ h
  intro s tr e s' o hI hs
  obtain ⟨answered, hinv⟩ := hI
  have hslot : s.target.slot.size ≤ 2 ^ 28 := by
    rw [hinv.slot]
    exact hsize
  exact inv_step hinv (stepped hslot hs)

/-- Without new calls the method has nothing to answer after some number of steps, whatever they
are. -/
theorem settled_eventually {target : Target} {s : State peq} (h : Timely s)
    (hsize : s.target.slot.size ≤ 2 ^ 28) {es : List Event} {s' : State peq} {tr : List Output}
    (hes : ∀ e ∈ es, ¬ e.IsCall) (hrun : (atTarget peq target).runFrom s es = some (s', tr))
    (hlen : s.rank < es.length) : s'.Settled := by
  refine Machine.done_of_rank (I := fun s => Timely s ∧ s.target.slot.size ≤ 2 ^ 28)
    (D := State.Settled) State.rank ?_ ⟨h, hsize⟩ hes hrun (Or.inr hlen)
  intro s e s' o hI he hs
  have hstepped := stepped hI.2 hs
  refine ⟨⟨timely_step hI.1 hstepped, ?_⟩, rank_step hI.1 he hstepped⟩
  have hslot : s'.target.slot = s.target.slot := by
    cases hstepped with
    | completed hcount hperforms => exact hperforms.slot
    | deferred hcount hslot => exact hslot
    | answered htrigger hs hd hq hperforms => exact hperforms.slot
    | endResp | suspended | drained | delta | advanced => rfl
  rw [hslot]
  exact hI.2

/-- The answers of a run, as far as it has come. -/
structure Answers (c : Slot) (s : State peq) (tr : List Output) : Prop where
  /-- Every twentieth request is deferred, the others are completed at once. -/
  returns : statuses tr = (List.range (statuses tr).length).map statusAt
  /-- Each deferred request has been answered, once, in the order of the due times and never before
  its own, or is in the queue. -/
  order : ∃ answered, StableSort (deferred c tr) (answered ++ s.queued) ∧
    List.Forall₂ (fun x r => x.entry = r.request ∧ x.due ≤ r.time) answered (responses tr)
  /-- Only one accepted answer can be without its `END_RESP`. -/
  outstanding : acceptedResps tr ≤ endResps tr + 1
  /-- Statuses, data and memory are those of the requests one by one. -/
  memory : Machine.replay (perform c.size) (fun _ => 0) ((performed tr).map Prod.fst) =
    (s.target.targetMemory.memory, (performed tr).map Prod.snd)
  wakeup : s.trigger = .peqEvent → ∀ x ∈ s.queued, s.now ≤ x.due ∧ s.peqEvent.WakesBy s.now x.due
  /-- While there is something to answer, a step other than a call is possible. -/
  progress : ¬ s.Settled → ∃ e : Event, ¬ e.IsCall ∧ (step s e).isSome
  /-- After some number of such steps, whichever they are, there is nothing. -/
  settled : ∃ n, ∀ target es s' tr', (∀ e ∈ es, ¬ Event.IsCall e) →
    (atTarget peq target).runFrom s es = some (s', tr') → n < es.length → s'.Settled

/-- Twenty writes and a read: the last write is deferred, and the read is performed before it. -/
def overtaking : List Event :=
  let request (v : UInt8) : Event :=
    .nbTransportFw ⟨v.toNat, ⟨.write, 8, [v], .incomplete, Payload.byteLength_lt, 1, false⟩⟩
      .beginReq 3
  (List.range 20).map (fun k => request (UInt8.ofNat k)) ++
    [.nbTransportFw ⟨20, ⟨.read, 8, [0], .incomplete, Payload.byteLength_lt, 1, false⟩⟩ .beginReq 3,
      .advance 80003, .run .accepted 0, .advance 90000,
      .nbTransportFw ⟨19, ⟨.write, 8, [19], .ok, Payload.byteLength_lt, 1, false⟩⟩ .endResp 0,
      .deltaCycle, .run .completed 0]

end RenodeSystemC.AtTarget
