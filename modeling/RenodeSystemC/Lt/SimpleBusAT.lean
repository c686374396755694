import RenodeSystemC.Lt.SimpleBus
import RenodeSystemC.Native.NonBlocking

/-!
# `SimpleBusAT`

The approximately-timed bus between any number of initiators and targets. `initiatorNBTransport`
puts a request into `mRequestPEQ`; `RequestThread` passes it to the target its address names and
waits for the end of the request phase. `targetNBTransport` puts the response into `mResponsePEQ`;
`ResponseThread` passes it to the initiator, waits for its end and passes that to the target.
`mPendingTransactions` says between whom a transaction goes on; both threads keep an iterator to
its entry while they wait, and `ResponseThread` erases the entry.

A step is a call of an initiator or a target, at any time; a thread that runs up to its next wait
or its next call; the return of such a call; a delta cycle; or time going on. While a thread is in
a call, which must not wait, no thread runs. Assertions are compiled in.
-/

namespace RenodeSystemC.SimpleBusAT

open Lt (decode getAddressMask)
open NonBlocking (Phase SyncEnum)

variable {m n : Nat}

/-! ## State -/

/-- `ConnectionInfo`: the indices of the sockets, or null. -/
structure ConnectionInfo (m n : Nat) where
  from_ : Option (Fin m)
  to_ : Option (Fin n)
  deriving DecidableEq

/-- Where `RequestThread` is with a transaction. -/
inductive RequestPoint (n : Nat) where
  /-- In `nb_transport_fw`, with `BEGIN_REQ`. -/
  | beginReq (port : Fin n)
  /-- In `wait(mEndRequestEvent)`. -/
  | waitEvent
  /-- In `wait(t)`, after `END_REQ` was returned. -/
  | waitTime (timer : Notification Nat)
  /-- Runnable, behind either wait. -/
  | waited
  /-- In `nb_transport_bw`, with `END_REQ`. -/
  | endReq
  deriving DecidableEq

inductive RequestPc (n : Nat) where
  /-- The kernel has not run it yet. -/
  | start
  /-- In `wait(mRequestPEQ.get_event())`. -/
  | waitPeq
  /-- Runnable, at the head of the inner loop. -/
  | loop
  /-- In `wait(t)`, after the transaction was completed. -/
  | waitCompleted (timer : Notification Nat)
  | handling (txn : Nat) (point : RequestPoint n)
  deriving DecidableEq

/-- Where `ResponseThread` is with a transaction. -/
inductive ResponsePoint (m n : Nat) where
  /-- In `nb_transport_bw`, with `BEGIN_RESP`. -/
  | beginResp (id : Fin m)
  /-- In `wait(mEndResponseEvent)`. -/
  | waitEvent
  /-- In `wait(t)`, after the transaction was completed. -/
  | waitTime (timer : Notification Nat)
  /-- Runnable, behind either wait. -/
  | waited
  /-- In `nb_transport_fw`, with `END_RESP`. -/
  | endResp (port : Fin n)
  deriving DecidableEq

inductive ResponsePc (m n : Nat) where
  | start
  | waitPeq
  | loop
  | handling (txn : Nat) (point : ResponsePoint m n)
  deriving DecidableEq

/-- The bus, the transactions it sees, and the kernel as far as it sees it. -/
structure State (m n : Nat) (peq : PeqWithGet Nat) where
  now : Nat
  /-- The address attributes. -/
  address : Nat → UInt64
  /-- How many references the bus holds. -/
  references : Nat → Nat
  pendingTransactions : Nat → Option (ConnectionInfo m n)
  requestPeq : peq.Queue
  requestEvent : Notification Nat
  responsePeq : peq.Queue
  responseEvent : Notification Nat
  endRequestEvent : Notification Nat
  endResponseEvent : Notification Nat
  requestPc : RequestPc n
  /-- The transaction whose entry `it` of `RequestThread` points to; none once it has been
  erased. -/
  it : Option Nat
  responsePc : ResponsePc m n
  /-- The process has ended. -/
  stopped : Bool

variable {peq : PeqWithGet Nat}

variable (m n peq) in
/-- The constructor. -/
def State.init : State m n peq where
  now := 0
  address _ := 0
  references _ := 0
  pendingTransactions _ := none
  requestPeq := peq.empty
  requestEvent := .none
  responsePeq := peq.empty
  responseEvent := .none
  endRequestEvent := .none
  endResponseEvent := .none
  requestPc := .start
  it := none
  responsePc := .start
  stopped := false

/-- What a socket sees of a transaction. -/
inductive Call where
  /-- `BEGIN_REQ`, with the address attribute. -/
  | beginReq (address : UInt64)
  | endReq
  | beginResp
  | endResp
  /-- `TLM_COMPLETED` is returned for `BEGIN_REQ` or `BEGIN_RESP`. -/
  | completed
  deriving DecidableEq

inductive Failure where
  /-- An assertion fails. -/
  | assertion
  /-- `exit(1)`, after a message or a failed assertion. -/
  | illegalPhase
  /-- An iterator is used after its entry was erased. -/
  | erased
  /-- A socket pointer is null. -/
  | null
  deriving DecidableEq

inductive Output (m n : Nat) where
  /-- On `target_socket[id]`, with the time the call is annotated for. -/
  | initiator (id : Fin m) (txn : Nat) (call : Call) (time : Nat)
  /-- On `initiator_socket[port]`. -/
  | target (port : Fin n) (txn : Nat) (call : Call) (time : Nat)
  /-- `ResponseThread` erases the entry and releases the transaction. -/
  | release (txn : Nat)
  | failed (why : Failure)
  deriving DecidableEq

/-! ## The functions -/

namespace State

def fail (s : State m n peq) (why : Failure) : State m n peq × List (Output m n) :=
  ({ s with stopped := true }, [.failed why])

/-- `mRequestPEQ.notify`. -/
def notifyRequest (s : State m n peq) (txn : Nat) (t : ScTime) : State m n peq :=
  { s with
    requestPeq := peq.notify s.now s.requestPeq txn t.toNat
    requestEvent := s.requestEvent.notify s.now (s.now + t.toNat) }

/-- `mResponsePEQ.notify`. -/
def notifyResponse (s : State m n peq) (txn : Nat) (t : ScTime) : State m n peq :=
  { s with
    responsePeq := peq.notify s.now s.responsePeq txn t.toNat
    responseEvent := s.responseEvent.notify s.now (s.now + t.toNat) }

def setPending (s : State m n peq) (txn : Nat) (info : ConnectionInfo m n) : State m n peq :=
  { s with pendingTransactions := Function.update s.pendingTransactions txn (some info) }

/-- `wait(t)`: the timer of the thread. -/
def timer (s : State m n peq) (t : ScTime) : Notification Nat :=
  Notification.none.notify s.now (s.now + t.toNat)

/-- `initiatorNBTransport`, for a transaction with the given address attribute. -/
def initiatorNBTransport (s : State m n peq) (initiatorId : Fin m) (txn : Nat) (address : UInt64)
    (phase : Phase) (t : ScTime) : State m n peq × List (Output m n) :=
  match phase with
  | .beginReq =>
    match s.pendingTransactions txn with
    | some _ => s.fail .assertion
    | none =>
      let s := { s with
        address := Function.update s.address txn address
        references := Function.update s.references txn (s.references txn + 1) }
      ((s.setPending txn ⟨some initiatorId, none⟩).notifyRequest txn t,
        [.initiator initiatorId txn (.beginReq address) (s.now + t.toNat)])
  | .endResp =>
    ({ s with endResponseEvent := s.endResponseEvent.notify s.now (s.now + t.toNat) },
      [.initiator initiatorId txn .endResp (s.now + t.toNat)])
  | .endReq | .beginResp => s.fail .illegalPhase

/-- `targetNBTransport`. -/
def targetNBTransport (s : State m n peq) (portId : Fin n) (txn : Nat) (phase : Phase)
    (t : ScTime) : State m n peq × List (Output m n) :=
  let notified :=
    { s with endRequestEvent := s.endRequestEvent.notify s.now (s.now + t.toNat) }
  match phase with
  | .endReq => (notified, [.target portId txn .endReq (s.now + t.toNat)])
  | .beginResp =>
    (notified.notifyResponse txn t, [.target portId txn .beginResp (s.now + t.toNat)])
  | .beginReq | .endResp => s.fail .illegalPhase

/-- `RequestThread`, from the head of the inner loop to its wait or its call. -/
def requestLoop (s : State m n peq) : State m n peq × List (Output m n) :=
  match peq.getNextTransaction s.now s.requestPeq with
  | .null queue notified =>
    let event := match notified with
      | none => s.requestEvent
      | some t => s.requestEvent.notify s.now (s.now + t)
    ({ s with requestPeq := queue, requestEvent := event, requestPc := .waitPeq }, [])
  | .transaction txn queue =>
    let portId := decode (s.address txn)
    if h : portId.toNat < n then
      let address := s.address txn &&& getAddressMask portId
      match s.pendingTransactions txn with
      | none => s.fail .assertion
      | some info =>
        let s := { s with requestPeq := queue, address := Function.update s.address txn address }
        let s := s.setPending txn { info with to_ := some ⟨portId.toNat, h⟩ }
        ({ s with requestPc := .handling txn (.beginReq ⟨portId.toNat, h⟩), it := some txn },
          [.target ⟨portId.toNat, h⟩ txn (.beginReq address) s.now])
    else s.fail .assertion

/-- `nb_transport_fw` with `BEGIN_REQ` returns to `RequestThread`. -/
def beginReqReturns (s : State m n peq) (txn : Nat) (port : Fin n) (status : SyncEnum)
    (phase : Phase) (t : ScTime) : State m n peq × List (Output m n) :=
  match status with
  | .accepted | .updated =>
    match phase with
    | .beginReq => ({ s with requestPc := .handling txn .waitEvent }, [])
    | .endReq =>
      ({ s with requestPc := .handling txn (.waitTime (s.timer t)) },
        [.target port txn .endReq (s.now + t.toNat)])
    | .beginResp =>
      ({ s.notifyResponse txn t with requestPc := .loop },
        [.target port txn .beginResp (s.now + t.toNat)])
    | .endResp => s.fail .illegalPhase
  | .completed =>
    match s.pendingTransactions txn with
    | none => s.fail .erased
    | some info =>
      ({ (s.notifyResponse txn t).setPending txn { info with to_ := none } with
        requestPc := .waitCompleted (s.timer t) },
        [.target port txn .completed (s.now + t.toNat)])

/-- `RequestThread`, behind the waits for the end of the request phase. -/
def sendEndReq (s : State m n peq) (txn : Nat) : State m n peq × List (Output m n) :=
  match s.it.bind s.pendingTransactions with
  | none => s.fail .erased
  | some info =>
    match info.from_ with
    | some id =>
      ({ s with requestPc := .handling txn .endReq }, [.initiator id txn .endReq s.now])
    | none => ({ s with requestPc := .loop }, [])

/-- `RequestThread` runs. -/
def runRequest (s : State m n peq) : Option (State m n peq × List (Output m n)) :=
  match s.requestPc with
  | .start => some ({ s with requestPc := .waitPeq }, [])
  | .loop => some s.requestLoop
  | .handling txn .waited => some (s.sendEndReq txn)
  | _ => none

/-- `ResponseThread`, from the head of the inner loop to its wait or its call. -/
def responseLoop (s : State m n peq) : State m n peq × List (Output m n) :=
  match peq.getNextTransaction s.now s.responsePeq with
  | .null queue notified =>
    let event := match notified with
      | none => s.responseEvent
      | some t => s.responseEvent.notify s.now (s.now + t)
    ({ s with responsePeq := queue, responseEvent := event, responsePc := .waitPeq }, [])
  | .transaction txn queue =>
    match s.pendingTransactions txn with
    | none => s.fail .assertion
    | some info =>
      match info.from_ with
      | none => s.fail .null
      | some id =>
        ({ { s with responsePeq := queue }.setPending txn { info with from_ := none } with
          responsePc := .handling txn (.beginResp id) }, [.initiator id txn .beginResp s.now])

/-- `nb_transport_bw` with `BEGIN_RESP` returns to `ResponseThread`. -/
def beginRespReturns (s : State m n peq) (txn : Nat) (id : Fin m) (status : SyncEnum)
    (t : ScTime) : State m n peq × List (Output m n) :=
  match status with
  | .completed =>
    ({ s with responsePc := .handling txn (.waitTime (s.timer t)) },
      [.initiator id txn .completed (s.now + t.toNat)])
  | .accepted | .updated => ({ s with responsePc := .handling txn .waitEvent }, [])

/-- The end of the body of the inner loop: `erase(it)` and `release`. -/
def finish (s : State m n peq) (txn : Nat) : State m n peq × List (Output m n) :=
  ({ s with
    pendingTransactions := Function.update s.pendingTransactions txn none
    it := if s.it = some txn then none else s.it
    references := Function.update s.references txn (s.references txn - 1)
    responsePc := .loop }, [.release txn])

/-- `ResponseThread`, behind the waits for the end of the response. -/
def sendEndResp (s : State m n peq) (txn : Nat) : State m n peq × List (Output m n) :=
  match s.pendingTransactions txn with
  | none => s.fail .erased
  | some info =>
    match info.to_ with
    | some port =>
      ({ s with responsePc := .handling txn (.endResp port) }, [.target port txn .endResp s.now])
    | none => s.finish txn

/-- `ResponseThread` runs. -/
def runResponse (s : State m n peq) : Option (State m n peq × List (Output m n)) :=
  match s.responsePc with
  | .start => some ({ s with responsePc := .waitPeq }, [])
  | .loop => some s.responseLoop
  | .handling txn .waited => some (s.sendEndResp txn)
  | _ => none

end State

/-! ## The kernel -/

def RequestPc.runnable : RequestPc n → Bool
  | .start | .loop | .handling _ .waited => true
  | _ => false

def RequestPc.inCall : RequestPc n → Bool
  | .handling _ (.beginReq _) | .handling _ .endReq => true
  | _ => false

/-- The timer the thread waits for, if any. -/
def RequestPc.timer : RequestPc n → Notification Nat
  | .waitCompleted timer | .handling _ (.waitTime timer) => timer
  | _ => .none

def ResponsePc.runnable : ResponsePc m n → Bool
  | .start | .loop | .handling _ .waited => true
  | _ => false

def ResponsePc.inCall : ResponsePc m n → Bool
  | .handling _ (.beginResp _) | .handling _ (.endResp _) => true
  | _ => false

def ResponsePc.timer : ResponsePc m n → Notification Nat
  | .handling _ (.waitTime timer) => timer
  | _ => .none

/-- The notifications equal to `at_` fire; a thread that waits for one goes on. -/
def RequestPc.wake (at_ peqEvent endRequestEvent : Notification Nat) : RequestPc n → RequestPc n
  | .waitPeq => if peqEvent = at_ then .loop else .waitPeq
  | .waitCompleted timer => if timer = at_ then .loop else .waitCompleted timer
  | .handling txn .waitEvent =>
    .handling txn (if endRequestEvent = at_ then .waited else .waitEvent)
  | .handling txn (.waitTime timer) =>
    .handling txn (if timer = at_ then .waited else .waitTime timer)
  | pc => pc

def ResponsePc.wake (at_ peqEvent endResponseEvent : Notification Nat) :
    ResponsePc m n → ResponsePc m n
  | .waitPeq => if peqEvent = at_ then .loop else .waitPeq
  | .handling txn .waitEvent =>
    .handling txn (if endResponseEvent = at_ then .waited else .waitEvent)
  | .handling txn (.waitTime timer) =>
    .handling txn (if timer = at_ then .waited else .waitTime timer)
  | pc => pc

/-- What is left of a notification when those equal to `at_` fire. -/
def spent (at_ event : Notification Nat) : Notification Nat :=
  if event = at_ then .none else event

namespace State

def fire (s : State m n peq) (at_ : Notification Nat) : State m n peq :=
  { s with
    requestEvent := spent at_ s.requestEvent
    responseEvent := spent at_ s.responseEvent
    endRequestEvent := spent at_ s.endRequestEvent
    endResponseEvent := spent at_ s.endResponseEvent
    requestPc := s.requestPc.wake at_ s.requestEvent s.endRequestEvent
    responsePc := s.responsePc.wake at_ s.responseEvent s.endResponseEvent }

/-- The notifications that are pending. -/
def notifications (s : State m n peq) : List (Notification Nat) :=
  [s.requestEvent, s.responseEvent, s.endRequestEvent, s.endResponseEvent, s.requestPc.timer,
    s.responsePc.timer]

/-- A thread can run, or is in a call. -/
def busy (s : State m n peq) : Bool :=
  s.requestPc.runnable || s.requestPc.inCall || s.responsePc.runnable || s.responsePc.inCall

end State

/-- A notification is not for the next delta cycle, nor for a time before `t`. -/
def notBefore (t : Nat) : Notification Nat → Bool
  | .none => true
  | .delta => false
  | .timed u => t ≤ u

/-! ## The machine -/

inductive Event (m n : Nat) where
  | initiatorNBTransport (initiatorId : Fin m) (txn : Nat) (address : UInt64) (phase : Phase)
    (t : ScTime)
  | targetNBTransport (portId : Fin n) (txn : Nat) (phase : Phase) (t : ScTime)
  | runRequest
  /-- The calls of `RequestThread` return. -/
  | beginReqReturns (status : SyncEnum) (phase : Phase) (t : ScTime)
  | endReqReturns
  | runResponse
  /-- The calls of `ResponseThread` return. -/
  | beginRespReturns (status : SyncEnum) (t : ScTime)
  | endRespReturns (status : SyncEnum)
  /-- The delta notification phase. -/
  | deltaCycle
  /-- Nothing is left to do at this time, and time goes on to `t`. -/
  | advance (t : Nat)
  deriving DecidableEq

def step (s : State m n peq) (e : Event m n) : Option (State m n peq × List (Output m n)) :=
  if s.stopped then none
  else
    match e with
    | .initiatorNBTransport id txn address phase t =>
      some (s.initiatorNBTransport id txn address phase t)
    | .targetNBTransport port txn phase t => some (s.targetNBTransport port txn phase t)
    | .runRequest => if s.responsePc.inCall then none else s.runRequest
    | .beginReqReturns status phase t =>
      match s.requestPc with
      | .handling txn (.beginReq port) => some (s.beginReqReturns txn port status phase t)
      | _ => none
    | .endReqReturns =>
      match s.requestPc with
      | .handling _ .endReq => some ({ s with requestPc := .loop }, [])
      | _ => none
    | .runResponse => if s.requestPc.inCall then none else s.runResponse
    | .beginRespReturns status t =>
      match s.responsePc with
      | .handling txn (.beginResp id) => some (s.beginRespReturns txn id status t)
      | _ => none
    | .endRespReturns status =>
      match s.responsePc with
      | .handling txn (.endResp _) =>
        if status = .completed then some (s.finish txn) else some (s.fail .assertion)
      | _ => none
    | .deltaCycle =>
      if s.busy = false ∧ .delta ∈ s.notifications then some (s.fire .delta, []) else none
    | .advance t =>
      if s.now < t ∧ s.busy = false ∧ s.notifications.all (notBefore t) = true then
        some ({ s.fire (.timed t) with now := t }, [])
      else none

variable (m n peq) in
/-- `SimpleBusAT<m, n>`, from the start of the simulation. -/
def simpleBusAT : Machine (State m n peq) (Event m n) (Output m n) where
  init := .init m n peq
  step := step

end RenodeSystemC.SimpleBusAT
