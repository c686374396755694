import Mathlib.Data.List.Perm.Basic
import RenodeSystemC.Lib.Fifo
import RenodeSystemC.Lib.Machine
import RenodeSystemC.Lib.Numbered
import RenodeSystemC.Lib.Tlm

/-!
# `initiator_top`

A traffic generator and an initiator pass the transactions of a pool around: the generator takes one
out of the pool, fills it in and writes its pointer to the request FIFO; the initiator takes it from
there, calls `b_transport`, waits, and writes the pointer to the response FIFO; the generator reads
it, checks it and releases it into the pool.

A step here is one operation of one thread, or the update phase of one channel, in any order; a
SystemC kernel only lets a thread run until its next wait. The bus is left open: what a call returns
is a parameter of the step in which the initiator makes it.

**Theorem (`pool_conserved`).** In every run every transaction has exactly one owner, and a
reference count of one while it is out of the pool; the pool is never empty where the generator
takes from it, no write to a FIFO blocks, and the generator never waits for a response while none
is due.
-/

namespace RenodeSystemC.Lt

open Bytes

/-! ## The pool -/

/-- A `tlm_generic_payload` of the pool, with its reference count. -/
structure Transaction where
  payload : Payload
  refCount : Nat

theorem length_word_lt (w : UInt32) : (leBytes 4 w.toNat).length < 2 ^ 32 := by
  rw [length_leBytes]
  exact Payload.wordLength_lt

/-- `tg_queue_c::enqueue`: what the new buffer holds is not determined. -/
def Transaction.new (garbage : UInt32) : Transaction where
  payload :=
    { command := .ignore
      address := 0
      data := leBytes 4 garbage.toNat
      responseStatus := .incomplete
      length_lt := length_word_lt garbage
      streamingWidth := 0 }
  refCount := 0

/-- `m_txn_data_size`. -/
def txnDataSize : UInt64 := 4

/-- What the write loop sets. -/
def writeRequest (p : Payload) (memAddress : UInt64) (wData : UInt32) : Payload :=
  { p with
    command := .write
    address := memAddress
    data := leBytes 4 wData.toNat
    length_lt := length_word_lt wData
    streamingWidth := 4
    responseStatus := .incomplete }

/-- What the read loop sets. -/
def readRequest (p : Payload) (memAddress : UInt64) : Payload :=
  { p with
    command := .read
    address := memAddress
    streamingWidth := 4
    responseStatus := .incomplete }

/-! ## `traffic_generator` -/

/-- Where `traffic_generator_thread` is. -/
inductive GeneratorPoint where
  /-- At the head of the body of the write loop or of the read loop. -/
  | body
  /-- In `request_out_port->write`. -/
  | send (t : Nat)
  /-- At the head of `check_complete`, called by `check_all_complete` or by a loop. -/
  | check (all : Bool)
  /-- In `response_in_port->read`. -/
  | receive (all : Bool)
  /-- At the head of the `while` loop of `check_all_complete`. -/
  | checkAll
  | complete
  deriving DecidableEq

/-- The members, and the variables of the thread; a transaction is named by its index. -/
structure Generator where
  id : UInt32
  baseAddress1 : UInt64
  baseAddress2 : UInt64
  transactionQueue : List Nat
  activeTxnCount : UInt32
  checkAll : Bool
  point : GeneratorPoint
  i : Nat
  /-- In the read loop, not in the write loop. -/
  reading : Bool
  /-- The counter of either loop. -/
  k : Nat
  memAddress : UInt64
  deriving DecidableEq

namespace Generator

def baseAddress (g : Generator) : UInt64 := if g.i ≠ 0 then g.baseAddress2 else g.baseAddress1

/-- The written word: the address, inverted on the second pass. -/
def wData (g : Generator) : UInt32 :=
  if g.i = 1 then ~~~ g.memAddress.toUInt32 else g.memAddress.toUInt32

/-- The end of the body of a loop. -/
def nextIteration (g : Generator) : Generator :=
  { g with k := g.k + 1, point := if g.k + 1 < 16 then .body else .checkAll }

/-- `check_complete` returns to its caller. -/
def checked (g : Generator) : Bool → Generator
  | true => { g with point := .checkAll }
  | false => g.nextIteration

/-- `check_all_complete` returns to the thread. -/
def nextLoop (g : Generator) : Generator :=
  let g := { g with checkAll := false }
  if g.reading then
    if g.i + 1 < 2 then
      let g := { g with i := g.i + 1, reading := false, k := 0, point := .body }
      { g with memAddress := g.baseAddress }
    else { g with point := .complete }
  else { g with reading := true, k := 0, memAddress := g.baseAddress, point := .body }

end Generator

/-! ## `lt_initiator` -/

/-- Where `initiator_thread` is. -/
inductive InitiatorPoint where
  /-- In `request_in_port->read`. -/
  | reading
  /-- In `wait (delay)`, until the given time. -/
  | waiting (t : Nat) (until_ : Nat)
  /-- In `response_out_port->write`. -/
  | responding (t : Nat)
  deriving DecidableEq

/-- `initiator_top`, with the transactions its pointers lead to. -/
structure InitiatorTop where
  gen : Generator
  request : ScFifo Nat
  initiator : InitiatorPoint
  response : ScFifo Nat
  txn : Nat → Transaction

namespace InitiatorTop

/-- The constructors; the FIFOs have the default size. -/
def new (id : UInt32) (baseAddress1 baseAddress2 : UInt64) (garbage : Nat → UInt32) :
    InitiatorTop where
  gen :=
    { id := id
      baseAddress1 := baseAddress1
      baseAddress2 := baseAddress2
      transactionQueue := [0, 1, 2, 3]
      activeTxnCount := 0
      checkAll := true
      point := .body
      i := 0
      reading := false
      k := 0
      memAddress := baseAddress1 }
  request := .empty _ 16
  initiator := .reading
  response := .empty _ 16
  txn t := .new (garbage t)

def setTxn (s : InitiatorTop) (t : Nat) (x : Transaction) : InitiatorTop :=
  { s with txn := Function.update s.txn t x }

def setGen (s : InitiatorTop) (g : Generator) : InitiatorTop := { s with gen := g }

/-- The body of a loop, where the pool has a transaction: `acquire`, fill in, and go on to
`request_out_port->write`. -/
def issue (s : InitiatorTop) (t : Nat) (queue : List Nat) : InitiatorTop :=
  let g := s.gen
  let x := s.txn t
  let payload :=
    if g.reading then readRequest x.payload g.memAddress
    else writeRequest x.payload g.memAddress g.wData
  (s.setTxn t ⟨payload, x.refCount + 1⟩).setGen
    { g with
      transactionQueue := queue
      activeTxnCount := g.activeTxnCount + 1
      memAddress := g.memAddress + txnDataSize
      point := .send t }

/-- `release`, and `tg_queue_c::free` at the last reference. -/
def release (s : InitiatorTop) (t : Nat) : InitiatorTop :=
  let x := s.txn t
  let s := s.setTxn t { x with refCount := x.refCount - 1 }
  if x.refCount - 1 = 0 then
    s.setGen { s.gen with transactionQueue := s.gen.transactionQueue ++ [t] }
  else s

/-- The word in the buffer of a response. -/
def readWord (p : Payload) : UInt32 := UInt32.ofNat (leWord p.data)

/-- The error that `check_complete` reports for a response, if any. -/
def checkResponse (id : UInt32) (p : Payload) : Option String :=
  if p.responseStatus ≠ .ok then some (toString id ++ "Transaction ERROR")
  else if p.command = .read then
    let expectedData := p.address.toUInt32
    let dataMask : UInt32 := 0x0FFFFFFF
    let readDataMasked := readWord p &&& dataMask
    if readDataMasked ≠ expectedData &&& dataMask ∧
        readDataMasked ≠ ~~~ expectedData &&& dataMask then
      some (toString id ++ " Memory read data ERROR")
    else none
  else none

/-- The rest of `check_complete`, for a response that passes its checks. -/
def received (s : InitiatorTop) (all : Bool) (t : Nat) (f : ScFifo Nat) : InitiatorTop :=
  let s := { s with response := f }.release t
  let g := { s.gen with activeTxnCount := s.gen.activeTxnCount - 1 }
  s.setGen (g.checked all)

/-- One operation of `traffic_generator_thread`; `none` while it waits, an error if it reports a
fatal one. -/
def generatorStep (s : InitiatorTop) : Option (Except String InitiatorTop) :=
  let g := s.gen
  match g.point with
  | .body =>
    match g.transactionQueue with
    | [] => some (.ok (s.setGen { g with point := .check false }))
    | t :: queue => some (.ok (s.issue t queue))
  | .send t =>
    match s.request.nbWrite t with
    | none => none
    | some f => some (.ok { s with request := f, gen := { g with point := .check false } })
  | .check all =>
    if g.transactionQueue.isEmpty ∨ g.checkAll ∨ 0 < s.response.readable.length then
      some (.ok (s.setGen { g with point := .receive all }))
    else some (.ok (s.setGen (g.checked all)))
  | .receive all =>
    match s.response.nbRead with
    | none => none
    | some (t, f) =>
      match checkResponse g.id (s.txn t).payload with
      | some msg => some (.error msg)
      | none => some (.ok (s.received all t f))
  | .checkAll =>
    if g.activeTxnCount ≠ 0 then
      some (.ok (s.setGen { g with checkAll := true, point := .check true }))
    else some (.ok (s.setGen g.nextLoop))
  | .complete => none

/-- `request_in_port->read` returns a pointer. -/
def takeRequest (s : InitiatorTop) : Option (Nat × InitiatorTop) :=
  match s.initiator with
  | .reading => s.request.nbRead.map fun r => (r.1, { s with request := r.2 })
  | _ => none

/-- `b_transport` has returned with the payload `p` and the delay. -/
def transported (s : InitiatorTop) (t : Nat) (now : Nat) (p : Payload) (delay : ScTime) :
    InitiatorTop :=
  let s := s.setTxn t { s.txn t with payload := p }
  if p.responseStatus = .ok then { s with initiator := .waiting t (now + delay.toNat) }
  else { s with initiator := .responding t }

/-- The wait for the delay is over. -/
def wake (s : InitiatorTop) (now : Nat) : Option InitiatorTop :=
  match s.initiator with
  | .waiting t until_ => if until_ ≤ now then some { s with initiator := .responding t } else none
  | _ => none

/-- `response_out_port->write`. -/
def respond (s : InitiatorTop) : Option InitiatorTop :=
  match s.initiator with
  | .responding t => (s.response.nbWrite t).map fun f =>
    { s with response := f, initiator := .reading }
  | _ => none

/-- A channel has something to do in its update phase. -/
def pending (f : ScFifo Nat) : Bool := f.dataWritten || 0 < f.numRead

def updateRequest (s : InitiatorTop) : Option InitiatorTop :=
  if pending s.request then some { s with request := s.request.update } else none

def updateResponse (s : InitiatorTop) : Option InitiatorTop :=
  if pending s.response then some { s with response := s.response.update } else none

end InitiatorTop

/-! ## The machine -/

inductive TopEvent where
  /-- `traffic_generator_thread` goes on. -/
  | generator
  /-- The initiator reads a request and calls `b_transport`, which returns with `p` and `delay`. -/
  | take (now : Nat) (p : Payload) (delay : ScTime)
  /-- The initiator's wait is over. -/
  | wake (now : Nat)
  /-- The initiator writes a response. -/
  | respond
  /-- The update phases of the channels. -/
  | updateRequest
  | updateResponse
  deriving DecidableEq

def topStep (s : InitiatorTop) : TopEvent → Option (InitiatorTop × List String)
  | .generator =>
    match s.generatorStep with
    | none => none
    | some (.error msg) => some (s, [msg])
    | some (.ok s') => some (s', [])
  | .take now p delay =>
    match s.takeRequest with
    | none => none
    | some (t, s') => some (s'.transported t now p delay, [])
  | .wake now => (s.wake now).map fun s' => (s', [])
  | .respond => s.respond.map fun s' => (s', [])
  | .updateRequest => s.updateRequest.map fun s' => (s', [])
  | .updateResponse => s.updateResponse.map fun s' => (s', [])

/-- One `initiator_top` on any bus; the outputs are the fatal reports. -/
def initiatorTop (id : UInt32) (baseAddress1 baseAddress2 : UInt64) (garbage : Nat → UInt32) :
    Machine InitiatorTop TopEvent String where
  init := .new id baseAddress1 baseAddress2 garbage
  step := topStep

/-! ## What a step can do -/

inductive Stepped (s : InitiatorTop) : TopEvent → InitiatorTop → Prop
  | skip (hp : s.gen.point = .body) (hq : s.gen.transactionQueue = []) :
    Stepped s .generator (s.setGen { s.gen with point := .check false })
  | issue {t : Nat} {queue : List Nat} (hp : s.gen.point = .body)
    (hq : s.gen.transactionQueue = t :: queue) : Stepped s .generator (s.issue t queue)
  | send {t : Nat} {f : ScFifo Nat} (hp : s.gen.point = .send t)
    (hw : s.request.nbWrite t = some f) :
    Stepped s .generator { s with request := f, gen := { s.gen with point := .check false } }
  | enter {all : Bool} (hp : s.gen.point = .check all) :
    Stepped s .generator (s.setGen { s.gen with point := .receive all })
  | leave {all : Bool} (hp : s.gen.point = .check all) (hq : s.gen.transactionQueue ≠ [])
    (hall : s.gen.checkAll = false) : Stepped s .generator (s.setGen (s.gen.checked all))
  | receive {all : Bool} {t : Nat} {f : ScFifo Nat} (hp : s.gen.point = .receive all)
    (hr : s.response.nbRead = some (t, f))
    (hok : InitiatorTop.checkResponse s.gen.id (s.txn t).payload = none) :
    Stepped s .generator (s.received all t f)
  | more (hp : s.gen.point = .checkAll) (ha : s.gen.activeTxnCount ≠ 0) :
    Stepped s .generator (s.setGen { s.gen with checkAll := true, point := .check true })
  | done (hp : s.gen.point = .checkAll) (ha : s.gen.activeTxnCount = 0) :
    Stepped s .generator (s.setGen s.gen.nextLoop)
  | take {now : Nat} {p : Payload} {delay : ScTime} {t : Nat} {f : ScFifo Nat}
    (hi : s.initiator = .reading) (hr : s.request.nbRead = some (t, f)) :
    Stepped s (.take now p delay) ({ s with request := f }.transported t now p delay)
  | wake {now t until_ : Nat} (hi : s.initiator = .waiting t until_) (ht : until_ ≤ now) :
    Stepped s (.wake now) { s with initiator := .responding t }
  | respond {t : Nat} {f : ScFifo Nat} (hi : s.initiator = .responding t)
    (hw : s.response.nbWrite t = some f) :
    Stepped s .respond { s with response := f, initiator := .reading }
  | updateRequest (hp : InitiatorTop.pending s.request = true) :
    Stepped s .updateRequest { s with request := s.request.update }
  | updateResponse (hp : InitiatorTop.pending s.response = true) :
    Stepped s .updateResponse { s with response := s.response.update }

/-- The generator reports a fatal error only for a response that fails its checks. -/
theorem generatorStep_cases {s : InitiatorTop} {r : Except String InitiatorTop}
    (h : s.generatorStep = some r) :
    (∃ s', r = .ok s' ∧ Stepped s .generator s') ∨
      ∃ all t f msg, r = .error msg ∧ s.gen.point = .receive all ∧
        s.response.nbRead = some (t, f) ∧
        InitiatorTop.checkResponse s.gen.id (s.txn t).payload = some msg := by
  unfold InitiatorTop.generatorStep at h
  cases hp : s.gen.point with
  | body =>
    simp only [hp] at h
    split at h
    · rename_i hq
      cases h
      exact Or.inl ⟨_, rfl, .skip hp hq⟩
    · rename_i t queue hq
      cases h
      exact Or.inl ⟨_, rfl, .issue hp hq⟩
  | send t =>
    simp only [hp] at h
    cases hw : s.request.nbWrite t with
    | none => simp [hw] at h
    | some f =>
      simp only [hw, Option.some.injEq] at h
      exact Or.inl ⟨_, h.symm, .send hp hw⟩
  | check all =>
    simp only [hp] at h
    split_ifs at h with hc
    · cases h
      exact Or.inl ⟨_, rfl, .enter hp⟩
    · cases h
      rw [not_or, not_or] at hc
      refine Or.inl ⟨_, rfl, .leave hp ?_ (by simpa using hc.2.1)⟩
      intro hq
      exact hc.1 (by rw [hq]; rfl)
  | receive all =>
    simp only [hp] at h
    cases hr : s.response.nbRead with
    | none => simp [hr] at h
    | some r' =>
      obtain ⟨t, f⟩ := r'
      simp only [hr] at h
      cases hc : InitiatorTop.checkResponse s.gen.id (s.txn t).payload with
      | some msg =>
        simp only [hc, Option.some.injEq] at h
        exact Or.inr ⟨all, t, f, msg, h.symm, rfl, rfl, hc⟩
      | none =>
        simp only [hc, Option.some.injEq] at h
        exact Or.inl ⟨_, h.symm, .receive hp hr hc⟩
  | checkAll =>
    simp only [hp] at h
    split_ifs at h with ha
    · cases h
      exact Or.inl ⟨_, rfl, .more hp ha⟩
    · cases h
      exact Or.inl ⟨_, rfl, .done hp (not_not.1 ha)⟩
  | complete => simp [hp] at h

/-- **What a step can do**: change the state as `Stepped` says, or report an error. -/
theorem topStep_cases {s s' : InitiatorTop} {e : TopEvent} {o : List String}
    (h : topStep s e = some (s', o)) :
    (Stepped s e s' ∧ o = []) ∨ e = .generator ∧ s' = s := by
  cases e with
  | generator =>
    simp only [topStep] at h
    cases hg : s.generatorStep with
    | none => simp [hg] at h
    | some r =>
      rcases generatorStep_cases hg with hok | hfatal
      · obtain ⟨s₁, rfl, hs⟩ := hok
        simp only [hg, Option.some.injEq, Prod.mk.injEq] at h
        obtain ⟨rfl, rfl⟩ := h
        exact Or.inl ⟨hs, rfl⟩
      · obtain ⟨-, -, -, msg, rfl, -⟩ := hfatal
        simp only [hg, Option.some.injEq, Prod.mk.injEq] at h
        exact Or.inr ⟨rfl, h.1.symm⟩
  | take now p delay =>
    simp only [topStep, InitiatorTop.takeRequest] at h
    cases hi : s.initiator with
    | waiting t u | responding t => simp [hi] at h
    | reading =>
      simp only [hi] at h
      cases hr : s.request.nbRead with
      | none => simp [hr] at h
      | some r =>
        simp only [hr, Option.map_some, Option.some.injEq, Prod.mk.injEq] at h
        obtain ⟨rfl, rfl⟩ := h
        exact Or.inl ⟨.take hi hr, rfl⟩
  | wake now =>
    simp only [topStep, InitiatorTop.wake] at h
    cases hi : s.initiator with
    | reading | responding t => simp [hi] at h
    | waiting t u =>
      simp only [hi] at h
      split_ifs at h with ht
      · cases h
        exact Or.inl ⟨.wake hi ht, rfl⟩
      · cases h
  | respond =>
    simp only [topStep, InitiatorTop.respond] at h
    cases hi : s.initiator with
    | reading | waiting t u => simp [hi] at h
    | responding t =>
      simp only [hi] at h
      cases hw : s.response.nbWrite t with
      | none => simp [hw] at h
      | some f =>
        simp only [hw, Option.map_some, Option.some.injEq, Prod.mk.injEq] at h
        obtain ⟨rfl, rfl⟩ := h
        exact Or.inl ⟨.respond hi hw, rfl⟩
  | updateRequest =>
    simp only [topStep, InitiatorTop.updateRequest] at h
    split_ifs at h with hp
    · cases h
      exact Or.inl ⟨.updateRequest hp, rfl⟩
    · cases h
  | updateResponse =>
    simp only [topStep, InitiatorTop.updateResponse] at h
    split_ifs at h with hp
    · cases h
      exact Or.inl ⟨.updateResponse hp, rfl⟩
    · cases h

/-! ## Where the transactions are -/

/-- The pointer that the generator is about to write. -/
def GeneratorPoint.sending : GeneratorPoint → List Nat
  | .send t => [t]
  | _ => []

/-- The pointer the initiator has. -/
def InitiatorPoint.held : InitiatorPoint → List Nat
  | .reading => []
  | .waiting t _ | .responding t => [t]

namespace InitiatorTop

variable (s : InitiatorTop)

/-- The transactions that the bus has seen and the generator has not got back, oldest first. -/
def transportedTxns : List Nat := s.response.contents ++ s.initiator.held

/-- The transactions that are on their way to the bus, oldest first. -/
def untransported : List Nat := s.request.contents ++ s.gen.point.sending

/-- The transactions out of the pool, oldest first. -/
def flight : List Nat := s.transportedTxns ++ s.untransported

end InitiatorTop

@[simp] theorem sending_checked (g : Generator) (all : Bool) :
    (g.checked all).point.sending = [] := by
  cases all
  · simp only [Generator.checked, Generator.nextIteration]
    split_ifs <;> rfl
  · rfl

@[simp] theorem sending_nextLoop (g : Generator) : g.nextLoop.point.sending = [] := by
  unfold Generator.nextLoop
  dsimp only
  split_ifs <;> rfl

@[simp] theorem transactionQueue_checked (g : Generator) (all : Bool) :
    (g.checked all).transactionQueue = g.transactionQueue := by
  cases all <;> rfl

@[simp] theorem transactionQueue_nextLoop (g : Generator) :
    g.nextLoop.transactionQueue = g.transactionQueue := by
  unfold Generator.nextLoop
  dsimp only
  split_ifs <;> rfl

@[simp] theorem activeTxnCount_checked (g : Generator) (all : Bool) :
    (g.checked all).activeTxnCount = g.activeTxnCount := by
  cases all <;> rfl

@[simp] theorem activeTxnCount_nextLoop (g : Generator) :
    g.nextLoop.activeTxnCount = g.activeTxnCount := by
  unfold Generator.nextLoop
  dsimp only
  split_ifs <;> rfl

/-- The transactions in flight are where they were. -/
structure SamePlaces (s s' : InitiatorTop) : Prop where
  transported : s'.transportedTxns = s.transportedTxns
  untransported : s'.untransported = s.untransported

theorem SamePlaces.flight {s s' : InitiatorTop} (h : SamePlaces s s') : s'.flight = s.flight := by
  rw [InitiatorTop.flight, h.transported, h.untransported]
  rfl

/-- What a step does to the owners of the transactions. -/
inductive Moved (s s' : InitiatorTop) : Prop
  | kept (hq : s'.gen.transactionQueue = s.gen.transactionQueue)
    (ha : s'.gen.activeTxnCount = s.gen.activeTxnCount) (hsame : SamePlaces s s')
    (hx : s'.txn = s.txn)
  | issued {t : Nat} {p : Payload} (hq : s.gen.transactionQueue = t :: s'.gen.transactionQueue)
    (ha : s'.gen.activeTxnCount = s.gen.activeTxnCount + 1)
    (ht : s'.transportedTxns = s.transportedTxns) (hu : s'.untransported = s.untransported ++ [t])
    (hx : s'.txn = Function.update s.txn t ⟨p, (s.txn t).refCount + 1⟩)
  | taken {t : Nat} {p : Payload} (hq : s'.gen.transactionQueue = s.gen.transactionQueue)
    (ha : s'.gen.activeTxnCount = s.gen.activeTxnCount)
    (ht : s'.transportedTxns = s.transportedTxns ++ [t])
    (hu : s.untransported = t :: s'.untransported)
    (hx : s'.txn = Function.update s.txn t ⟨p, (s.txn t).refCount⟩)
  | released {t : Nat}
    (hq : s'.gen.transactionQueue = s.gen.transactionQueue ++
      if (s.txn t).refCount - 1 = 0 then [t] else [])
    (ha : s'.gen.activeTxnCount = s.gen.activeTxnCount - 1)
    (ht : s.transportedTxns = t :: s'.transportedTxns) (hu : s'.untransported = s.untransported)
    (hx : s'.txn = Function.update s.txn t ⟨(s.txn t).payload, (s.txn t).refCount - 1⟩)

section SamePlaces

variable {s : InitiatorTop}

/-- The generator goes on. -/
theorem samePlaces_setGen {g : Generator} (hs : s.gen.point.sending = [])
    (hg : g.point.sending = []) : SamePlaces s (s.setGen g) := by
  refine ⟨rfl, ?_⟩
  simp only [InitiatorTop.untransported, InitiatorTop.setGen, hs, hg]

theorem samePlaces_send {t : Nat} {f : ScFifo Nat} {g : Generator} (hp : s.gen.point = .send t)
    (hw : s.request.nbWrite t = some f) (hg : g.point.sending = []) :
    SamePlaces s { s with request := f, gen := g } := by
  refine ⟨rfl, ?_⟩
  show f.contents ++ g.point.sending = s.request.contents ++ s.gen.point.sending
  rw [hp, hg, (ScFifo.nbWrite_eq_some hw).2, List.append_nil]
  rfl

theorem samePlaces_wake {t until_ : Nat} (hi : s.initiator = .waiting t until_) :
    SamePlaces s { s with initiator := .responding t } := by
  refine ⟨?_, rfl⟩
  simp only [InitiatorTop.transportedTxns, hi, InitiatorPoint.held]

theorem samePlaces_respond {t : Nat} {f : ScFifo Nat} (hi : s.initiator = .responding t)
    (hw : s.response.nbWrite t = some f) :
    SamePlaces s { s with response := f, initiator := .reading } := by
  refine ⟨?_, rfl⟩
  simp only [InitiatorTop.transportedTxns, hi, (ScFifo.nbWrite_eq_some hw).2,
    InitiatorPoint.held, List.append_nil]

theorem samePlaces_updateRequest : SamePlaces s { s with request := s.request.update } := by
  refine ⟨rfl, ?_⟩
  simp only [InitiatorTop.untransported, ScFifo.contents_update]

theorem samePlaces_updateResponse : SamePlaces s { s with response := s.response.update } := by
  refine ⟨?_, rfl⟩
  simp only [InitiatorTop.transportedTxns, ScFifo.contents_update]

end SamePlaces

theorem txn_received (s : InitiatorTop) (all : Bool) (t : Nat) (f : ScFifo Nat) :
    (s.received all t f).txn =
      Function.update s.txn t ⟨(s.txn t).payload, (s.txn t).refCount - 1⟩ := by
  simp only [InitiatorTop.received, InitiatorTop.release]
  split_ifs <;> rfl

/-- The oldest response comes back. -/
theorem places_received {s : InitiatorTop} (all : Bool) {t : Nat} {f : ScFifo Nat}
    (hs : s.gen.point.sending = []) (hr : s.response.nbRead = some (t, f)) :
    s.transportedTxns = t :: (s.received all t f).transportedTxns ∧
      (s.received all t f).untransported = s.untransported := by
  constructor
  · have hresp : (s.received all t f).transportedTxns = f.contents ++ s.initiator.held := by
      simp only [InitiatorTop.received, InitiatorTop.release]
      split_ifs <;> rfl
    rw [hresp, InitiatorTop.transportedTxns, (ScFifo.nbRead_eq_some hr).2, List.cons_append]
  · have hreq : (s.received all t f).untransported = s.request.contents ++ [] := by
      simp only [InitiatorTop.untransported, InitiatorTop.received, InitiatorTop.setGen,
        sending_checked, InitiatorTop.release]
      split_ifs <;> rfl
    rw [hreq, InitiatorTop.untransported, hs]

theorem moved_received {s : InitiatorTop} {all : Bool} {t : Nat} {f : ScFifo Nat}
    (hs : s.gen.point.sending = []) (hr : s.response.nbRead = some (t, f)) :
    Moved s (s.received all t f) := by
  obtain ⟨ht, hu⟩ := places_received all hs hr
  refine .released ?_ ?_ ht hu (txn_received s all t f)
  · simp only [InitiatorTop.received, InitiatorTop.setGen, transactionQueue_checked]
    simp only [InitiatorTop.release]
    split_ifs
    · rfl
    · simp [InitiatorTop.setTxn]
  · simp only [InitiatorTop.received, InitiatorTop.setGen, activeTxnCount_checked]
    simp only [InitiatorTop.release]
    split_ifs <;> rfl

/-- `b_transport` leaves the generator and the channels alone. -/
theorem InitiatorTop.transported_fields (s : InitiatorTop) (t now : Nat) (p : Payload)
    (delay : ScTime) :
    (s.transported t now p delay).gen = s.gen ∧
      (s.transported t now p delay).request = s.request ∧
      (s.transported t now p delay).response = s.response ∧
      (s.transported t now p delay).initiator.held = [t] ∧
      (s.transported t now p delay).txn =
        Function.update s.txn t ⟨p, (s.txn t).refCount⟩ := by
  unfold InitiatorTop.transported
  dsimp only
  split_ifs <;> exact ⟨rfl, rfl, rfl, rfl, rfl⟩

/-- The oldest request goes to the bus. -/
theorem places_take {s : InitiatorTop} {t : Nat} {f : ScFifo Nat} (now : Nat) (p : Payload)
    (delay : ScTime) (hi : s.initiator = .reading) (hr : s.request.nbRead = some (t, f)) :
    ({ s with request := f }.transported t now p delay).transportedTxns =
        s.transportedTxns ++ [t] ∧
      s.untransported = t :: ({ s with request := f }.transported t now p delay).untransported := by
  have hcont := (ScFifo.nbRead_eq_some hr).2
  obtain ⟨hgen, hreq, hresp, hheld, -⟩ :=
    InitiatorTop.transported_fields { s with request := f } t now p delay
  constructor
  · rw [InitiatorTop.transportedTxns, hheld, hresp, InitiatorTop.transportedTxns, hi,
      InitiatorPoint.held, List.append_nil]
  · rw [InitiatorTop.untransported, InitiatorTop.untransported, hgen, hreq, hcont,
      List.cons_append]

/-- The next request is about to be written. -/
theorem untransported_issue {s : InitiatorTop} {t : Nat} {queue : List Nat}
    (hp : s.gen.point = .body) : (s.issue t queue).untransported = s.untransported ++ [t] := by
  simp only [InitiatorTop.untransported, hp, InitiatorTop.issue, InitiatorTop.setGen,
    InitiatorTop.setTxn, GeneratorPoint.sending, List.append_nil]

theorem Stepped.moved {s s' : InitiatorTop} {e : TopEvent} (h : Stepped s e s') : Moved s s' := by
  cases h with
  | skip hp hq => exact .kept rfl rfl (samePlaces_setGen (by rw [hp]; rfl) rfl) rfl
  | issue hp hq => exact .issued hq rfl rfl (untransported_issue hp) rfl
  | send hp hw => exact .kept rfl rfl (samePlaces_send hp hw rfl) rfl
  | enter hp => exact .kept rfl rfl (samePlaces_setGen (by rw [hp]; rfl) rfl) rfl
  | leave hp hq hall =>
    exact .kept (transactionQueue_checked _ _) (activeTxnCount_checked _ _)
      (samePlaces_setGen (by rw [hp]; rfl) (sending_checked _ _)) rfl
  | receive hp hr hok => exact moved_received (by rw [hp]; rfl) hr
  | more hp ha => exact .kept rfl rfl (samePlaces_setGen (by rw [hp]; rfl) rfl) rfl
  | done hp ha =>
    exact .kept (transactionQueue_nextLoop _) (activeTxnCount_nextLoop _)
      (samePlaces_setGen (by rw [hp]; rfl) (sending_nextLoop _)) rfl
  | take hi hr =>
    obtain ⟨hgen, -, -, -, hx⟩ := InitiatorTop.transported_fields _ _ _ _ _
    obtain ⟨ht, hu⟩ := places_take _ _ _ hi hr
    exact .taken (by rw [hgen]) (by rw [hgen]) ht hu hx
  | wake hi ht => exact .kept rfl rfl (samePlaces_wake hi) rfl
  | respond hi hw => exact .kept rfl rfl (samePlaces_respond hi hw) rfl
  | updateRequest hp => exact .kept rfl rfl samePlaces_updateRequest rfl
  | updateResponse hp => exact .kept rfl rfl samePlaces_updateResponse rfl

/-! ## Ownership -/

/-- Every transaction has one owner, which is counted, and referenced, if it is not the pool. -/
structure Pool (s : InitiatorTop) : Prop where
  owners : (s.gen.transactionQueue ++ s.flight).Perm [0, 1, 2, 3]
  active : s.gen.activeTxnCount.toNat = s.flight.length
  free : ∀ t ∈ s.gen.transactionQueue, (s.txn t).refCount = 0
  acquired : ∀ t ∈ s.flight, (s.txn t).refCount = 1

namespace Pool

variable {s s' : InitiatorTop}

theorem nodup (h : Pool s) : (s.gen.transactionQueue ++ s.flight).Nodup :=
  h.owners.nodup_iff.2 (by decide)

theorem length (h : Pool s) : s.gen.transactionQueue.length + s.flight.length = 4 := by
  have hlen := h.owners.length_eq
  rwa [List.length_append] at hlen

theorem queue_ne_nil (h : Pool s) (hactive : s.gen.activeTxnCount = 0) :
    s.gen.transactionQueue ≠ [] := by
  intro hq
  have hlen := h.length
  rw [← h.active, hactive, hq] at hlen
  exact absurd hlen (by decide)

theorem flight_ne_nil (h : Pool s) (hactive : s.gen.activeTxnCount ≠ 0) : s.flight ≠ [] := by
  intro hflight
  have hzero := h.active
  rw [hflight, List.length_nil] at hzero
  exact hactive (UInt32.toNat_inj.1 hzero)

theorem kept (h : Pool s) (hq : s'.gen.transactionQueue = s.gen.transactionQueue)
    (ha : s'.gen.activeTxnCount = s.gen.activeTxnCount) (hf : s'.flight = s.flight)
    (hx : ∀ t, (s'.txn t).refCount = (s.txn t).refCount) : Pool s' where
  owners := by rw [hq, hf]; exact h.owners
  active := by rw [ha, hf]; exact h.active
  free := by
    intro t ht
    rw [hq] at ht
    rw [hx]
    exact h.free t ht
  acquired := by
    intro t ht
    rw [hf] at ht
    rw [hx]
    exact h.acquired t ht

/-- The first transaction of the pool goes out. -/
theorem issued (h : Pool s) {t : Nat} {x : Transaction}
    (hq : s.gen.transactionQueue = t :: s'.gen.transactionQueue)
    (ha : s'.gen.activeTxnCount = s.gen.activeTxnCount + 1) (hf : s'.flight = s.flight ++ [t])
    (hx : s'.txn = Function.update s.txn t x) (hcount : x.refCount = (s.txn t).refCount + 1) :
    Pool s' := by
  have hnodup := h.nodup
  have hlen := h.length
  rw [hq] at hnodup
  rw [hq, List.length_cons] at hlen
  have hfree : (s.txn t).refCount = 0 := h.free t (by rw [hq]; exact List.mem_cons_self ..)
  have hout : t ∉ s'.gen.transactionQueue ++ s.flight := (List.nodup_cons.1 hnodup).1
  rw [List.mem_append, not_or] at hout
  refine ⟨?_, ?_, ?_, ?_⟩
  · rw [hf]
    refine List.Perm.trans ?_ h.owners
    rw [hq, ← List.append_assoc]
    exact List.perm_append_singleton t _
  · have hle : s.gen.activeTxnCount.toNat < 4 := by
      have := h.active
      omega
    rw [ha, hf, UInt32.toNat_add, List.length_append, ← h.active]
    show (s.gen.activeTxnCount.toNat + 1) % 2 ^ 32 = _
    exact Nat.mod_eq_of_lt (by omega)
  · intro u hu
    have hne : u ≠ t := fun heq => hout.1 (heq ▸ hu)
    rw [hx, Function.update_of_ne hne]
    exact h.free u (by rw [hq]; exact List.mem_cons_of_mem t hu)
  · intro u hu
    rw [hx]
    by_cases hut : u = t
    · rw [hut, Function.update_self, hcount, hfree]
    · rw [Function.update_of_ne hut]
      rw [hf, List.mem_append, List.mem_singleton] at hu
      exact h.acquired u (hu.resolve_right hut)

/-- The oldest transaction comes back. -/
theorem released (h : Pool s) {t : Nat}
    (hq : s'.gen.transactionQueue = s.gen.transactionQueue ++
      if (s.txn t).refCount - 1 = 0 then [t] else [])
    (ha : s'.gen.activeTxnCount = s.gen.activeTxnCount - 1) (hf : s.flight = t :: s'.flight)
    (hx : s'.txn =
      Function.update s.txn t ⟨(s.txn t).payload, (s.txn t).refCount - 1⟩) : Pool s' := by
  have hone : (s.txn t).refCount = 1 := h.acquired t (by rw [hf]; exact List.mem_cons_self ..)
  rw [hone, Nat.sub_self, if_pos rfl] at hq
  have hnodup := h.nodup
  have hactive := h.active
  have howners := h.owners
  rw [hf, List.length_cons] at hactive
  rw [hf] at hnodup howners
  have hout : t ∉ s.gen.transactionQueue ++ s'.flight :=
    (List.nodup_cons.1 ((List.perm_middle.nodup_iff).1 hnodup)).1
  rw [List.mem_append, not_or] at hout
  refine ⟨?_, ?_, ?_, ?_⟩
  · rw [hq, List.append_assoc, List.singleton_append]
    exact howners
  · have hle : (1 : UInt32) ≤ s.gen.activeTxnCount := by
      rw [UInt32.le_iff_toNat_le]
      show 1 ≤ _
      omega
    rw [ha, UInt32.toNat_sub_of_le _ _ hle]
    show _ - 1 = _
    omega
  · intro u hu
    rw [hx]
    by_cases hut : u = t
    · rw [hut, Function.update_self, hone]
    · rw [Function.update_of_ne hut]
      rw [hq, List.mem_append, List.mem_singleton] at hu
      exact h.free u (hu.resolve_right hut)
  · intro u hu
    have hne : u ≠ t := fun heq => hout.2 (heq ▸ hu)
    rw [hx, Function.update_of_ne hne]
    exact h.acquired u (by rw [hf]; exact List.mem_cons_of_mem t hu)

end Pool

/-- A move that leaves the generator alone stays within the flight. -/
theorem Moved.flight_eq {s s' : InitiatorTop} (h : Moved s s') (hg : s'.gen = s.gen) :
    s'.flight = s.flight := by
  cases h with
  | kept hq ha hsame hx => exact hsame.flight
  | issued hq ha ht hu hx =>
    rw [hg] at hq
    exact absurd (congrArg List.length hq) (by simp)
  | taken hq ha ht hu hx =>
    rw [InitiatorTop.flight, InitiatorTop.flight, ht, hu, List.append_assoc, List.singleton_append]
  | released hq ha ht hu hx =>
    rw [hg, eq_comm, sub_eq_self] at ha
    cases ha

theorem Pool.moved {s s' : InitiatorTop} (h : Pool s) (hm : Moved s s') : Pool s' := by
  cases hm with
  | kept hq ha hsame hx => exact h.kept hq ha hsame.flight (by intro t; rw [hx])
  | issued hq ha ht hu hx =>
    refine h.issued hq ha ?_ hx rfl
    rw [InitiatorTop.flight, ht, hu, InitiatorTop.flight, List.append_assoc]
  | @taken t p hq ha ht hu hx =>
    refine h.kept hq ha ?_ ?_
    · rw [InitiatorTop.flight, InitiatorTop.flight, ht, hu, List.append_assoc,
        List.singleton_append]
    · intro u
      rw [hx]
      by_cases hut : u = t
      · rw [hut, Function.update_self]
      · rw [Function.update_of_ne hut]
  | released hq ha ht hu hx =>
    refine h.released hq ha ?_ hx
    rw [InitiatorTop.flight, InitiatorTop.flight, ht, hu, List.cons_append]

/-! ## The threads -/

/-- The channel has the default size, and no more cells are occupied by what was written before the
last update phase than there are transactions. -/
structure Roomy (f : ScFifo Nat) : Prop where
  size : f.size = 16
  cells : f.readable.length + f.numRead ≤ 4

namespace Roomy

variable {f f' : ScFifo Nat} {t : Nat}

theorem nbRead (h : Roomy f) (hr : f.nbRead = some (t, f')) : Roomy f' := by
  obtain ⟨hsize, hnum, -⟩ := ScFifo.nbRead_cells hr
  have hread := congrArg List.length (ScFifo.nbRead_eq_some hr).1
  rw [List.length_cons] at hread
  exact ⟨hsize.trans h.size, by have := h.cells; omega⟩

theorem nbWrite (h : Roomy f) (hw : f.nbWrite t = some f') : Roomy f' := by
  obtain ⟨hsize, hnum, -⟩ := ScFifo.nbWrite_cells hw
  have hread := (ScFifo.nbWrite_eq_some hw).1
  exact ⟨hsize.trans h.size, by rw [hread, hnum]; exact h.cells⟩

theorem update (h : Roomy f) (hlen : f.contents.length ≤ 4) : Roomy f.update :=
  ⟨h.size, by rw [ScFifo.readable_update]; exact hlen⟩

/-- A channel that holds no more than the transactions of the pool has a free cell. -/
theorem exists_nbWrite (h : Roomy f) (hlen : f.contents.length ≤ 4) (t : Nat) :
    ∃ f', f.nbWrite t = some f' := by
  apply ScFifo.exists_nbWrite
  have hcells := h.cells
  rw [ScFifo.contents, List.length_append] at hlen
  rw [ScFifo.numFree, h.size]
  omega

end Roomy

/-- The generator finds a transaction in the pool where it takes one, waits for a response only
while one is due, and ends when none is. -/
def PointOk (s : InitiatorTop) : Prop :=
  match s.gen.point with
  | .body => s.gen.transactionQueue ≠ []
  | .check _ | .receive _ => s.flight ≠ []
  | .complete => s.flight = []
  | .send _ | .checkAll => True

structure Conserved (s : InitiatorTop) : Prop where
  pool : Pool s
  request : Roomy s.request
  response : Roomy s.response
  point : PointOk s

theorem pointOk_checked {s : InitiatorTop} {g : Generator} {all : Bool}
    (h : g.transactionQueue ≠ []) : PointOk (s.setGen (g.checked all)) := by
  cases all
  · simp only [PointOk, InitiatorTop.setGen, Generator.checked, Generator.nextIteration]
    split_ifs
    · exact h
    · trivial
  · trivial

theorem pointOk_nextLoop {s : InitiatorTop} (hp : s.gen.point = .checkAll)
    (hq : s.gen.transactionQueue ≠ []) (hflight : s.flight = []) :
    PointOk (s.setGen s.gen.nextLoop) := by
  have hsame : SamePlaces s (s.setGen s.gen.nextLoop) :=
    samePlaces_setGen (by rw [hp]; rfl) (sending_nextLoop _)
  rw [← hsame.flight] at hflight
  have hpoint : s.gen.nextLoop.point = .body ∨ s.gen.nextLoop.point = .complete := by
    unfold Generator.nextLoop
    dsimp only
    split_ifs <;> simp
  unfold PointOk
  rcases hpoint with hbody | hend
  · simp only [InitiatorTop.setGen, hbody, transactionQueue_nextLoop]
    exact hq
  · simp only [InitiatorTop.setGen, hend]
    exact hflight

/-- The transactions in a channel are in flight. -/
theorem Pool.length_le {s : InitiatorTop} (h : Pool s) :
    s.request.contents.length ≤ 4 ∧ s.response.contents.length ≤ 4 := by
  have hlen := h.length
  rw [InitiatorTop.flight, InitiatorTop.transportedTxns, InitiatorTop.untransported] at hlen
  simp only [List.length_append] at hlen
  exact ⟨by omega, by omega⟩

/-- The initiator and the channels leave the generator alone. -/
theorem Stepped.gen_eq {s s' : InitiatorTop} {e : TopEvent} (h : Stepped s e s')
    (he : e ≠ .generator) : s'.gen = s.gen := by
  cases h with
  | take hi hr => exact (InitiatorTop.transported_fields _ _ _ _ _).1
  | wake | respond | updateRequest | updateResponse => rfl
  | skip | issue | send | enter | leave | receive | more | done => exact absurd rfl he

/-- The generator leaves the initiator alone, and does nothing once it is complete. -/
theorem Stepped.initiator_eq {s s' : InitiatorTop} (h : Stepped s .generator s') :
    s'.initiator = s.initiator ∧ s.gen.point ≠ .complete := by
  cases h with
  | receive hp hr hok =>
    constructor
    · simp only [InitiatorTop.received, InitiatorTop.release]
      split_ifs <;> rfl
    · rw [hp]
      simp
  | skip hp | issue hp | send hp | enter hp | leave hp | more hp | done hp =>
    refine ⟨rfl, ?_⟩
    rw [hp]
    simp

/-- After a response the pool is not empty. -/
theorem queue_received {s : InitiatorTop} {t : Nat} {f : ScFifo Nat} (h : Pool s)
    (hr : s.response.nbRead = some (t, f)) :
    (({ s with response := f } : InitiatorTop).release t).gen.transactionQueue ≠ [] := by
  have hone : (s.txn t).refCount = 1 := by
    apply h.acquired
    rw [InitiatorTop.flight, InitiatorTop.transportedTxns, (ScFifo.nbRead_eq_some hr).2]
    exact List.mem_cons_self ..
  simp only [InitiatorTop.release, hone, Nat.sub_self, if_true, InitiatorTop.setGen]
  exact List.append_ne_nil_of_right_ne_nil _ (List.cons_ne_nil t [])

theorem Conserved.pointOk {s s' : InitiatorTop} {e : TopEvent} (h : Conserved s)
    (hs : Stepped s e s') : PointOk s' := by
  have hpoint := h.point
  by_cases he : e = .generator
  · unfold PointOk at hpoint
    cases hs with
    | skip hp hq =>
      rw [hp] at hpoint
      exact absurd hq hpoint
    | issue hp hq => trivial
    | @send t f hp hw =>
      -- the pointer that was just written is in flight
      have hmem : t ∈ f.contents := by
        rw [(ScFifo.nbWrite_eq_some hw).2]
        exact List.mem_append_right _ (List.mem_singleton_self t)
      have hin : t ∈ s.transportedTxns ++ (f.contents ++ []) :=
        List.mem_append_right _ (List.mem_append_left _ hmem)
      exact List.ne_nil_of_mem hin
    | @enter all hp =>
      rw [hp] at hpoint
      have hflight : (s.setGen { s.gen with point := .receive all }).flight = s.flight :=
        (samePlaces_setGen (by rw [hp]; rfl) rfl).flight
      show InitiatorTop.flight _ ≠ []
      rw [hflight]
      exact hpoint
    | leave hp hq hall => exact pointOk_checked (by exact hq)
    | receive hp hr hok => exact pointOk_checked (queue_received h.pool hr)
    | more hp ha =>
      have hflight : (s.setGen { s.gen with checkAll := true, point := .check true }).flight =
          s.flight := (samePlaces_setGen (by rw [hp]; rfl) rfl).flight
      show InitiatorTop.flight _ ≠ []
      rw [hflight]
      exact h.pool.flight_ne_nil ha
    | done hp ha =>
      refine pointOk_nextLoop hp (h.pool.queue_ne_nil ha) (List.length_eq_zero_iff.1 ?_)
      rw [← h.pool.active, ha]
      rfl
    | take | wake | respond | updateRequest | updateResponse => cases he
  · have hgen := hs.gen_eq he
    unfold PointOk at hpoint ⊢
    rw [hs.moved.flight_eq hgen, hgen]
    exact hpoint

theorem Conserved.stepped {s s' : InitiatorTop} {e : TopEvent} (h : Conserved s)
    (hs : Stepped s e s') : Conserved s' := by
  refine ⟨h.pool.moved hs.moved, ?_, ?_, h.pointOk hs⟩
  · cases hs with
    | send hp hw => exact h.request.nbWrite hw
    | take hi hr =>
      rw [(InitiatorTop.transported_fields _ _ _ _ _).2.1]
      exact h.request.nbRead hr
    | updateRequest hp => exact h.request.update h.pool.length_le.1
    | receive hp hr hok =>
      simp only [InitiatorTop.received, InitiatorTop.release]
      split_ifs <;> exact h.request
    | skip | issue | enter | leave | more | done | wake | respond | updateResponse =>
      exact h.request
  · cases hs with
    | respond hi hw => exact h.response.nbWrite hw
    | receive hp hr hok =>
      simp only [InitiatorTop.received, InitiatorTop.release]
      split_ifs <;> exact h.response.nbRead hr
    | updateResponse hp => exact h.response.update h.pool.length_le.2
    | take hi hr =>
      rw [(InitiatorTop.transported_fields _ _ _ _ _).2.2.1]
      exact h.response
    | skip | issue | send | enter | leave | more | done | wake | updateRequest =>
      exact h.response

theorem conserved_new (id : UInt32) (baseAddress1 baseAddress2 : UInt64)
    (garbage : Nat → UInt32) : Conserved (.new id baseAddress1 baseAddress2 garbage) where
  pool := {
    owners := List.Perm.refl _
    active := rfl
    free := fun _ _ => rfl
    acquired := fun _ ht => absurd ht (List.not_mem_nil) }
  request := ⟨rfl, Nat.zero_le _⟩
  response := ⟨rfl, Nat.zero_le _⟩
  point := List.cons_ne_nil _ _

section Runs

variable {id : UInt32} {baseAddress1 baseAddress2 : UInt64} {garbage : Nat → UInt32}
  {es : List TopEvent} {s : InitiatorTop} {tr : List String}

theorem conserved_run (h : (initiatorTop id baseAddress1 baseAddress2 garbage).Run es s tr) :
    Conserved s := by
  refine Machine.inv_run (I := fun s _ => Conserved s) (conserved_new ..) ?_ h
  intro s tr e s' o hI hs
  rcases topStep_cases hs with hstep | hsame
  · exact hI.stepped hstep.1
  · rw [hsame.2]
    exact hI

/-- **No transaction is lost or shared, and no thread blocks for want of one.** The bus may return
anything. -/
theorem pool_conserved (h : (initiatorTop id baseAddress1 baseAddress2 garbage).Run es s tr) :
    (s.gen.transactionQueue ++ s.flight).Perm [0, 1, 2, 3] ∧
      s.gen.activeTxnCount.toNat = s.flight.length ∧
      (∀ t ∈ s.gen.transactionQueue, (s.txn t).refCount = 0) ∧
      (∀ t ∈ s.flight, (s.txn t).refCount = 1) ∧
      (s.gen.point = .body → s.gen.transactionQueue ≠ []) ∧
      (∀ t, s.gen.point = .send t → ∃ f, s.request.nbWrite t = some f) ∧
      (∀ all, s.gen.point = .receive all → s.flight ≠ []) ∧
      ∀ t, s.initiator = .responding t → ∃ f, s.response.nbWrite t = some f := by
  obtain ⟨hpool, hrequest, hresponse, hpoint⟩ := conserved_run h
  unfold PointOk at hpoint
  refine ⟨hpool.owners, hpool.active, hpool.free, hpool.acquired, ?_, ?_, ?_, ?_⟩
  · intro hp
    rwa [hp] at hpoint
  · intro t _
    exact hrequest.exists_nbWrite hpool.length_le.1 t
  · intro all hp
    rwa [hp] at hpoint
  · intro t _
    exact hresponse.exists_nbWrite hpool.length_le.2 t

end Runs

/-- The bus answers the first request with an error: the check of the response is a fatal report. -/
def refusedRequest : List TopEvent :=
  [.generator, .generator, .updateRequest,
    .take 0 ((readRequest (Transaction.new 0).payload 0).setResponseStatus .addressError) 0,
    .respond, .updateResponse, .generator, .generator]

theorem pool_conserved_refusedRequest :
    ∃ s, (initiatorTop 101 0 0x10000000 fun _ => 0).Run refusedRequest s ["101Transaction ERROR"] ∧
      s.flight = [0] ∧ (s.gen.transactionQueue ++ s.flight).Perm [0, 1, 2, 3] := by
  have h : (initiatorTop 101 0 0x10000000 fun _ => 0).Run refusedRequest _
    ["101Transaction ERROR"] := rfl
  exact ⟨_, h, rfl, (pool_conserved h).1⟩

end RenodeSystemC.Lt
