import RenodeSystemC.Peripherals.Peripheral
import RenodeSystemC.Lib.Machine
import Mathlib.Logic.Function.Basic

/-!
# The DMA initiator of `Peripheral` and its targets

`fifo_data_received_method` sends every byte it reads as a non-blocking DMA write and goes on with
the next byte; `nb_transport_bw` finishes the transfers whose response comes later. Neither can
be suspended, so whatever happens during a call of the target happens inside that call: the state
has a stack of the calls of `nb_transport_fw` that are on the way, and backward calls of the target
nest in them.

The target is any one that keeps to the base protocol, for each transaction by itself: it answers
the request with an `END_REQ`, a `BEGIN_RESP` or a completion in a return or in a backward call,
each phase at most once and in this order, and answers `TLM_ACCEPTED` when it has nothing to add.
Everything else is refused. It sets the response status of a payload to anything, at any time
before it answers; `nb_transport_bw` sets it too, and the checks read what is in the payload then.
-/

namespace RenodeSystemC.Dma

open Peripherals

/-! ## State -/

/-- How far the target has taken a transaction. -/
inductive Phase where
  /-- Only `BEGIN_REQ` so far. -/
  | requested
  /-- The target has sent `END_REQ`. -/
  | accepted
  /-- The target has sent `BEGIN_RESP` or completed the transaction. -/
  | responded
  deriving DecidableEq, Repr

/-- A payload and its phase. -/
structure Transaction where
  request : DmaRequest
  responseStatus : ResponseStatus
  phase : Phase
  deriving DecidableEq

/-- A call of `nb_transport_fw` that has not returned, or a failed assertion. Transactions are
numbered in the order in which their payloads are allocated. -/
inductive Frame where
  /-- `fifo_data_received_method` passes `BEGIN_REQ`. -/
  | beginReq (k : Nat)
  /-- `fifo_data_received_method` passes `END_RESP`. -/
  | endResp (k : Nat)
  /-- `nb_transport_bw` passes `END_RESP`. -/
  | bwEndResp (k : Nat)
  /-- The check of the response status failed: the program has stopped. -/
  | failed (k : Nat)
  deriving DecidableEq

structure System where
  now : ScTime
  peripheral : Peripheral
  /-- The bytes that can be read from `fifo_in`. -/
  available : List UInt8
  /-- How many payloads have been allocated. -/
  count : Nat
  transaction : Nat → Transaction
  /-- The calls on the way, innermost first. -/
  stack : List Frame

inductive Event where
  /-- Time goes on to `t` and bytes become readable. -/
  | arrive (bytes : List UInt8) (t : ScTime)
  /-- The kernel runs `fifo_data_received_method`. -/
  | activate
  /-- `nb_transport_fw(BEGIN_REQ)` returns `TLM_ACCEPTED`. -/
  | accept
  /-- `nb_transport_fw(BEGIN_REQ)` returns `TLM_UPDATED` with `END_REQ`. -/
  | updateEndReq
  /-- `nb_transport_fw(BEGIN_REQ)` returns `TLM_UPDATED` with `BEGIN_RESP`. -/
  | updateBeginResp
  /-- `nb_transport_fw(BEGIN_REQ)` returns `TLM_COMPLETED`. -/
  | complete
  /-- `nb_transport_fw(END_RESP)` returns. -/
  | returnEndResp
  /-- The target calls `nb_transport_bw(END_REQ)`. -/
  | bwEndReq (k : Nat)
  /-- The target calls `nb_transport_bw(BEGIN_RESP)`. -/
  | bwBeginResp (k : Nat)
  /-- The target calls `set_response_status`. -/
  | setResponseStatus (k : Nat) (status : ResponseStatus)
  deriving DecidableEq

inductive Output where
  /-- `payload.acquire()`, right after the allocation. -/
  | acquire (k : Nat)
  /-- The peripheral reads or writes the payload, or passes it on. -/
  | touch (k : Nat)
  /-- `payload.release()`. -/
  | release (k : Nat)
  /-- `BEGIN_REQ` is sent. -/
  | beginReq (k : Nat)
  /-- `END_REQ` is received. -/
  | endReq (k : Nat)
  /-- `BEGIN_RESP` is received. -/
  | beginResp (k : Nat)
  /-- The completion is received. -/
  | completed (k : Nat)
  /-- `END_RESP` is sent, in a call or in a return with `TLM_UPDATED`. -/
  | endResp (k : Nat)
  deriving DecidableEq

/-! ## Steps -/

def System.phase (sys : System) (k : Nat) : Phase := (sys.transaction k).phase

/-- An assertion has failed. -/
def System.stopped (sys : System) : Bool :=
  match sys.stack with
  | .failed _ :: _ => true
  | _ => false

/-- The phase and the response status of the transaction change. -/
def System.setPhase (sys : System) (k : Nat) (phase : Phase) (status : ResponseStatus) : System :=
  { sys with
    transaction := Function.update sys.transaction k
      { sys.transaction k with phase := phase, responseStatus := status } }

@[simp] theorem count_setPhase (sys : System) (k : Nat) (ph : Phase) (st : ResponseStatus) :
    (sys.setPhase k ph st).count = sys.count := rfl

theorem phase_setPhase (sys : System) (k : Nat) (ph : Phase) (st : ResponseStatus) (j : Nat) :
    (sys.setPhase k ph st).phase j = if j = k then ph else sys.phase j := by
  unfold System.phase System.setPhase
  split_ifs with hj
  · subst hj
    simp
  · simp [hj]

theorem status_setPhase (sys : System) (k : Nat) (ph : Phase) (st : ResponseStatus) (j : Nat) :
    ((sys.setPhase k ph st).transaction j).responseStatus =
      if j = k then st else (sys.transaction j).responseStatus := by
  unfold System.setPhase
  split_ifs with hj
  · subst hj
    simp
  · simp [hj]

/-- Only the status changes. -/
theorem phase_setPhase_self (sys : System) (k : Nat) (st : ResponseStatus) (j : Nat) :
    (sys.setPhase k (sys.phase k) st).phase j = sys.phase j := by
  rw [phase_setPhase]
  split_ifs with hj
  · rw [hj]
  · rfl

/-- The `while` loop of `fifo_data_received_method`, up to its next call of `nb_transport_fw` or to
its end. -/
def drain (sys : System) : System × List Output :=
  match sys.available with
  | [] => (sys, [])
  | byte :: rest =>
    let u := receiveByte sys.now byte sys.peripheral
    let k := sys.count
    ({ sys with
        peripheral := u.1
        available := rest
        count := k + 1
        transaction := Function.update sys.transaction k ⟨u.2, .incomplete, .requested⟩
        stack := .beginReq k :: sys.stack },
      [.acquire k, .touch k, .beginReq k])

/-- `assert(payload.is_response_ok())` reads the payload, unless assertions are compiled out. -/
def check (ndebug : Bool) (k : Nat) : List Output := if ndebug then [] else [.touch k]

/-- The assertion passes. -/
def passes (ndebug : Bool) (status : ResponseStatus) : Bool := ndebug || status = .ok

/-- What an event does before the control goes back to the kernel or to the target or, where the
last component is `true`, to the head of the `while` loop of `fifo_data_received_method`. -/
def settle (ndebug : Bool) (sys : System) : Event → Option (System × List Output × Bool)
  | .arrive bytes t =>
    match sys.stack with
    | [] =>
      if sys.now ≤ t then
        some ({ sys with now := t, available := sys.available ++ bytes }, [], false)
      else none
    | _ => none
  | .activate =>
    match sys.stack with
    | [] => some (sys, [], true)
    | _ => none
  | .accept =>
    match sys.stack with
    | .beginReq _ :: rest => some ({ sys with stack := rest }, [], true)
    | _ => none
  | .updateEndReq =>
    match sys.stack with
    | .beginReq k :: rest =>
      if sys.phase k = .requested then
        let status := (sys.transaction k).responseStatus
        some ({ sys with stack := rest }.setPhase k .accepted status, [.endReq k], true)
      else none
    | _ => none
  | .updateBeginResp =>
    match sys.stack with
    | .beginReq k :: rest =>
      if sys.phase k ≠ .responded then
        let status := (sys.transaction k).responseStatus
        let sys := { sys with stack := rest }.setPhase k .responded status
        if passes ndebug status then
          some ({ sys with stack := .endResp k :: rest },
            Output.beginResp k :: check ndebug k ++ [Output.touch k, .endResp k], false)
        else
          some ({ sys with stack := .failed k :: rest }, Output.beginResp k :: check ndebug k,
            false)
      else none
    | _ => none
  | .complete =>
    match sys.stack with
    | .beginReq k :: rest =>
      if sys.phase k ≠ .responded then
        let status := (sys.transaction k).responseStatus
        let sys := { sys with stack := rest }.setPhase k .responded status
        if passes ndebug status then
          some (sys, Output.completed k :: check ndebug k ++ [Output.release k], true)
        else
          some ({ sys with stack := .failed k :: rest }, Output.completed k :: check ndebug k,
            false)
      else none
    | _ => none
  | .returnEndResp =>
    match sys.stack with
    | .endResp k :: rest =>
      if passes ndebug (sys.transaction k).responseStatus then
        some ({ sys with stack := rest }, check ndebug k ++ [Output.release k], true)
      else some ({ sys with stack := .failed k :: rest }, check ndebug k, false)
    -- `nb_transport_bw` has passed `END_RESP` and returns it as well.
    | .bwEndResp k :: rest => some ({ sys with stack := rest }, [.release k, .endResp k], false)
    | _ => none
  | .bwEndReq k =>
    if k < sys.count ∧ sys.phase k = .requested ∧ sys.stopped = false then
      some (sys.setPhase k .accepted .ok, [.touch k, .endReq k], false)
    else none
  | .bwBeginResp k =>
    -- The status the target has set is overwritten at once.
    if k < sys.count ∧ sys.phase k ≠ .responded ∧ sys.stopped = false then
      some ({ sys.setPhase k .responded .ok with stack := .bwEndResp k :: sys.stack },
        [.beginResp k, .touch k, .touch k, .endResp k], false)
    else none
  | .setResponseStatus k status =>
    if k < sys.count ∧ sys.phase k ≠ .responded ∧ sys.stopped = false then
      some (sys.setPhase k (sys.phase k) status, [], false)
    else none

/-- An event, and the loop if it goes on. -/
def step (ndebug : Bool) (sys : System) (e : Event) : Option (System × List Output) :=
  match settle ndebug sys e with
  | none => none
  | some (sys, o, false) => some (sys, o)
  | some (sys, o, true) => some ((drain sys).1, o ++ (drain sys).2)

/-- A peripheral after elaboration, and a target that has seen nothing. -/
def dma (ndebug : Bool) (garbage : Bytes) : Machine System Event Output where
  init :=
    { now := 0
      peripheral := .init garbage
      available := []
      count := 0
      transaction := fun _ => ⟨⟨0, 0, 0⟩, .incomplete, .requested⟩
      stack := [] }
  step := step ndebug

/-! ## What an event does -/

/-- Everything an event can do before the loop goes on. -/
inductive Settled (ndebug : Bool) (sys : System) : Event → System → List Output → Bool → Prop
  | arrive {bytes : List UInt8} {t : ScTime} (hs : sys.stack = []) :
      Settled ndebug sys (.arrive bytes t)
        { sys with now := t, available := sys.available ++ bytes } [] false
  | activate (hs : sys.stack = []) : Settled ndebug sys .activate sys [] true
  | accept {k : Nat} {rest : List Frame} (hs : sys.stack = .beginReq k :: rest) :
      Settled ndebug sys .accept { sys with stack := rest } [] true
  | endReq {k : Nat} {rest : List Frame} (hs : sys.stack = .beginReq k :: rest)
      (hp : sys.phase k = .requested) (status : ResponseStatus)
      (hstatus : status = (sys.transaction k).responseStatus) :
      Settled ndebug sys .updateEndReq
        ({ sys with stack := rest }.setPhase k .accepted status) [.endReq k] true
  | beginResp {k : Nat} {rest : List Frame} (hs : sys.stack = .beginReq k :: rest)
      (hp : sys.phase k ≠ .responded) (status : ResponseStatus)
      (hpass : passes ndebug (sys.transaction k).responseStatus = true) :
      Settled ndebug sys .updateBeginResp
        { { sys with stack := rest }.setPhase k .responded status with stack := .endResp k :: rest }
        (Output.beginResp k :: check ndebug k ++ [Output.touch k, .endResp k]) false
  | beginRespFailed {k : Nat} {rest : List Frame} (hs : sys.stack = .beginReq k :: rest)
      (hp : sys.phase k ≠ .responded) (status : ResponseStatus)
      (hfail : ¬ passes ndebug (sys.transaction k).responseStatus = true) :
      Settled ndebug sys .updateBeginResp
        { { sys with stack := rest }.setPhase k .responded status with stack := .failed k :: rest }
        (Output.beginResp k :: check ndebug k) false
  | complete {k : Nat} {rest : List Frame} (hs : sys.stack = .beginReq k :: rest)
      (hp : sys.phase k ≠ .responded) (status : ResponseStatus)
      (hpass : passes ndebug (sys.transaction k).responseStatus = true) :
      Settled ndebug sys .complete
        ({ sys with stack := rest }.setPhase k .responded status)
        (Output.completed k :: check ndebug k ++ [Output.release k]) true
  | completeFailed {k : Nat} {rest : List Frame} (hs : sys.stack = .beginReq k :: rest)
      (hp : sys.phase k ≠ .responded) (status : ResponseStatus)
      (hfail : ¬ passes ndebug (sys.transaction k).responseStatus = true) :
      Settled ndebug sys .complete
        { { sys with stack := rest }.setPhase k .responded status with stack := .failed k :: rest }
        (Output.completed k :: check ndebug k) false
  | endResp {k : Nat} {rest : List Frame} (hs : sys.stack = .endResp k :: rest) :
      Settled ndebug sys .returnEndResp { sys with stack := rest }
        (check ndebug k ++ [Output.release k]) true
  | endRespFailed {k : Nat} {rest : List Frame} (hs : sys.stack = .endResp k :: rest) :
      Settled ndebug sys .returnEndResp { sys with stack := .failed k :: rest }
        (check ndebug k) false
  | bwReturn {k : Nat} {rest : List Frame} (hs : sys.stack = .bwEndResp k :: rest) :
      Settled ndebug sys .returnEndResp { sys with stack := rest } [.release k, .endResp k] false
  | bwEndReq {k : Nat} (hlt : k < sys.count) (hp : sys.phase k = .requested) :
      Settled ndebug sys (.bwEndReq k) (sys.setPhase k .accepted .ok) [.touch k, .endReq k] false
  | bwBeginResp {k : Nat} (hlt : k < sys.count) (hp : sys.phase k ≠ .responded)
      (hrunning : sys.stopped = false) :
      Settled ndebug sys (.bwBeginResp k)
        { sys.setPhase k .responded .ok with stack := .bwEndResp k :: sys.stack }
        [.beginResp k, .touch k, .touch k, .endResp k] false
  | setResponseStatus {k : Nat} (hlt : k < sys.count) (hp : sys.phase k ≠ .responded)
      (status : ResponseStatus) :
      Settled ndebug sys (.setResponseStatus k status) (sys.setPhase k (sys.phase k) status)
        [] false

theorem settled {ndebug : Bool} {sys sys' : System} {e : Event} {o : List Output} {b : Bool}
    (h : settle ndebug sys e = some (sys', o, b)) : Settled ndebug sys e sys' o b := by
  cases e with
  | arrive bytes t =>
    simp only [settle] at h
    split at h
    · rename_i hs
      split_ifs at h
      cases h
      exact .arrive hs
    · cases h
  | activate =>
    simp only [settle] at h
    split at h
    · rename_i hs; cases h; exact .activate hs
    · cases h
  | accept =>
    simp only [settle] at h
    split at h
    · rename_i hs; cases h; exact .accept hs
    · cases h
  | updateEndReq =>
    simp only [settle] at h
    split at h
    · rename_i hs
      split_ifs at h with hp
      cases h
      exact .endReq hs hp _ rfl
    · cases h
  | updateBeginResp =>
    simp only [settle] at h
    split at h
    · rename_i hs
      split_ifs at h with hp hpass
      · cases h; exact .beginResp hs hp _ hpass
      · cases h; exact .beginRespFailed hs hp _ hpass
    · cases h
  | complete =>
    simp only [settle] at h
    split at h
    · rename_i hs
      split_ifs at h with hp hpass
      · cases h; exact .complete hs hp _ hpass
      · cases h; exact .completeFailed hs hp _ hpass
    · cases h
  | returnEndResp =>
    simp only [settle] at h
    split at h
    · rename_i hs
      split_ifs at h with hpass
      · cases h; exact .endResp hs
      · cases h; exact .endRespFailed hs
    · rename_i hs; cases h; exact .bwReturn hs
    · cases h
  | bwEndReq k =>
    simp only [settle] at h
    split_ifs at h with hcond
    cases h
    exact .bwEndReq hcond.1 hcond.2.1
  | bwBeginResp k =>
    simp only [settle] at h
    split_ifs at h with hcond
    cases h
    exact .bwBeginResp hcond.1 hcond.2.1 hcond.2.2
  | setResponseStatus k status =>
    simp only [settle] at h
    split_ifs at h with hcond
    cases h
    exact .setResponseStatus hcond.1 hcond.2.1 status

/-- A step is an event, and the loop if it goes on. -/
theorem step_eq_some {ndebug : Bool} {sys sys' : System} {e : Event} {o : List Output}
    (hs : step ndebug sys e = some (sys', o)) :
    Settled ndebug sys e sys' o false ∨ ∃ sys₁ o₁, Settled ndebug sys e sys₁ o₁ true ∧
      sys' = (drain sys₁).1 ∧ o = o₁ ++ (drain sys₁).2 := by
  unfold step at hs
  split at hs
  · cases hs
  · rename_i heq
    cases hs
    exact Or.inl (settled heq)
  · rename_i heq
    cases hs
    exact Or.inr ⟨_, _, settled heq, rfl, rfl⟩

/-- **Step rule.** What holds after the event itself, and is kept by the loop where it goes on,
holds after the step. -/
theorem step_rule {ndebug : Bool} {sys sys' : System} {e : Event} {o : List Output}
    {I : System → List Output → Prop} (tr : List Output)
    (hsettled : ∀ {sys₁ o₁ b}, Settled ndebug sys e sys₁ o₁ b →
      I sys₁ (tr ++ o₁) ∧ (b = true → I (drain sys₁).1 (tr ++ o₁ ++ (drain sys₁).2)))
    (hs : step ndebug sys e = some (sys', o)) : I sys' (tr ++ o) := by
  rcases step_eq_some hs with h | ⟨sys₁, o₁, h, rfl, rfl⟩
  · exact (hsettled h).1
  · rw [← List.append_assoc]
    exact (hsettled h).2 rfl

end RenodeSystemC.Dma
