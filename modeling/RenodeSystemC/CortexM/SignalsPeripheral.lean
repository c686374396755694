import RenodeSystemC.Lib.Tlm
import RenodeSystemC.Lib.Machine

/-!
# `signals_peripheral` under the SystemC scheduler

The peripheral that shows a Cortex-M's signals to software. `receive_b_transport` serves one bus
transaction at a time, in the thread of the bridge: it yields for a delta cycle, reads an input
port or writes an output port, and after a write waits for the update to be seen before it replies.
`on_system_reset_request` is a thread of its own that answers a rising edge of
`in_system_reset_request` with a pulse on `out_core_reset_in`, the port that software writes at
offset 1001.

The events are transactions, writes of the input ports, and the scheduler's choices. A delta cycle
ends only when neither the transaction nor the thread is runnable; then the ports take the values
last written to them, and the zero-time waits and the edge wake their processes.
-/

namespace RenodeSystemC.CortexM

/-! ## Ports -/

/-- The output ports. -/
@[ext]
structure Outputs where
  /-- 480 of them. -/
  nvicIrqs : Nat → Bool
  nonMaskableInterrupt : Bool
  coreResetIn : Bool
  cpuWait : Bool
  powerOnReset : Bool
  initSVtor : UInt32
  initNsVtor : UInt32

/-- The input ports. -/
inductive Input where
  | systemResetRequest
  | sleeping
  | sleepDeep
  | lockup
  deriving DecidableEq, Repr

def vectorTableOffsetNonSecure : UInt32 := 0x2000a000
def vectorTableOffset : UInt32 := 0x2000b000
def memoryOffset : UInt32 := 0x20000000

/-- The ports after the constructor's `initialize` calls. -/
def Outputs.init : Outputs where
  nvicIrqs := fun _ => false
  nonMaskableInterrupt := false
  coreResetIn := false
  cpuWait := false
  powerOnReset := false
  initSVtor := memoryOffset
  initNsVtor := memoryOffset

/-! ## Processes -/

/-- How far `receive_b_transport` has come. -/
inductive Phase where
  /-- In its first `wait(SC_ZERO_TIME)`. -/
  | yielding
  /-- Runnable, before the `if`. -/
  | yielded
  /-- In the `wait(SC_ZERO_TIME)` at the end of `handle_write`. -/
  | committing
  /-- Runnable, at the end of `handle_write`. -/
  | committed
  /-- In the `wait(SC_ZERO_TIME)` after `handle_write`. -/
  | settling
  /-- Runnable, before the reply. -/
  | settled
  deriving DecidableEq, Repr

/-- A transaction being served. -/
structure Call where
  payload : Payload
  phase : Phase

/-- Where `on_system_reset_request` is suspended, or runnable. -/
inductive PulsePc where
  /-- Not yet started, or in `wait()`: sensitive to the rising edge. -/
  | waitEdge
  /-- Runnable, before `write(true)`. -/
  | woken
  /-- In `wait(SC_ZERO_TIME)`. -/
  | waitZero
  /-- Runnable, before `write(false)`. -/
  | resumed
  deriving DecidableEq, Repr

structure System where
  outputs : Signal Outputs
  inputs : Signal (Input → Bool)
  call : Option Call
  pulse : PulsePc
  /-- `std::abort` was called, or an assertion has failed. -/
  aborted : Bool

inductive Event where
  /-- A transaction on `bus_target_socket`. -/
  | request (p : Payload)
  /-- An input port is written. -/
  | drive (input : Input) (level : Bool)
  /-- The scheduler runs `receive_b_transport` to its next suspension. -/
  | runCall
  /-- The scheduler runs `on_system_reset_request` to its next suspension. -/
  | runPulse
  /-- The delta cycle ends. -/
  | delta
  deriving DecidableEq

inductive Output where
  /-- `handle_write` has called `out_core_reset_in.write(level)`. -/
  | wroteReset (level : Bool)
  /-- `receive_b_transport` has returned. -/
  | replied (p : Payload)
  deriving DecidableEq

/-! ## Transactions -/

/-- The first byte behind the data pointer. -/
def firstByte (p : Payload) : UInt8 := p.data.headD 0

/-- `new_signal_state`. -/
def newSignalState (p : Payload) : Bool := firstByte p != 0

/-- The input that `handle_read` reads. The cast to `Signal` keeps the low 32 bits. -/
def readInput (offset : UInt64) : Option Input :=
  if offset.toUInt32 = 1006 then some .systemResetRequest
  else if offset.toUInt32 = 1007 then some .sleeping
  else if offset.toUInt32 = 1008 then some .sleepDeep
  else if offset.toUInt32 = 1009 then some .lockup
  else none

/-- `*is_set = level`. -/
def setFirstByte (p : Payload) (level : Bool) : Payload :=
  p.setData (p.data.set 0 (if level then 1 else 0)) (List.length_set ..)

/-- The `switch` of `handle_write`; `none` is its `default`. -/
def writeOutput (offset : UInt64) (level : Bool) : Option (Outputs → Outputs) :=
  if offset = 1000 then some fun x => { x with nonMaskableInterrupt := level }
  else if offset = 1001 then some fun x => { x with coreResetIn := level }
  else if offset = 1002 then some fun x => { x with cpuWait := level }
  else if offset = 1005 then some fun x => { x with powerOnReset := level }
  else if offset = 1003 then some fun x => { x with initNsVtor := vectorTableOffsetNonSecure }
  else if offset = 1004 then some fun x => { x with initSVtor := vectorTableOffset }
  else none

def System.abort (sys : System) : System := { sys with aborted := true }

def System.setPhase (sys : System) (p : Payload) (phase : Phase) : System :=
  { sys with call := some ⟨p, phase⟩ }

/-- Reply with `TLM_OK_RESPONSE`. -/
def System.reply (sys : System) (p : Payload) : System × List Output :=
  ({ sys with call := none }, [.replied (p.setResponseStatus .ok)])

/-- `handle_read`, and the reply. -/
def handleRead (sys : System) (p : Payload) : System × List Output :=
  match readInput p.address with
  | some input => sys.reply (setFirstByte p (sys.inputs.current input))
  | none => (sys.abort, [])

/-- `handle_write` up to its wait, or, for an interrupt line, up to the wait after it. -/
def handleWrite (ndebug : Bool) (sys : System) (p : Payload) : System × List Output :=
  let level := newSignalState p
  if ndebug = false ∧ p.command ≠ .write then (sys.abort, [])
  else if p.address ≤ 479 then
    let outputs := sys.outputs.write fun x =>
      { x with nvicIrqs := Function.update x.nvicIrqs p.address.toNat level }
    ({ sys with outputs := outputs }.setPhase p .settling, [])
  else
    match writeOutput p.address level with
    | some f =>
      ({ sys with outputs := sys.outputs.write f }.setPhase p .committing,
        if p.address = 1001 then [.wroteReset level] else [])
    | none => (sys.abort, [])

/-- `receive_b_transport`, from where it is runnable to its next suspension. -/
def runCall (ndebug : Bool) (sys : System) : Option (System × List Output) :=
  match sys.call with
  | some ⟨p, .yielded⟩ =>
    some (if p.command = .read then handleRead sys p else handleWrite ndebug sys p)
  | some ⟨p, .committed⟩ => some (sys.setPhase p .settling, [])
  | some ⟨p, .settled⟩ => some (sys.reply p)
  | _ => none

/-! ## The reset pulse -/

def System.writeReset (sys : System) (level : Bool) : System :=
  { sys with outputs := sys.outputs.write fun x => { x with coreResetIn := level } }

/-- `on_system_reset_request`, from where it is runnable to its next suspension. -/
def runPulse (sys : System) : Option System :=
  match sys.pulse with
  | .woken => some { sys.writeReset true with pulse := .waitZero }
  | .resumed => some { sys.writeReset false with pulse := .waitEdge }
  | _ => none

/-! ## Delta cycles -/

def Phase.runnable : Phase → Bool
  | .yielded | .committed | .settled => true
  | .yielding | .committing | .settling => false

def Phase.afterDelta : Phase → Phase
  | .yielding => .yielded
  | .committing => .committed
  | .settling => .settled
  | phase => phase

def PulsePc.runnable : PulsePc → Bool
  | .woken | .resumed => true
  | .waitEdge | .waitZero => false

/-- What the notifications at the end of a delta cycle make of the thread. -/
def PulsePc.afterDelta (rises : Bool) : PulsePc → PulsePc
  | .waitEdge => if rises then .woken else .waitEdge
  | .waitZero => .resumed
  | pc => pc

/-- `in_system_reset_request` rises with the coming update. -/
def System.rises (sys : System) : Bool :=
  sys.inputs.next .systemResetRequest && !sys.inputs.current .systemResetRequest

/-- Some process has still to run in this delta cycle. -/
def System.runnable (sys : System) : Bool :=
  sys.pulse.runnable || sys.call.any fun c => c.phase.runnable

def System.endDelta (sys : System) : System where
  outputs := sys.outputs.update
  inputs := sys.inputs.update
  call := sys.call.map fun c => { c with phase := c.phase.afterDelta }
  pulse := sys.pulse.afterDelta sys.rises
  aborted := sys.aborted

/-! ## The machine -/

def step (ndebug : Bool) (sys : System) (e : Event) : Option (System × List Output) :=
  if sys.aborted then none
  else
    match e with
    | .request p => if sys.call.isNone then some (sys.setPhase p .yielding, []) else none
    | .drive input level =>
      some ({ sys with inputs := sys.inputs.write fun x => Function.update x input level }, [])
    | .runCall => runCall ndebug sys
    | .runPulse => (runPulse sys).map fun sys => (sys, [])
    | .delta => if sys.runnable then none else some (sys.endDelta, [])

/-- The peripheral after elaboration: the thread has `dont_initialize`. -/
def signalsPeripheral (ndebug : Bool) : Machine System Event Output where
  init :=
    { outputs := ⟨.init, .init⟩
      inputs := ⟨fun _ => false, fun _ => false⟩
      call := none
      pulse := .waitEdge
      aborted := false }
  step := step ndebug

/-! ## What a step can do -/

/-- The steps, told apart by what they do to `out_core_reset_in`. -/
inductive Stepped (sys : System) : Event → System → List Output → Prop
  | request (p : Payload) (hc : sys.call = none) :
    Stepped sys (.request p) (sys.setPhase p .yielding) []
  | drive (input : Input) (level : Bool) :
    Stepped sys (.drive input level)
      { sys with inputs := sys.inputs.write fun x => Function.update x input level } []
  | read {p q : Payload} (hc : sys.call = some ⟨p, .yielded⟩) (hp : p.command = .read)
    (hq : q.command = p.command) :
    Stepped sys .runCall (sys.reply q).1 (sys.reply q).2
  | writeReset {p : Payload} (hc : sys.call = some ⟨p, .yielded⟩) (hp : p.command ≠ .read)
    (ha : p.address = 1001) :
    Stepped sys .runCall ((sys.writeReset (newSignalState p)).setPhase p .committing)
      [.wroteReset (newSignalState p)]
  | writeOther {p : Payload} {f : Outputs → Outputs} {phase : Phase}
    (hc : sys.call = some ⟨p, .yielded⟩) (ha : p.address ≠ 1001)
    (hf : ∀ x, (f x).coreResetIn = x.coreResetIn) :
    Stepped sys .runCall ({ sys with outputs := sys.outputs.write f }.setPhase p phase) []
  | abort : Stepped sys .runCall sys.abort []
  | commit {p : Payload} (hc : sys.call = some ⟨p, .committed⟩) :
    Stepped sys .runCall (sys.setPhase p .settling) []
  | reply {p : Payload} (hc : sys.call = some ⟨p, .settled⟩) :
    Stepped sys .runCall (sys.reply p).1 (sys.reply p).2
  | rise (hp : sys.pulse = .woken) :
    Stepped sys .runPulse { sys.writeReset true with pulse := .waitZero } []
  | fall (hp : sys.pulse = .resumed) :
    Stepped sys .runPulse { sys.writeReset false with pulse := .waitEdge } []
  | delta (hr : sys.runnable = false) : Stepped sys .delta sys.endDelta []

/-- Every case of the `switch` but one leaves `out_core_reset_in` alone. -/
theorem writeOutput_coreResetIn {offset : UInt64} {level : Bool} {f : Outputs → Outputs}
    (h : writeOutput offset level = some f) (ha : offset ≠ 1001) (x : Outputs) :
    (f x).coreResetIn = x.coreResetIn := by
  unfold writeOutput at h
  split_ifs at h <;> cases h <;> rfl

theorem stepped_handleWrite {ndebug : Bool} {sys sys' : System} {p : Payload} {o : List Output}
    (hc : sys.call = some ⟨p, .yielded⟩) (hp : p.command ≠ .read)
    (h : handleWrite ndebug sys p = (sys', o)) : Stepped sys .runCall sys' o := by
  simp only [handleWrite] at h
  by_cases ha : p.address = 1001
  · have hnvic : ¬ p.address ≤ 479 := by rw [ha]; decide
    have hout : writeOutput p.address (newSignalState p) =
        some fun x => { x with coreResetIn := newSignalState p } := by rw [ha]; rfl
    rw [if_neg hnvic, hout, if_pos ha] at h
    split_ifs at h with hassert
    · cases h
      exact .abort
    · cases h
      exact .writeReset hc hp ha
  · split_ifs at h with hassert hnvic
    · cases h
      exact .abort
    · cases h
      exact .writeOther hc ha fun _ => rfl
    · split at h
      · rename_i f hf
        cases h
        exact .writeOther hc ha (writeOutput_coreResetIn hf ha)
      · cases h
        exact .abort

theorem stepped_runCall {ndebug : Bool} {sys sys' : System} {o : List Output}
    (h : runCall ndebug sys = some (sys', o)) : Stepped sys .runCall sys' o := by
  unfold runCall at h
  split at h
  · rename_i p hc
    rw [Option.some.injEq] at h
    split_ifs at h with hp
    · unfold handleRead at h
      split at h
      · cases h
        exact .read hc hp rfl
      · cases h
        exact .abort
    · exact stepped_handleWrite hc hp h
  · rename_i p hc
    cases h
    exact .commit hc
  · rename_i p hc
    cases h
    exact .reply hc
  · cases h

theorem stepped {ndebug : Bool} {sys sys' : System} {e : Event} {o : List Output}
    (h : step ndebug sys e = some (sys', o)) : Stepped sys e sys' o := by
  unfold step at h
  by_cases hab : sys.aborted = true
  · rw [if_pos hab] at h
    cases h
  rw [if_neg hab] at h
  cases e with
  | request p =>
    simp only at h
    split_ifs at h with hc
    cases h
    exact .request p (Option.isNone_iff_eq_none.1 hc)
  | drive input level =>
    cases h
    exact .drive input level
  | runCall => exact stepped_runCall h
  | runPulse =>
    simp only [runPulse] at h
    split at h
    · rename_i hp
      cases h
      exact .rise hp
    · rename_i hp
      cases h
      exact .fall hp
    · cases h
  | delta =>
    simp only at h
    split_ifs at h with hr
    cases h
    exact .delta (Bool.eq_false_of_not_eq_true hr)

end RenodeSystemC.CortexM
