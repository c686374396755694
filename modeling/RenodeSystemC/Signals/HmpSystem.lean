import RenodeSystemC.Signals.Hmp

/-!
# `hmp_signals` under the SystemC scheduler

The device, its writer thread and the delta cycles between them, as a machine. The events are
transactions on the two buses, level changes of `system_reset_request`, and the scheduler's
choices: run the writer, let its `b_transport` return, or end the delta cycle. A delta cycle
ends only when no process is runnable; the signals then take their new values, and the
scheduled notification, if there is one, fires and wakes the writer only if it waits for the event
at that moment.
-/

namespace RenodeSystemC.Hmp

open Signals Bytes

/-! ## The writer thread -/

/-- Where `system_bus_writer` is suspended, or runnable. -/
inductive WriterPc where
  /-- Runnable, at the top of the thread. -/
  | start
  /-- In `wait(system_bus_write_event)`. -/
  | waitEvent
  /-- Runnable: the event fired. -/
  | woken
  /-- In `wait(SC_ZERO_TIME)`. -/
  | waitZero
  /-- Runnable: the delta cycle passed. -/
  | resumed
  /-- In `b_transport` on `system_bus_initiator_socket[core]`. -/
  | inTransport (core : Core)
  deriving DecidableEq, Repr

def WriterPc.runnable : WriterPc → Bool
  | .start | .woken | .resumed => true
  | .waitEvent | .waitZero | .inTransport _ => false

/-- What the delta notification phase makes of the writer; `fired` tells whether
`system_bus_write_event` fires. -/
def WriterPc.afterDelta (fired : Bool) : WriterPc → WriterPc
  | .waitEvent => if fired then .woken else .waitEvent
  | .waitZero => .resumed
  | pc => pc

structure System where
  signals : HmpSignals
  writer : WriterPc

inductive Event where
  /-- A transaction on `core`'s bus. -/
  | transport (core : Core) (p : Payload)
  /-- The `system_reset_request` input takes a level. -/
  | resetRequest (level : Bool)
  /-- The scheduler runs the writer thread to its next suspension. -/
  | runWriter
  /-- The writer's `b_transport` call returns. -/
  | busReturn
  /-- The delta cycle ends. -/
  | delta
  deriving DecidableEq

inductive Output where
  /-- A transaction is answered; `raised` when it set the core's pending flag. -/
  | reply (core : Core) (p : Payload) (raised : Bool)
  /-- The writer calls `b_transport`. -/
  | busWrite (core : Core) (p : Payload)
  deriving DecidableEq

/-- The payload the writer sends for `core`. -/
def busPayload (core : Core) : Payload where
  command := .write
  address := systemBusTestAddress core
  data := leBytes 4 (systemBusTestValue + UInt32.ofNat core.index).toNat
  responseStatus := .incomplete
  length_lt := by rw [length_leBytes]; decide

/-- The writer's `for` loop over the remaining cores, up to its next suspension: the call for
the first pending core, or the wait at the top of the `while` loop. -/
def servePending : List Core → System → System × List Output
  | [], sys => ({ sys with writer := .waitEvent }, [])
  | core :: cores, sys =>
    if sys.signals.systemBusWritePending core then
      let pending := Function.update sys.signals.systemBusWritePending core false
      ({ signals := { sys.signals with systemBusWritePending := pending },
         writer := .inTransport core }, [.busWrite core (busPayload core)])
    else servePending cores sys

/-- The cores the `for` loop has still to visit after `core`. -/
def Core.after : Core → List Core
  | .riscV => [.arm]
  | .arm => []

/-- The end of a delta cycle, for the device: signals update, the notification is spent. -/
def HmpSignals.afterDelta (s : HmpSignals) : HmpSignals :=
  { s with ports := s.ports.update, systemBusWriteEvent := false }

/-! ## The machine -/

def step (sys : System) : Event → Option (System × List Output)
  | .transport core p =>
    let r := bTransport core sys.signals p
    some ({ sys with signals := r.state }, [.reply core r.payload (raises core sys.signals p)])
  | .resetRequest level =>
    some ({ sys with signals := { sys.signals with systemResetRequest := level } }, [])
  | .runWriter =>
    match sys.writer with
    | .start => some ({ sys with writer := .waitEvent }, [])
    | .woken => some ({ sys with writer := .waitZero }, [])
    | .resumed => some (servePending [.riscV, .arm] sys)
    | _ => none
  | .busReturn =>
    match sys.writer with
    | .inTransport core => some (servePending core.after sys)
    | _ => none
  | .delta =>
    if sys.writer.runnable then none
    else
      some ({ signals := sys.signals.afterDelta,
              writer := sys.writer.afterDelta sys.signals.systemBusWriteEvent }, [])

/-- The system after elaboration: the writer thread is runnable in the first evaluation phase. -/
def hmp : Machine System Event Output where
  init := { signals := HmpSignals.init, writer := .start }
  step := step

/-! ## What a step does to the device -/

theorem servePending_signals (cores : List Core) (sys : System) :
    ∃ f, (servePending cores sys).1.signals = { sys.signals with systemBusWritePending := f } := by
  induction cores with
  | nil => exact ⟨sys.signals.systemBusWritePending, rfl⟩
  | cons core cores ih =>
    unfold servePending
    split_ifs
    · exact ⟨_, rfl⟩
    · exact ih

/-- The device changes by a transaction, or only in its reset-request input, its pending flags,
its event and the update of its signals. -/
theorem step_signals {sys sys' : System} {e : Event} {o : List Output}
    (h : step sys e = some (sys', o)) :
    (∃ core p, e = .transport core p ∧ sys'.signals = (bTransport core sys.signals p).state) ∨
      ((∀ core p, e ≠ .transport core p) ∧ ∃ level pending event ports,
        (ports = sys.signals.ports ∨ ports = sys.signals.ports.update) ∧
        sys'.signals = { sys.signals with
          systemResetRequest := level
          systemBusWritePending := pending
          systemBusWriteEvent := event
          ports := ports }) := by
  cases e with
  | transport core p =>
    cases h
    exact Or.inl ⟨core, p, rfl, rfl⟩
  | resetRequest level =>
    cases h
    exact Or.inr ⟨by simp, level, _, _, _, Or.inl rfl, rfl⟩
  | runWriter =>
    refine Or.inr ⟨by simp, ?_⟩
    simp only [step] at h
    split at h
    · cases h; exact ⟨_, _, _, _, Or.inl rfl, rfl⟩
    · cases h; exact ⟨_, _, _, _, Or.inl rfl, rfl⟩
    · obtain ⟨f, hf⟩ := servePending_signals [.riscV, .arm] sys
      rw [Option.some.injEq] at h
      rw [h] at hf
      exact ⟨_, f, _, _, Or.inl rfl, hf⟩
    · cases h
  | busReturn =>
    refine Or.inr ⟨by simp, ?_⟩
    simp only [step] at h
    split at h
    · rename_i core _
      obtain ⟨f, hf⟩ := servePending_signals core.after sys
      rw [Option.some.injEq] at h
      rw [h] at hf
      exact ⟨_, f, _, _, Or.inl rfl, hf⟩
    · cases h
  | delta =>
    refine Or.inr ⟨by simp, ?_⟩
    simp only [step] at h
    split_ifs at h
    cases h
    exact ⟨_, _, _, _, Or.inr rfl, rfl⟩

end RenodeSystemC.Hmp
