import RenodeSystemC.Lib.Fifo
import RenodeSystemC.Lib.Tlm

/-!
# `Peripheral`

The example peripheral: a timer that streams bytes to `fifo_out` when it rolls over, a FIFO
handler that turns each byte from `fifo_in` into a DMA write, and two target sockets onto the
register structure and the memory inside it. Names follow `peripheral.cpp`.

The register structure is kept as the bytes of the object, since `b_transport` copies bytes at an
offset from its start, and `memory_if` at an offset from the start of `memory`.
-/

namespace RenodeSystemC.Peripherals

open Bytes

/-! ## State -/

section Layout

/-! Where the fields of `PeripheralRegisterInterface` lie in the object. -/

def cmdStartTimerOffset : Nat := 0
def timerOffset : Nat := 4
def timerDoneOffset : Nat := 8
def irqAckOffset : Nat := 9
def memoryOffset : Nat := 10

/-- `memory.size()`. -/
def memorySize : Nat := 100

/-- `sizeof(PeripheralRegisterInterface)`: the fields and the memory, up to the next multiple of the
alignment of `timer`. -/
def registerInterfaceSize : Nat := 112

end Layout

/-- Where `timer_done_thread` is. It runs once: it returns after streaming and is never
entered again. -/
inductive TimerThread where
  /-- Not started: `timer_done_event` has not fired. -/
  | waiting
  /-- In `fifo.write(i)`. -/
  | streaming (i : Fin memorySize)
  | finished
  deriving DecidableEq, Repr

/-- The thread after the write of `i`: the next round of the loop, or its end. -/
def TimerThread.after (i : Fin memorySize) : TimerThread :=
  if h : i + 1 < memorySize then .streaming ⟨i + 1, h⟩ else .finished

/-- The module's members, and where its processes are. -/
structure Peripheral where
  /-- The bytes of the `PeripheralRegisterInterface` object. -/
  registers : Bytes
  fifo : ScFifo UInt8
  irqSignal : Signal Bool
  /-- The time for which `timer_done_event` is notified. -/
  timerDoneEvent : Option ScTime
  startTime : ScTime
  startTimeValid : Bool
  previousTimeStamp : ScTime
  memoryIndex : UInt32
  memoryWrittenCount : UInt32
  timerThread : TimerThread
  /-- A `b_transport` call waits, to consume its delay, before it asserts the interrupt. -/
  irqWait : Bool

/-- The clock period, 1 ns. -/
def clockPeriod : ScTime := ScTime.ofNs 1

/-- The default capacity of an `sc_fifo`. -/
def fifoSize : Nat := 16

/-- The constructor. The register fields have initializers, the memory has none, so what it
holds is whatever `garbage` says. -/
def Peripheral.init (garbage : Bytes) : Peripheral where
  registers i := if i < memoryOffset then 0 else garbage i
  fifo := .empty _ fifoSize
  irqSignal := { current := false, next := false }
  timerDoneEvent := none
  startTime := 0
  startTimeValid := false
  previousTimeStamp := 0
  memoryIndex := 0
  memoryWrittenCount := 0
  timerThread := .waiting
  irqWait := false

/-- `memory[i]`. -/
def Peripheral.memory (s : Peripheral) (i : Nat) : UInt8 := s.registers (memoryOffset + i)

/-- `cmd_start_timer`. -/
def Peripheral.cmdStartTimer (s : Peripheral) : Bool := s.registers cmdStartTimerOffset != 0

/-- Bytes of the register structure change. -/
def Peripheral.storeRegisters (s : Peripheral) (off : Nat) (src : List UInt8) : Peripheral :=
  { s with registers := s.registers.store off src }

/-! ## The timer -/

/-- `sc_event::notify` for a given time: the earlier of two notifications stays. -/
def notifyAt (pending : Option ScTime) (t : ScTime) : Option ScTime :=
  match pending with
  | none => some t
  | some u => some (min u t)

/-- `start_timer`. -/
def startTimer (now delay : ScTime) (s : Peripheral) : Peripheral :=
  let newStartTime := now + delay
  let startTime := if s.startTimeValid then min s.startTime newStartTime else newStartTime
  let timerDoneTime := startTime + 2 ^ 32 * clockPeriod
  { s with
    startTime := startTime
    startTimeValid := true
    timerDoneEvent :=
      if now ≤ timerDoneTime then notifyAt s.timerDoneEvent timerDoneTime else s.timerDoneEvent }

/-- `process_command_register_fields`. -/
def processCommandRegisterFields (now delay : ScTime) (s : Peripheral) : Peripheral :=
  if s.cmdStartTimer then (startTimer now delay s).storeRegisters cmdStartTimerOffset [0] else s

/-- What `update_timer` computes in floating point: the cycle count, rounded up, and the time to
the end of the cycle. -/
structure TimerReading where
  cycles : UInt32
  remainder : ScTime
  deriving DecidableEq

/-- `update_timer`, after its wait, and the delay it adds. -/
def updateTimer (reading : TimerReading) (s : Peripheral) : Peripheral × ScTime :=
  if s.startTimeValid then
    (s.storeRegisters timerOffset (leBytes 4 reading.cycles.toNat), reading.remainder)
  else (s, 0)

/-- `timer_done_event` fires. The thread starts if it has not run yet. -/
def timerDone (s : Peripheral) : Peripheral :=
  match s.timerThread with
  | .waiting =>
    { s.storeRegisters timerDoneOffset [1] with
      timerDoneEvent := none, timerThread := .streaming ⟨0, by decide⟩ }
  | _ => { s with timerDoneEvent := none }

/-- One round of the loop of `timer_done_thread`: `fifo.write(i)` returns. -/
def streamByte (s : Peripheral) : Option Peripheral :=
  match s.timerThread with
  | .streaming i =>
    match s.fifo.nbWrite (UInt8.ofNat i.val) with
    | none => none
    | some fifo =>
      some { s with fifo := fifo, timerThread := .after i }
  | _ => none

/-! ## The FIFO handler -/

/-- The payload of one DMA write: one byte, behind a pointer into this peripheral's memory. -/
structure DmaRequest where
  address : UInt64
  /-- The pointer is `&memory[dataPtr]`. -/
  dataPtr : Nat
  /-- The delay annotated to the call. -/
  delay : ScTime
  deriving DecidableEq

/-- What the target finds in the payload when the byte behind the pointer is `data`. -/
def DmaRequest.payload (r : DmaRequest) (data : UInt8) : Payload where
  command := .write
  address := r.address
  data := [data]
  responseStatus := .incomplete
  length_lt := Payload.byteLength_lt

/-- One round of the loop of `fifo_data_received_method`, from the byte it has read to the call of
`nb_transport_fw`. -/
def receiveByte (now : ScTime) (byte : UInt8) (s : Peripheral) : Peripheral × DmaRequest :=
  let value := byte ^^^ 0xFF
  let delta := now - s.previousTimeStamp
  let delay := if delta < clockPeriod then clockPeriod - delta else 0
  ({ s.storeRegisters (memoryOffset + s.memoryIndex.toNat) [value] with
      memoryIndex := s.memoryIndex + 1
      previousTimeStamp := now + delay },
    { address := s.memoryIndex.toUInt64, dataPtr := s.memoryIndex.toNat, delay := delay })

/-! ## The target sockets -/

/-- The two target sockets. -/
inductive TargetIndex where
  | regif
  | memory
  deriving DecidableEq, Repr

/-- Where the socket's addresses start in the object. -/
def TargetIndex.base : TargetIndex → Nat
  | .regif => 0
  | .memory => memoryOffset

/-- Where an access starts in the object. The sum with the pointer to the base goes around. -/
def TargetIndex.offset (id : TargetIndex) (address : UInt64) : Nat :=
  (id.base + address.toNat) % 2 ^ 64

theorem TargetIndex.offset_of_lt (id : TargetIndex) {address : UInt64}
    (h : id.base + address.toNat < 2 ^ 64) : id.offset address = id.base + address.toNat :=
  Nat.mod_eq_of_lt h

/-- `ceil(data_length / bus_width) * clock_period`, for the default bus width of 32 bits. -/
def transferDelay (length : Nat) : ScTime := UInt64.ofNat ((length + 3) / 4) * clockPeriod

/-- A write through `memory_if` is counted, and the one that completes the memory goes on to assert
the interrupt. -/
def countWritten (length : UInt32) (s : Peripheral) : Peripheral :=
  let count := s.memoryWrittenCount + length
  { s with
    memoryWrittenCount := count
    irqWait := s.irqWait || count == UInt32.ofNat memorySize }

/-- `b_transport`, and the delay it returns. A read or a write is taken where the wait for the
incoming delay ends, and goes on to its return or, for the write that completes the memory, to
its second wait. Nothing is read or written before the first wait but the payload. -/
def bTransport (id : TargetIndex) (now delay : ScTime) (reading : TimerReading) (s : Peripheral)
    (p : Payload) : Outcome Peripheral × ScTime :=
  let offset := id.offset p.address
  if p.streamingWidth < p.dataLength then
    (⟨s, p.setResponseStatus .burstError, ⟨0, 0⟩⟩, delay)
  else if p.byteEnable then
    (⟨s, p.setResponseStatus .byteEnableError, ⟨0, 0⟩⟩, delay)
  else
    match p.command with
    | .read =>
      let u := updateTimer reading s
      let bytes := u.1.registers.load offset p.data.length
      (⟨u.1, (p.setData bytes (length_load ..)).setResponseStatus .ok, ⟨offset, p.data.length⟩⟩,
        u.2 + transferDelay p.data.length)
    | .write =>
      let s := s.storeRegisters offset p.data
      let s := processCommandRegisterFields now (transferDelay p.data.length) s
      let s := if id = .memory then countWritten p.dataLength s else s
      (⟨s, p.setResponseStatus .ok, ⟨offset, p.data.length⟩⟩,
        if id = .memory ∧ s.memoryWrittenCount = UInt32.ofNat memorySize then 0
        else transferDelay p.data.length)
    | .ignore => (⟨s, p.setResponseStatus .ok, ⟨0, 0⟩⟩, delay)

/-- The error checks refuse the payload. -/
def Refused (p : Payload) : Prop := p.streamingWidth < p.dataLength ∨ p.byteEnable = true

instance (p : Payload) : Decidable (Refused p) := inferInstanceAs (Decidable (_ ∨ _))

/-- What `b_transport` does, by the branch it takes. -/
inductive Transported (id : TargetIndex) (now delay : ScTime) (reading : TimerReading)
    (s : Peripheral) (p : Payload) : Outcome Peripheral → Prop
  | refused (hp : Refused p) {status : ResponseStatus} (hs : status ≠ .ok) :
    Transported id now delay reading s p ⟨s, p.setResponseStatus status, ⟨0, 0⟩⟩
  | read (hp : ¬ Refused p) (hc : p.command = .read) {q : Payload} (hq : q.responseStatus = .ok) :
    Transported id now delay reading s p
      ⟨(updateTimer reading s).1, q, ⟨id.offset p.address, p.data.length⟩⟩
  | writeRegisters (hp : ¬ Refused p) (hc : p.command = .write) (hid : id = .regif) :
    Transported id now delay reading s p
      ⟨processCommandRegisterFields now (transferDelay p.data.length)
          (s.storeRegisters (id.offset p.address) p.data),
        p.setResponseStatus .ok, ⟨id.offset p.address, p.data.length⟩⟩
  | writeMemory (hp : ¬ Refused p) (hc : p.command = .write) (hid : id = .memory) :
    Transported id now delay reading s p
      ⟨countWritten p.dataLength (processCommandRegisterFields now (transferDelay p.data.length)
          (s.storeRegisters (id.offset p.address) p.data)),
        p.setResponseStatus .ok, ⟨id.offset p.address, p.data.length⟩⟩
  | ignore (hp : ¬ Refused p) (hc : p.command = .ignore) :
    Transported id now delay reading s p ⟨s, p.setResponseStatus .ok, ⟨0, 0⟩⟩

theorem transported (id : TargetIndex) (now delay : ScTime) (reading : TimerReading)
    (s : Peripheral) (p : Payload) :
    Transported id now delay reading s p (bTransport id now delay reading s p).1 := by
  unfold bTransport
  by_cases hwidth : p.streamingWidth < p.dataLength
  · rw [if_pos hwidth]
    exact .refused (Or.inl hwidth) (by decide)
  rw [if_neg hwidth]
  by_cases henable : p.byteEnable = true
  · rw [if_pos henable]
    exact .refused (Or.inr henable) (by decide)
  rw [if_neg henable]
  have hp : ¬ Refused p := not_or.2 ⟨hwidth, henable⟩
  cases hc : p.command with
  | read => exact .read hp hc rfl
  | write =>
    cases id with
    | regif => exact .writeRegisters hp hc rfl
    | memory => exact .writeMemory hp hc rfl
  | ignore => exact .ignore hp hc

/-- An accepted write through `register_if`. -/
theorem bTransport_writeRegisters (now delay : ScTime) (reading : TimerReading) (s : Peripheral)
    {p : Payload} (hp : ¬ Refused p) (hc : p.command = .write) :
    bTransport .regif now delay reading s p =
      (⟨processCommandRegisterFields now (transferDelay p.data.length)
          (s.storeRegisters (TargetIndex.regif.offset p.address) p.data),
        p.setResponseStatus .ok, ⟨TargetIndex.regif.offset p.address, p.data.length⟩⟩,
        transferDelay p.data.length) := by
  obtain ⟨hwidth, henable⟩ := not_or.1 hp
  rw [bTransport, if_neg hwidth, if_neg henable, hc]
  rfl

/-- The wait before the interrupt ends. -/
def assertIrq (s : Peripheral) : Peripheral :=
  { s with irqSignal := s.irqSignal.write fun _ => true, irqWait := false }

/-- The end of a delta cycle. -/
def Peripheral.afterDelta (s : Peripheral) : Peripheral :=
  { s with fifo := s.fifo.update, irqSignal := s.irqSignal.update }

/-! ## Which members an operation changes -/

section Frames

variable (s : Peripheral)

theorem updateTimer_eq (reading : TimerReading) :
    ∃ registers, (updateTimer reading s).1 = { s with registers := registers } := by
  unfold updateTimer
  split_ifs
  · exact ⟨_, rfl⟩
  · exact ⟨_, rfl⟩

theorem processCommandRegisterFields_eq (now delay : ScTime) :
    ∃ registers start valid done, processCommandRegisterFields now delay s =
      { s with
        registers := registers, startTime := start, startTimeValid := valid
        timerDoneEvent := done } := by
  unfold processCommandRegisterFields
  split_ifs
  · exact ⟨_, _, _, _, rfl⟩
  · exact ⟨_, _, _, _, rfl⟩

theorem timerDone_eq :
    ∃ registers thread, timerDone s =
      { s with registers := registers, timerDoneEvent := none, timerThread := thread } := by
  unfold timerDone
  split
  · exact ⟨_, _, rfl⟩
  · exact ⟨_, _, rfl⟩

theorem streamByte_eq {s s' : Peripheral} (h : streamByte s = some s') :
    ∃ i fifo, s.timerThread = .streaming i ∧
      s' = { s with fifo := fifo, timerThread := .after i } := by
  unfold streamByte at h
  split at h
  · rename_i i hthread
    split at h
    · cases h
    · cases h
      exact ⟨i, _, hthread, rfl⟩
  · cases h

end Frames

end RenodeSystemC.Peripherals
