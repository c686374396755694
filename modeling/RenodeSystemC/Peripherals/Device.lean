import Mathlib.Data.Rat.Floor
import RenodeSystemC.Lib.Machine
import RenodeSystemC.Peripherals.Peripheral

/-!
# One `Peripheral`, with any surroundings

All that can happen to one peripheral: transactions on both target sockets at any time, bytes
arriving on `fifo_in` and being handled, bytes being taken from `fifo_out`, its own timer thread and
interrupt, delta cycles, and time. Nothing is assumed about the other end of a socket or a FIFO.

A transaction is taken where the wait for its incoming delay ends, so its time is the time at which
`update_timer` or the register write happens. The quotient and the product of times in
`update_timer`, which the source takes in floating point, are exact rationals here (`readingAt`);
the subtraction before them is unsigned, and the narrowing to the 32-bit field is modulo `2 ^ 32`.

A store that leaves the register object, of 112 bytes, is not followed further than the bytes behind
it: the other members of the module keep their values. `Overrun` follows it into the state of the
timer, and shows that a run whose stores stay inside the object is one of the runs here.
-/

namespace RenodeSystemC.Peripherals

open Bytes

/-- The clock period, as a number of ticks. -/
def period : Nat := 1000

theorem toNat_clockPeriod : clockPeriod.toNat = period := by decide

/-- The delay of a transfer, in ticks. -/
theorem toNat_transferDelay {length : Nat} (h : length < 2 ^ 32) :
    (transferDelay length).toNat = (length + 3) / 4 * period := by
  have hle : (length + 3) / 4 ≤ 2 ^ 30 := by omega
  rw [transferDelay, UInt64.toNat_mul, UInt64.toNat_ofNat', toNat_clockPeriod,
    Nat.mod_eq_of_lt (show (length + 3) / 4 < 2 ^ 64 by omega)]
  apply Nat.mod_eq_of_lt
  unfold period
  omega

/-! ## The timer reading -/

/-- The product of a number and a time, as a time. -/
def ScTime.scale (q : ℚ) (t : ScTime) : ScTime := UInt64.ofInt (round (q * t.toNat))

/-- What `update_timer` computes at the time `now`. -/
def readingAt (now : ScTime) (s : Peripheral) : TimerReading :=
  let timerTime := now - s.startTime
  let timerCycles : ℚ := timerTime.toNat / clockPeriod.toNat
  let timer := UInt32.ofNat ⌈timerCycles⌉.toNat
  let timerCyclesRem : ℚ := timer.toNat - timerCycles
  ⟨timer, ScTime.scale timerCyclesRem clockPeriod⟩

/-! ## The machine -/

structure Device where
  now : ScTime
  peripheral : Peripheral
  /-- The bytes that can be read from `fifo_in`. -/
  available : List UInt8

inductive DeviceEvent where
  /-- A `b_transport` call has consumed its incoming delay. -/
  | transport (id : TargetIndex) (delay : ScTime) (p : Payload)
  /-- Time goes on, not past the notification of the timer. -/
  | advance (t : ScTime)
  /-- `timer_done_event` fires. -/
  | fire
  /-- The timer thread writes one byte. -/
  | stream
  /-- The reader of `fifo_out` takes a byte. -/
  | take
  /-- Bytes become readable on `fifo_in`. -/
  | arrive (bytes : List UInt8)
  /-- `fifo_data_received_method` goes through its loop once. -/
  | receive
  /-- The wait before the interrupt ends. -/
  | assertIrq
  /-- A delta cycle ends. -/
  | delta
  deriving DecidableEq

inductive DeviceOutput where
  /-- A transaction returns, with a delay. -/
  | reply (id : TargetIndex) (p : Payload) (delay : ScTime)
  /-- `nb_transport_fw(BEGIN_REQ)` is called at the time `t`. -/
  | dma (t : ScTime) (r : DmaRequest)
  deriving DecidableEq

/-- The peripheral changes. -/
def Device.set (d : Device) (s : Peripheral) : Device := { d with peripheral := s }

def deviceStep (d : Device) : DeviceEvent → Option (Device × List DeviceOutput)
  | .transport id delay p =>
    let (out, delay) := bTransport id d.now delay (readingAt d.now d.peripheral) d.peripheral p
    some (d.set out.state, [.reply id out.payload delay])
  | .advance t =>
    if d.now ≤ t ∧ d.peripheral.timerDoneEvent.all (t ≤ ·) = true then
      some ({ d with now := t }, [])
    else none
  | .fire =>
    if d.peripheral.timerDoneEvent = some d.now then some (d.set (timerDone d.peripheral), [])
    else none
  | .stream => (streamByte d.peripheral).map fun s => (d.set s, [])
  | .take =>
    d.peripheral.fifo.nbRead.map fun r => (d.set { d.peripheral with fifo := r.2 }, [])
  | .arrive bytes => some ({ d with available := d.available ++ bytes }, [])
  | .receive =>
    match d.available with
    | [] => none
    | byte :: rest =>
      let (s, r) := receiveByte d.now byte d.peripheral
      some ({ d.set s with available := rest }, [.dma d.now r])
  | .assertIrq => if d.peripheral.irqWait then some (d.set (assertIrq d.peripheral), []) else none
  | .delta => some (d.set d.peripheral.afterDelta, [])

/-- The peripheral after elaboration. -/
def device (garbage : Bytes) : Machine Device DeviceEvent DeviceOutput where
  init := ⟨0, .init garbage, []⟩
  step := deviceStep

/-! ## What a step can do -/

inductive DeviceStepped (d : Device) : DeviceEvent → Device → List DeviceOutput → Prop
  | transport {id : TargetIndex} {delay delay' : ScTime} {p : Payload} {out : Outcome Peripheral}
    (h : Transported id d.now delay (readingAt d.now d.peripheral) d.peripheral p out) :
    DeviceStepped d (.transport id delay p) (d.set out.state) [.reply id out.payload delay']
  | advance {t : ScTime} (ht : d.now ≤ t) (hdone : d.peripheral.timerDoneEvent.all (t ≤ ·) = true) :
    DeviceStepped d (.advance t) { d with now := t } []
  | fire (h : d.peripheral.timerDoneEvent = some d.now) :
    DeviceStepped d .fire (d.set (timerDone d.peripheral)) []
  | stream {s : Peripheral} (h : streamByte d.peripheral = some s) :
    DeviceStepped d .stream (d.set s) []
  | take {byte : UInt8} {fifo : ScFifo UInt8} (h : d.peripheral.fifo.nbRead = some (byte, fifo)) :
    DeviceStepped d .take (d.set { d.peripheral with fifo := fifo }) []
  | arrive {bytes : List UInt8} :
    DeviceStepped d (.arrive bytes) { d with available := d.available ++ bytes } []
  | receive {byte : UInt8} {rest : List UInt8} (h : d.available = byte :: rest) :
    DeviceStepped d .receive
      { d.set (receiveByte d.now byte d.peripheral).1 with available := rest }
      [.dma d.now (receiveByte d.now byte d.peripheral).2]
  | assertIrq (h : d.peripheral.irqWait = true) :
    DeviceStepped d .assertIrq (d.set (assertIrq d.peripheral)) []
  | delta : DeviceStepped d .delta (d.set d.peripheral.afterDelta) []

theorem deviceStepped {d d' : Device} {e : DeviceEvent} {o : List DeviceOutput}
    (h : deviceStep d e = some (d', o)) : DeviceStepped d e d' o := by
  cases e with
  | transport id delay p =>
    cases h
    exact .transport (transported ..)
  | advance t =>
    simp only [deviceStep] at h
    split_ifs at h with ht
    cases h
    exact .advance ht.1 ht.2
  | fire =>
    simp only [deviceStep] at h
    split_ifs at h with hf
    cases h
    exact .fire hf
  | stream =>
    obtain ⟨s, hs, heq⟩ := Option.map_eq_some_iff.1 h
    cases heq
    exact .stream hs
  | take =>
    obtain ⟨⟨byte, fifo⟩, hr, heq⟩ := Option.map_eq_some_iff.1 h
    cases heq
    exact .take hr
  | arrive bytes =>
    cases h
    exact .arrive
  | receive =>
    simp only [deviceStep] at h
    split at h
    · cases h
    · rename_i havail
      cases h
      exact .receive havail
  | assertIrq =>
    simp only [deviceStep] at h
    split_ifs at h with hw
    cases h
    exact .assertIrq hw
  | delta =>
    cases h
    exact .delta

/-! ## What single operations leave alone -/

/-- The members that only the timer commands and the FIFO handler change. -/
structure SameClocks (s s' : Peripheral) : Prop where
  startTime : s'.startTime = s.startTime
  startTimeValid : s'.startTimeValid = s.startTimeValid
  previousTimeStamp : s'.previousTimeStamp = s.previousTimeStamp

theorem SameClocks.refl (s : Peripheral) : SameClocks s s := ⟨rfl, rfl, rfl⟩

theorem sameClocks_updateTimer (reading : TimerReading) (s : Peripheral) :
    SameClocks s (updateTimer reading s).1 := by
  unfold updateTimer
  split_ifs
  · exact ⟨rfl, rfl, rfl⟩
  · exact .refl s

theorem sameClocks_timerDone (s : Peripheral) : SameClocks s (timerDone s) := by
  unfold timerDone
  split <;> exact ⟨rfl, rfl, rfl⟩

theorem sameClocks_streamByte {s s' : Peripheral} (h : streamByte s = some s') :
    SameClocks s s' := by
  unfold streamByte at h
  split at h
  · split at h
    · cases h
    · cases h
      exact ⟨rfl, rfl, rfl⟩
  · cases h

/-- The `previous_time_stamp` belongs to the FIFO handler. -/
theorem previousTimeStamp_processCommand (now delay : ScTime) (s : Peripheral) :
    (processCommandRegisterFields now delay s).previousTimeStamp = s.previousTimeStamp := by
  unfold processCommandRegisterFields
  split_ifs <;> rfl

/-- The time and the delay of a DMA transfer that starts. -/
def DeviceOutput.sent : DeviceOutput → Option (ScTime × ScTime)
  | .dma t r => some (t, r.delay)
  | .reply .. => none

/-- What a step can do to the clocks. -/
inductive Clocks (d : Device) : Device → List DeviceOutput → Prop
  /-- Nothing; only time may go on. -/
  | keep {d' : Device} {o : List DeviceOutput} (hnow : d.now ≤ d'.now)
    (hs : SameClocks d.peripheral d'.peripheral) (ho : o.filterMap DeviceOutput.sent = []) :
    Clocks d d' o
  /-- A write is followed by the command it gives. -/
  | command {d' : Device} {o : List DeviceOutput} (s : Peripheral) {length : Nat}
    (hlength : length < 2 ^ 32) (hnow : d'.now = d.now) (hs : SameClocks d.peripheral s)
    (hs' : SameClocks (processCommandRegisterFields d.now (transferDelay length) s) d'.peripheral)
    (ho : o.filterMap DeviceOutput.sent = []) : Clocks d d' o
  /-- A byte is turned into a DMA transfer. -/
  | receive {d' : Device} {o : List DeviceOutput} (byte : UInt8) (hnow : d'.now = d.now)
    (hs : SameClocks (receiveByte d.now byte d.peripheral).1 d'.peripheral)
    (ho : o.filterMap DeviceOutput.sent =
      [(d.now, (receiveByte d.now byte d.peripheral).2.delay)]) : Clocks d d' o

theorem clocks_step {d d' : Device} {e : DeviceEvent} {o : List DeviceOutput}
    (h : deviceStep d e = some (d', o)) : Clocks d d' o := by
  have hsame : d.now ≤ d.now := UInt64.le_refl _
  cases deviceStepped h with
  | @transport id delay delay' p out ht =>
    cases ht with
    | refused | ignore => exact .keep hsame (.refl _) rfl
    | read => exact .keep hsame (sameClocks_updateTimer _ _) rfl
    | writeRegisters =>
      exact .command (d.peripheral.storeRegisters (id.offset p.address) p.data) p.length_lt rfl
        ⟨rfl, rfl, rfl⟩ (.refl _) rfl
    | writeMemory =>
      exact .command (d.peripheral.storeRegisters (id.offset p.address) p.data) p.length_lt rfl
        ⟨rfl, rfl, rfl⟩ ⟨rfl, rfl, rfl⟩ rfl
  | advance ht => exact .keep ht (.refl _) rfl
  | fire => exact .keep hsame (sameClocks_timerDone _) rfl
  | stream hs => exact .keep hsame (sameClocks_streamByte hs) rfl
  | take | assertIrq | delta => exact .keep hsame ⟨rfl, rfl, rfl⟩ rfl
  | arrive => exact .keep hsame (.refl _) rfl
  | @receive byte rest => exact .receive byte rfl (.refl _) rfl

end RenodeSystemC.Peripherals
