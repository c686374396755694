import RenodeSystemC.Signals.Registers
import RenodeSystemC.Lib.Machine
import Mathlib.Data.Fintype.Basic

/-!
# `hmp_signals`

The heterogeneous CPU signals device: one RISC-V and one Arm core, each with its own control
registers and memory, one thread that answers bus-write triggers for both. Names follow
`hmp_signals.h` and `hmp_signals.cpp`.

`handle_control` first waits one delta cycle, before it looks at anything. A control access is
therefore one atomic step, taken where that wait returns, and what other processes do during the
wait is whatever comes before it in the run. Everything else runs without suspension, except
for the writer thread, whose three suspension points are the constructors of `WriterPc`.
-/

namespace RenodeSystemC.Hmp

open Signals Bytes

inductive Core where
  | riscV
  | arm
  deriving DecidableEq, Repr

instance : Fintype Core where
  elems := {.riscV, .arm}
  complete core := by cases core <;> simp

/-- The value of the `Core` enumerator. -/
def Core.index : Core → Nat
  | .riscV => 0
  | .arm => 1

/-! ## State -/

/-- The output ports. -/
@[ext] structure Ports where
  resetIn : Core → Bool
  nmiIn : Core → Bool
  bootAddress : UInt64
  interruptInputs : Core → Fin numInterrupts → Bool
  clockPeriod : Core → ScTime
  vectorTableOffset : UInt32
  cpuWait : Bool

/-- The module's members. A scheduled delta notification is all that can be pending for
`system_bus_write_event`, so the event is a flag. -/
structure HmpSignals where
  ports : Signal Ports
  systemResetRequest : Bool
  controlRegisters : Core → Bytes
  memory : Core → Bytes
  systemBusWriteEvent : Bool
  systemBusWritePending : Core → Bool
  bootAddressValue : UInt64
  clockPeriodNs : Core → UInt32
  vtorValue : UInt32

def defaultVtor : UInt32 := 0x20000000
def defaultBootAddress : UInt64 := 0x80000000

def defaultClockPeriodNs : Core → UInt32
  | .riscV => 10
  | .arm => 20

def systemBusTestAddress : Core → UInt64
  | .riscV => 0x80001000
  | .arm => 0x20001000

def systemBusTestValue : UInt32 := 0x5A5AA5A5

/-- Signals hold the default value of their type until the first update phase. -/
def Ports.zero : Ports where
  resetIn _ := false
  nmiIn _ := false
  bootAddress := 0
  interruptInputs _ _ := false
  clockPeriod _ := 0
  vectorTableOffset := 0
  cpuWait := false

/-- The control registers as the constructor leaves them. -/
def initialRegisters (core : Core) : Bytes :=
  let zeros : Bytes := fun _ => 0
  let regs := zeros.store clockPeriodOffset (leBytes 4 (defaultClockPeriodNs core).toNat)
  match core with
  | .riscV => regs.store bootAddressOffset (leBytes 8 defaultBootAddress.toNat)
  | .arm => regs.store bootAddressOffset (leBytes 4 defaultVtor.toNat)

/-- The constructor; `initialize` requests the first values of the ports. -/
def HmpSignals.init : HmpSignals where
  ports :=
    { current := Ports.zero
      next :=
        { resetIn := fun _ => false
          nmiIn := fun _ => false
          bootAddress := defaultBootAddress
          interruptInputs := fun _ _ => false
          clockPeriod := fun core => ScTime.ofNs (defaultClockPeriodNs core)
          vectorTableOffset := defaultVtor
          cpuWait := false } }
  systemResetRequest := false
  controlRegisters := initialRegisters
  memory _ _ := 0
  systemBusWriteEvent := false
  systemBusWritePending _ := false
  bootAddressValue := defaultBootAddress
  clockPeriodNs := defaultClockPeriodNs
  vtorValue := defaultVtor

/-! ## Transport -/

/-- Bytes of `core`'s control registers change. -/
def HmpSignals.storeControl (s : HmpSignals) (core : Core) (off : Nat) (src : List UInt8) :
    HmpSignals :=
  { s with controlRegisters :=
      Function.update s.controlRegisters core ((s.controlRegisters core).store off src) }

/-- Bytes of `core`'s memory change. -/
def HmpSignals.storeMemory (s : HmpSignals) (core : Core) (off : Nat) (src : List UInt8) :
    HmpSignals :=
  { s with memory := Function.update s.memory core ((s.memory core).store off src) }

/-- A read through the Arm socket first copies the `system_reset_request` level into its
register. -/
def HmpSignals.sampleResetRequest (s : HmpSignals) (core : Core) : HmpSignals :=
  if core = .arm then
    s.storeControl core systemResetRequestOffset [if s.systemResetRequest then 1 else 0]
  else s

/-- `apply_control_write`: refresh every port whose register overlaps the written range. The tests
guard different ports, so each port is given its own test here. -/
def applyControlWrite (core : Core) (offset : UInt64) (length : UInt32) (s : HmpSignals) :
    HmpSignals :=
  let regs := s.controlRegisters core
  let hit := overlaps offset length
  let trigger := regs.word32 systemBusTriggerOffset
  { s with
    ports := s.ports.write fun ps =>
      { interruptInputs := Function.update ps.interruptInputs core fun i =>
          if hit i 1 then regs i != 0 else ps.interruptInputs core i
        resetIn :=
          if hit resetOffset 1 then Function.update ps.resetIn core (regs resetOffset != 0)
          else ps.resetIn
        nmiIn :=
          if hit nmiOffset 1 then Function.update ps.nmiIn core (regs nmiOffset != 0)
          else ps.nmiIn
        bootAddress :=
          if hit bootAddressOffset 8 ∧ core = .riscV then regs.word64 bootAddressOffset
          else ps.bootAddress
        vectorTableOffset :=
          if hit bootAddressOffset 8 ∧ core ≠ .riscV then regs.word32 bootAddressOffset
          else ps.vectorTableOffset
        clockPeriod :=
          if hit clockPeriodOffset 4 then
            Function.update ps.clockPeriod core (ScTime.ofNs (regs.word32 clockPeriodOffset))
          else ps.clockPeriod
        cpuWait :=
          if core = .arm ∧ hit cpuWaitOffset 1 then regs cpuWaitOffset != 0 else ps.cpuWait }
    bootAddressValue :=
      if hit bootAddressOffset 8 ∧ core = .riscV then regs.word64 bootAddressOffset
      else s.bootAddressValue
    vtorValue :=
      if hit bootAddressOffset 8 ∧ core ≠ .riscV then regs.word32 bootAddressOffset
      else s.vtorValue
    clockPeriodNs :=
      if hit clockPeriodOffset 4 then
        Function.update s.clockPeriodNs core (regs.word32 clockPeriodOffset)
      else s.clockPeriodNs
    systemBusWritePending :=
      if hit systemBusTriggerOffset 4 ∧ trigger ≠ 0 then
        Function.update s.systemBusWritePending core true
      else s.systemBusWritePending
    systemBusWriteEvent :=
      if hit systemBusTriggerOffset 4 ∧ trigger ≠ 0 then true else s.systemBusWriteEvent }

/-- `handle_control`, from where its initial wait returns. -/
def handleControl (core : Core) : Transport HmpSignals := fun s p =>
  let offset := p.address
  let length := p.dataLength
  if 0x1000 < offset ∨ 0x1000 - offset < length.toUInt64 then
    ⟨s, p.setResponseStatus .addressError, ⟨0, 0⟩⟩
  else
    match p.command with
    | .read =>
      let s := s.sampleResetRequest core
      let bytes := (s.controlRegisters core).load offset.toNat p.data.length
      ⟨s, (p.setData bytes (length_load ..)).setResponseStatus .ok, ⟨offset.toNat, p.data.length⟩⟩
    | .write =>
      let s := s.storeControl core offset.toNat p.data
      ⟨applyControlWrite core offset length s, p.setResponseStatus .ok,
        ⟨offset.toNat, p.data.length⟩⟩
    | .ignore => ⟨s, p.setResponseStatus .commandError, ⟨0, 0⟩⟩

/-- `handle_memory`. -/
def handleMemory (core : Core) : Transport HmpSignals := fun s p =>
  let offset := p.address
  let length := p.dataLength
  if 0x1000 < offset ∨ 0x1000 - offset < length.toUInt64 then
    ⟨s, p.setResponseStatus .addressError, ⟨0, 0⟩⟩
  else
    match p.command with
    | .read =>
      let bytes := (s.memory core).load offset.toNat p.data.length
      ⟨s, (p.setData bytes (length_load ..)).setResponseStatus .ok, ⟨offset.toNat, p.data.length⟩⟩
    | .write =>
      let s := s.storeMemory core offset.toNat p.data
      ⟨s, p.setResponseStatus .ok, ⟨offset.toNat, p.data.length⟩⟩
    | .ignore => ⟨s, p.setResponseStatus .commandError, ⟨0, 0⟩⟩

/-- A transaction entering `core`'s bus. -/
def bTransport (core : Core) : Transport HmpSignals :=
  busTransport (handleControl core) (handleMemory core)

/-- The transaction raises `system_bus_write_pending[core]`: it leaves the flag set even when it
finds it clear. -/
def raises (core : Core) (s : HmpSignals) (p : Payload) : Bool :=
  (bTransport core { s with systemBusWritePending := fun _ => false } p).state.systemBusWritePending
    core

/-! ## What a transaction does -/

section Store

variable (s : HmpSignals) (core : Core) (off : Nat) (src : List UInt8)

@[simp] theorem storeControl_self :
    (s.storeControl core off src).controlRegisters core =
      (s.controlRegisters core).store off src := by
  simp [HmpSignals.storeControl]

theorem storeControl_of_ne {c : Core} (h : c ≠ core) :
    (s.storeControl core off src).controlRegisters c = s.controlRegisters c := by
  simp [HmpSignals.storeControl, h]

@[simp] theorem storeMemory_self :
    (s.storeMemory core off src).memory core = (s.memory core).store off src := by
  simp [HmpSignals.storeMemory]

theorem storeMemory_of_ne {c : Core} (h : c ≠ core) :
    (s.storeMemory core off src).memory c = s.memory c := by
  simp [HmpSignals.storeMemory, h]

end Store

/-- Everything a transaction on `core`'s bus can do. -/
inductive Served (core : Core) (s : HmpSignals) (p : Payload) : Outcome HmpSignals → Prop
  | addressError (h : ¬ InBank p) :
      Served core s p ⟨s, p.setResponseStatus .addressError, ⟨0, 0⟩⟩
  | commandError (h : InBank p) (hc : p.command = .ignore) :
      Served core s p ⟨s, p.setResponseStatus .commandError, ⟨0, 0⟩⟩
  | readControl (h : p.address.toNat + p.data.length ≤ bankSize) (hc : p.command = .read)
      (d : List UInt8) (hd : d.length = p.data.length)
      (heq : d = ((s.sampleResetRequest core).controlRegisters core).load p.address.toNat
        p.data.length) :
      Served core s p ⟨s.sampleResetRequest core, (p.setData d hd).setResponseStatus .ok,
        ⟨p.address.toNat, p.data.length⟩⟩
  | writeControl (h : p.address.toNat + p.data.length ≤ bankSize) (hc : p.command = .write) :
      Served core s p ⟨applyControlWrite core p.address p.dataLength
        (s.storeControl core p.address.toNat p.data), p.setResponseStatus .ok,
        ⟨p.address.toNat, p.data.length⟩⟩
  | readMemory (hge : bankSize ≤ p.address.toNat)
      (h : p.address.toNat + p.data.length ≤ 2 * bankSize) (hc : p.command = .read)
      (d : List UInt8) (hd : d.length = p.data.length)
      (heq : d = (s.memory core).load (p.address.toNat - bankSize) p.data.length) :
      Served core s p ⟨s, (p.setData d hd).setResponseStatus .ok,
        ⟨p.address.toNat - bankSize, p.data.length⟩⟩
  | writeMemory (hge : bankSize ≤ p.address.toNat)
      (h : p.address.toNat + p.data.length ≤ 2 * bankSize) (hc : p.command = .write) :
      Served core s p ⟨s.storeMemory core (p.address.toNat - bankSize) p.data,
        p.setResponseStatus .ok, ⟨p.address.toNat - bankSize, p.data.length⟩⟩

theorem served_handleControl (core : Core) (s : HmpSignals) (p : Payload)
    (hlt : p.address.toNat < bankSize) : Served core s p (handleControl core s p) := by
  have hcheck := subtracting_check_iff p.address p.dataLength
  rw [Payload.toNat_dataLength] at hcheck
  unfold handleControl
  by_cases hin : p.address.toNat + p.data.length ≤ bankSize
  · rw [if_neg (by rw [hcheck]; exact not_not_intro hin)]
    split
    · rename_i hc; exact .readControl hin hc _ (length_load ..) rfl
    · rename_i hc; exact .writeControl hin hc
    · rename_i hc; exact .commandError (Or.inl hin) hc
  · rw [if_pos (hcheck.2 hin)]
    refine .addressError fun hb => ?_
    rcases hb with hb | hb <;> omega

theorem served_handleMemory (core : Core) (s : HmpSignals) (p : Payload)
    (hge : ¬ p.address < 0x1000) :
    Served core s p
      { handleMemory core s (p.setAddress (p.address - 0x1000)) with
        payload := (handleMemory core s (p.setAddress (p.address - 0x1000))).payload.setAddress
          p.address } := by
  have hoff : (p.address - 0x1000).toNat = p.address.toNat - bankSize := toNat_sub_bankSize hge
  have hge' : bankSize ≤ p.address.toNat := by rw [lt_bankSize_iff] at hge; omega
  have hcheck := subtracting_check_iff (p.address - 0x1000) p.dataLength
  rw [Payload.toNat_dataLength, hoff] at hcheck
  simp only [handleMemory, Payload.setAddress_address, Payload.setAddress_dataLength,
    Payload.setAddress_command, Payload.setAddress_data, hoff]
  by_cases hin : p.address.toNat - bankSize + p.data.length ≤ bankSize
  · have hin' : p.address.toNat + p.data.length ≤ 2 * bankSize := by omega
    rw [if_neg (by rw [hcheck]; exact not_not_intro hin)]
    split
    · rename_i hc; exact .readMemory hge' hin' hc _ (length_load ..) rfl
    · rename_i hc; exact .writeMemory hge' hin' hc
    · rename_i hc; exact .commandError (Or.inr ⟨hge', hin'⟩) hc
  · rw [if_pos (hcheck.2 hin)]
    refine .addressError fun hb => ?_
    rcases hb with hb | hb <;> omega

/-- **A transaction is served in one of six ways.** -/
theorem served (core : Core) (s : HmpSignals) (p : Payload) :
    Served core s p (bTransport core s p) := by
  unfold bTransport busTransport
  split_ifs with hlt
  · exact served_handleControl core s p (lt_bankSize_iff.1 hlt)
  · exact served_handleMemory core s p hlt

end RenodeSystemC.Hmp
