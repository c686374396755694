import RenodeSystemC.Signals.Registers

/-!
# `riscv_signals`

The single-core CPU signals device, after `riscv_signals.h` and `riscv_signals.cpp`. It does what
`hmp_signals` does for its RISC-V core, but its bounds check adds the offset and the length in 64
bits, where `hmp_signals` subtracts.

**Theorem (`contained_iff`).** A transaction is contained (its copy stays in the bank, and a range
that leaves the bank is refused without effect) exactly when its address and length do not sum
to a value between `2 ^ 64 + 0x1000` and `2 ^ 64 + 0x2000`.
-/

namespace RenodeSystemC.Riscv

open Signals Bytes

/-! ## State -/

/-- The output ports. -/
@[ext] structure Ports where
  resetIn : Bool
  nmiIn : Bool
  bootAddress : UInt64
  interruptInputs : Fin numInterrupts → Bool
  clockPeriod : ScTime

/-- The module's members. -/
structure RiscvSignals where
  ports : Signal Ports
  controlRegisters : Bytes
  memory : Bytes
  systemBusWriteEvent : Bool
  systemBusWritePending : Bool
  bootAddressValue : UInt64
  clockPeriodNs : UInt32

def defaultBootAddress : UInt64 := 0x80000000
def defaultClockPeriodNs : UInt32 := 10
def systemBusTestAddress : UInt64 := 0x80001000
def systemBusTestValue : UInt32 := 0x5A5AA5A5

/-- Signals hold the default value of their type until the first update phase. -/
def Ports.zero : Ports where
  resetIn := false
  nmiIn := false
  bootAddress := 0
  interruptInputs _ := false
  clockPeriod := 0

/-- The control registers as the constructor leaves them. -/
def initialRegisters : Bytes :=
  let zeros : Bytes := fun _ => 0
  let regs := zeros.store bootAddressOffset (leBytes 8 defaultBootAddress.toNat)
  regs.store clockPeriodOffset (leBytes 4 defaultClockPeriodNs.toNat)

/-- The constructor; `initialize` requests the first values of the ports. -/
def RiscvSignals.init : RiscvSignals where
  ports :=
    { current := Ports.zero
      next :=
        { resetIn := false
          nmiIn := false
          bootAddress := defaultBootAddress
          interruptInputs := fun _ => false
          clockPeriod := ScTime.ofNs defaultClockPeriodNs } }
  controlRegisters := initialRegisters
  memory _ := 0
  systemBusWriteEvent := false
  systemBusWritePending := false
  bootAddressValue := defaultBootAddress
  clockPeriodNs := defaultClockPeriodNs

/-! ## Transport -/

/-- Bytes of the control registers change. -/
def RiscvSignals.storeControl (s : RiscvSignals) (off : Nat) (src : List UInt8) : RiscvSignals :=
  { s with controlRegisters := s.controlRegisters.store off src }

/-- Bytes of the memory change. -/
def RiscvSignals.storeMemory (s : RiscvSignals) (off : Nat) (src : List UInt8) : RiscvSignals :=
  { s with memory := s.memory.store off src }

@[simp] theorem RiscvSignals.storeMemory_systemBusWritePending (s : RiscvSignals) (off : Nat)
    (src : List UInt8) :
    (s.storeMemory off src).systemBusWritePending = s.systemBusWritePending := rfl

@[simp] theorem RiscvSignals.storeMemory_systemBusWriteEvent (s : RiscvSignals) (off : Nat)
    (src : List UInt8) :
    (s.storeMemory off src).systemBusWriteEvent = s.systemBusWriteEvent := rfl

/-- `apply_control_write`: refresh every port whose register overlaps the written range. -/
def applyControlWrite (offset : UInt64) (length : UInt32) (s : RiscvSignals) : RiscvSignals :=
  let regs := s.controlRegisters
  let hit := overlaps offset length
  let trigger := regs.word32 systemBusTriggerOffset
  { s with
    ports := s.ports.write fun ps =>
      { interruptInputs := fun i => if hit i 1 then regs i != 0 else ps.interruptInputs i
        resetIn := if hit resetOffset 1 then regs resetOffset != 0 else ps.resetIn
        nmiIn := if hit nmiOffset 1 then regs nmiOffset != 0 else ps.nmiIn
        bootAddress :=
          if hit bootAddressOffset 8 then regs.word64 bootAddressOffset else ps.bootAddress
        clockPeriod :=
          if hit clockPeriodOffset 4 then ScTime.ofNs (regs.word32 clockPeriodOffset)
          else ps.clockPeriod }
    bootAddressValue :=
      if hit bootAddressOffset 8 then regs.word64 bootAddressOffset else s.bootAddressValue
    clockPeriodNs :=
      if hit clockPeriodOffset 4 then regs.word32 clockPeriodOffset else s.clockPeriodNs
    systemBusWritePending :=
      if hit systemBusTriggerOffset 4 ∧ trigger ≠ 0 then true else s.systemBusWritePending
    systemBusWriteEvent :=
      if hit systemBusTriggerOffset 4 ∧ trigger ≠ 0 then true else s.systemBusWriteEvent }

/-- `handle_control`. -/
def handleControl : Transport RiscvSignals := fun s p =>
  let offset := p.address
  let length := p.dataLength
  if 0x1000 < offset + length.toUInt64 then
    ⟨s, p.setResponseStatus .addressError, ⟨0, 0⟩⟩
  else
    match p.command with
    | .read =>
      let bytes := s.controlRegisters.load offset.toNat p.data.length
      ⟨s, (p.setData bytes (length_load ..)).setResponseStatus .ok, ⟨offset.toNat, p.data.length⟩⟩
    | .write =>
      let s := s.storeControl offset.toNat p.data
      ⟨applyControlWrite offset length s, p.setResponseStatus .ok, ⟨offset.toNat, p.data.length⟩⟩
    | .ignore => ⟨s, p.setResponseStatus .commandError, ⟨0, 0⟩⟩

/-- `handle_memory`. -/
def handleMemory : Transport RiscvSignals := fun s p =>
  let offset := p.address
  let length := p.dataLength
  if 0x1000 < offset + length.toUInt64 then
    ⟨s, p.setResponseStatus .addressError, ⟨0, 0⟩⟩
  else
    match p.command with
    | .read =>
      let bytes := s.memory.load offset.toNat p.data.length
      ⟨s, (p.setData bytes (length_load ..)).setResponseStatus .ok, ⟨offset.toNat, p.data.length⟩⟩
    | .write =>
      let s := s.storeMemory offset.toNat p.data
      ⟨s, p.setResponseStatus .ok, ⟨offset.toNat, p.data.length⟩⟩
    | .ignore => ⟨s, p.setResponseStatus .commandError, ⟨0, 0⟩⟩

/-- A transaction entering the bus. -/
def bTransport : Transport RiscvSignals := busTransport handleControl handleMemory

/-- The transaction raises `system_bus_write_pending`: it leaves the flag set even when it finds
it clear. -/
def raises (s : RiscvSignals) (p : Payload) : Bool :=
  (bTransport { s with systemBusWritePending := false } p).state.systemBusWritePending

/-! ## What a transaction does -/

/-- The memory bounds check passes although the range leaves the bank: the 64-bit sum of the
rebased address and the length wraps to at most `0x1000`. -/
def Wraps (p : Payload) : Prop :=
  2 ^ 64 + bankSize ≤ p.address.toNat + p.data.length ∧
    p.address.toNat + p.data.length ≤ 2 ^ 64 + 2 * bankSize

/-- Everything a transaction on the bus can do. -/
inductive Served (s : RiscvSignals) (p : Payload) : Outcome RiscvSignals → Prop
  | addressError (h : ¬ InBank p) (hw : ¬ Wraps p) :
      Served s p ⟨s, p.setResponseStatus .addressError, ⟨0, 0⟩⟩
  | commandError (h : InBank p ∨ Wraps p) (hc : p.command = .ignore) :
      Served s p ⟨s, p.setResponseStatus .commandError, ⟨0, 0⟩⟩
  | readControl (h : p.address.toNat + p.data.length ≤ bankSize) (hc : p.command = .read)
      (d : List UInt8) (hd : d.length = p.data.length)
      (heq : d = s.controlRegisters.load p.address.toNat p.data.length) :
      Served s p ⟨s, (p.setData d hd).setResponseStatus .ok, ⟨p.address.toNat, p.data.length⟩⟩
  | writeControl (h : p.address.toNat + p.data.length ≤ bankSize) (hc : p.command = .write) :
      Served s p ⟨applyControlWrite p.address p.dataLength
        (s.storeControl p.address.toNat p.data), p.setResponseStatus .ok,
        ⟨p.address.toNat, p.data.length⟩⟩
  | readMemory (hge : bankSize ≤ p.address.toNat)
      (h : p.address.toNat + p.data.length ≤ 2 * bankSize ∨ Wraps p) (hc : p.command = .read)
      (d : List UInt8) (hd : d.length = p.data.length)
      (heq : d = s.memory.load (p.address.toNat - bankSize) p.data.length) :
      Served s p ⟨s, (p.setData d hd).setResponseStatus .ok,
        ⟨p.address.toNat - bankSize, p.data.length⟩⟩
  | writeMemory (hge : bankSize ≤ p.address.toNat)
      (h : p.address.toNat + p.data.length ≤ 2 * bankSize ∨ Wraps p) (hc : p.command = .write) :
      Served s p ⟨s.storeMemory (p.address.toNat - bankSize) p.data,
        p.setResponseStatus .ok, ⟨p.address.toNat - bankSize, p.data.length⟩⟩

theorem served_handleControl (s : RiscvSignals) (p : Payload)
    (hlt : p.address.toNat < bankSize) : Served s p (handleControl s p) := by
  have hlen := p.length_lt
  have hcheck : 0x1000 < p.address + p.dataLength.toUInt64 ↔
      ¬ p.address.toNat + p.data.length ≤ bankSize := by
    rw [adding_check_iff, Payload.toNat_dataLength]
    simp only [bankSize] at hlt ⊢
    omega
  unfold handleControl
  by_cases hin : p.address.toNat + p.data.length ≤ bankSize
  · rw [if_neg (by rw [hcheck]; exact not_not_intro hin)]
    split
    · rename_i hc; exact .readControl hin hc _ (length_load ..) rfl
    · rename_i hc; exact .writeControl hin hc
    · rename_i hc; exact .commandError (Or.inl (Or.inl hin)) hc
  · rw [if_pos (hcheck.2 hin)]
    refine .addressError (fun hb => ?_) (fun hw => ?_)
    · rcases hb with hb | hb <;> omega
    · unfold Wraps at hw; simp only [bankSize] at hlt hw; omega

theorem served_handleMemory (s : RiscvSignals) (p : Payload) (hge : ¬ p.address < 0x1000) :
    Served s p
      { handleMemory s (p.setAddress (p.address - 0x1000)) with
        payload := (handleMemory s (p.setAddress (p.address - 0x1000))).payload.setAddress
          p.address } := by
  have hoff : (p.address - 0x1000).toNat = p.address.toNat - bankSize := toNat_sub_bankSize hge
  have hge' : bankSize ≤ p.address.toNat := by rw [lt_bankSize_iff] at hge; omega
  have haddr := p.address.toNat_lt
  have hlen := p.length_lt
  have hcheck : 0x1000 < p.address - 0x1000 + p.dataLength.toUInt64 ↔
      ¬ (p.address.toNat + p.data.length ≤ 2 * bankSize ∨ Wraps p) := by
    rw [adding_check_iff, Payload.toNat_dataLength, hoff]
    simp only [bankSize, Wraps] at hge' ⊢
    omega
  simp only [handleMemory, Payload.setAddress_address, Payload.setAddress_dataLength,
    Payload.setAddress_command, Payload.setAddress_data, hoff]
  by_cases hin : p.address.toNat + p.data.length ≤ 2 * bankSize ∨ Wraps p
  · rw [if_neg (by rw [hcheck]; exact not_not_intro hin)]
    split
    · rename_i hc; exact .readMemory hge' hin hc _ (length_load ..) rfl
    · rename_i hc; exact .writeMemory hge' hin hc
    · rename_i hc; exact .commandError (hin.imp_left fun h => Or.inr ⟨hge', h⟩) hc
  · rw [if_pos (hcheck.2 hin)]
    refine .addressError (fun hb => ?_) (fun hw => hin (Or.inr hw))
    rcases hb with hb | hb
    · exact hin (Or.inl (by omega))
    · exact hin (Or.inl hb.2)

/-- **A transaction is served in one of six ways.** -/
theorem served (s : RiscvSignals) (p : Payload) : Served s p (bTransport s p) := by
  unfold bTransport busTransport
  split_ifs with hlt
  · exact served_handleControl s p (lt_bankSize_iff.1 hlt)
  · exact served_handleMemory s p hlt

/-! ## Containment -/

/-- An accepted transaction copies only bytes of its bank, and one whose range leaves the bank is
answered with an address error and has no effect. -/
def Contained (s : RiscvSignals) (p : Payload) : Prop :=
  ((bTransport s p).payload.responseStatus = .ok → (bTransport s p).touched.Within bankSize) ∧
    (¬ InBank p →
      (bTransport s p).payload.responseStatus = .addressError ∧ (bTransport s p).state = s)

theorem not_inBank_of_wraps {p : Payload} (h : Wraps p) : ¬ InBank p := by
  unfold Wraps at h
  unfold InBank
  simp only [bankSize] at h ⊢
  omega

/-- A wrapping range is never refused as one. -/
theorem not_contained_of_wraps {s : RiscvSignals} {p : Payload} (h : Wraps p) :
    ¬ Contained s p := by
  intro hcont
  have herr := (hcont.2 (not_inBank_of_wraps h)).1
  have hs := served s p
  generalize bTransport s p = r at hs herr
  cases hs with
  | addressError _ hw => exact hw h
  | commandError | readControl | writeControl | readMemory | writeMemory => cases herr

theorem contained_of_not_wraps {s : RiscvSignals} {p : Payload} (h : ¬ Wraps p) :
    Contained s p := by
  have hs := served s p
  unfold Contained
  generalize bTransport s p = r at hs
  cases hs with
  | addressError =>
    refine ⟨?_, fun _ => ⟨rfl, rfl⟩⟩
    intro hok
    cases hok
  | commandError hin =>
    refine ⟨?_, fun hout => absurd (hin.resolve_right h) hout⟩
    intro hok
    cases hok
  | readControl hin =>
    exact ⟨fun _ => Span.within_iff.2 (Or.inr hin), fun hout => absurd (Or.inl hin) hout⟩
  | writeControl hin =>
    exact ⟨fun _ => Span.within_iff.2 (Or.inr hin), fun hout => absurd (Or.inl hin) hout⟩
  | readMemory hge hin =>
    have hin := hin.resolve_right h
    have hbank : p.address.toNat - bankSize + p.data.length ≤ bankSize := by omega
    exact ⟨fun _ => Span.within_iff.2 (Or.inr hbank), fun hout => absurd (Or.inr ⟨hge, hin⟩) hout⟩
  | writeMemory hge hin =>
    have hin := hin.resolve_right h
    have hbank : p.address.toNat - bankSize + p.data.length ≤ bankSize := by omega
    exact ⟨fun _ => Span.within_iff.2 (Or.inr hbank), fun hout => absurd (Or.inr ⟨hge, hin⟩) hout⟩

/-- **Exactly the ranges whose 64-bit sum does not wrap back into the bank are contained.** -/
theorem contained_iff (s : RiscvSignals) (p : Payload) :
    Contained s p ↔
      p.address.toNat + p.data.length < 2 ^ 64 + bankSize ∨
        2 ^ 64 + 2 * bankSize < p.address.toNat + p.data.length := by
  constructor
  · intro h
    by_contra hout
    exact not_contained_of_wraps (by unfold Wraps; omega) h
  · intro h
    exact contained_of_not_wraps (by unfold Wraps; omega)

/-- `0x1001` bytes written at the last address. -/
def wrappingWrite : Payload where
  command := .write
  address := 0xffffffffffffffff
  data := List.replicate 0x1001 0
  responseStatus := .incomplete
  length_lt := by rw [List.length_replicate]; decide

/-- **A write past both banks is accepted.** -/
theorem wrappingWrite_not_contained : ¬ Contained RiscvSignals.init wrappingWrite := by
  apply not_contained_of_wraps
  unfold Wraps wrappingWrite
  rw [List.length_replicate]
  decide

end RenodeSystemC.Riscv
