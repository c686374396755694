import RenodeSystemC.Signals.HmpStore
import RenodeSystemC.Signals.RiscvWriter

/-!
# `riscv_signals` is the RISC-V core of `hmp_signals`

The two devices are written twice: they check bounds differently (one adds, the other
subtracts), one keeps its state for itself and the other shares it with an Arm core, and their
writer threads differ. Through `View`, which keeps the control registers, the memory and the
requested port values of the RISC-V core, they are the same.

**Theorem (`same_device`).** If the RISC-V transactions of a run of each are the same and none is
longer than a bank, the two give the same answers and end with the same view, whatever the Arm core,
the reset-request input and the writer threads do in between.

Neither machine is compared with the other directly. Each projects (`Machine.Projects`) to one
device on views, `serve`.
-/

namespace RenodeSystemC

open Signals Bytes

/-- What one core's device holds: its bytes and the port values it drives. -/
@[ext] structure View where
  controlRegisters : Bytes
  memory : Bytes
  ports : Riscv.Ports

def Riscv.RiscvSignals.view (s : Riscv.RiscvSignals) : View where
  controlRegisters := s.controlRegisters
  memory := s.memory
  ports := s.ports.next

/-- The ports of the RISC-V core. -/
def Hmp.Ports.riscV (ps : Hmp.Ports) : Riscv.Ports where
  resetIn := ps.resetIn .riscV
  nmiIn := ps.nmiIn .riscV
  bootAddress := ps.bootAddress
  interruptInputs := ps.interruptInputs .riscV
  clockPeriod := ps.clockPeriod .riscV

def Hmp.HmpSignals.view (s : Hmp.HmpSignals) : View where
  controlRegisters := s.controlRegisters .riscV
  memory := s.memory .riscV
  ports := s.ports.next.riscV

/-- A device with this view, and nothing pending. -/
def View.signals (v : View) : Riscv.RiscvSignals where
  ports := { current := v.ports, next := v.ports }
  controlRegisters := v.controlRegisters
  memory := v.memory
  systemBusWriteEvent := false
  systemBusWritePending := false
  bootAddressValue := 0
  clockPeriodNs := 0

/-- The device on views: a transaction is answered, and raises the pending flag or not. -/
def serve (v : View) (p : Payload) : View × Payload × Bool :=
  let r := Riscv.bTransport v.signals p
  (r.state.view, r.payload, r.state.systemBusWritePending)

/-! ## One transaction -/

/-- Two outcomes with the same view and the same answer, and with the same pending flag if the
flags were the same before. -/
structure Alike (s : Riscv.RiscvSignals) (t : Hmp.HmpSignals) (r : Outcome Riscv.RiscvSignals)
    (r' : Outcome Hmp.HmpSignals) : Prop where
  view : r.state.view = r'.state.view
  payload : r.payload = r'.payload
  pending : s.systemBusWritePending = t.systemBusWritePending .riscV →
    r.state.systemBusWritePending = r'.state.systemBusWritePending .riscV

/-- As long as the sum does not wrap, adding and subtracting check the same bound. -/
theorem checks_agree (offset : UInt64) (length : UInt32)
    (h : offset.toNat + length.toNat < 2 ^ 64) :
    (0x1000 < offset ∨ 0x1000 - offset < length.toUInt64) ↔
      0x1000 < offset + length.toUInt64 := by
  rw [subtracting_check_iff, adding_check_iff, Nat.mod_eq_of_lt h, Nat.not_le]

section Transport

variable {s : Riscv.RiscvSignals} {t : Hmp.HmpSignals} {p : Payload}

theorem view_eq_iff :
    s.view = t.view ↔
      s.controlRegisters = t.controlRegisters .riscV ∧ s.memory = t.memory .riscV ∧
        s.ports.next = t.ports.next.riscV := by
  simp only [Riscv.RiscvSignals.view, Hmp.HmpSignals.view, View.mk.injEq]

/-- A test that updates the RISC-V core's entry, seen from that core. -/
theorem ite_update_self {α : Type*} {q : Prop} [Decidable q] (f : Hmp.Core → α) (x : α) :
    (if q then Function.update f .riscV x else f) .riscV = if q then x else f .riscV := by
  split_ifs
  · rw [Function.update_self]
  · rfl

theorem alike_refuse (hv : s.view = t.view) (q : Payload) (sp : Span) :
    Alike s t ⟨s, q, sp⟩ ⟨t, q, sp⟩ := ⟨hv, rfl, id⟩

theorem alike_applyControlWrite (hv : s.view = t.view) (q : Payload) (sp : Span) (off : UInt64)
    (len : UInt32) (src : List UInt8) :
    Alike s t
      ⟨Riscv.applyControlWrite off len (s.storeControl off.toNat src), q, sp⟩
      ⟨Hmp.applyControlWrite .riscV off len (t.storeControl .riscV off.toNat src), q, sp⟩ := by
  obtain ⟨hregs, hmem, hports⟩ := view_eq_iff.1 hv
  have hnew : (s.storeControl off.toNat src).controlRegisters =
      (t.storeControl .riscV off.toNat src).controlRegisters .riscV := by
    rw [Hmp.storeControl_self, ← hregs]
    rfl
  have hport : ∀ {α : Type} (f : Riscv.Ports → α), f s.ports.next = f t.ports.next.riscV :=
    fun f => congrArg f hports
  refine ⟨view_eq_iff.2 ⟨hnew, hmem, Riscv.Ports.ext ?_ ?_ ?_ ?_ ?_⟩, rfl, fun hpend => ?_⟩
  · refine Eq.trans ?_ (ite_update_self _ _).symm
    exact if_congr Iff.rfl (by rw [hnew]) (hport Riscv.Ports.resetIn)
  · refine Eq.trans ?_ (ite_update_self _ _).symm
    exact if_congr Iff.rfl (by rw [hnew]) (hport Riscv.Ports.nmiIn)
  · exact if_congr (by simp) (by rw [hnew]) (hport Riscv.Ports.bootAddress)
  · funext i
    show _ = Function.update t.ports.next.interruptInputs .riscV _ .riscV i
    rw [Function.update_self]
    exact if_congr Iff.rfl (by rw [hnew]) (hport fun ps => ps.interruptInputs i)
  · refine Eq.trans ?_ (ite_update_self _ _).symm
    exact if_congr Iff.rfl (by rw [hnew]) (hport Riscv.Ports.clockPeriod)
  · refine Eq.trans ?_ (ite_update_self _ _).symm
    exact if_congr (by rw [hnew]) rfl hpend

theorem alike_handleControl (hv : s.view = t.view)
    (hsum : p.address.toNat + p.data.length < 2 ^ 64) :
    Alike s t (Riscv.handleControl s p) (Hmp.handleControl .riscV t p) := by
  have hregs := (view_eq_iff.1 hv).1
  unfold Riscv.handleControl Hmp.handleControl
  simp only [checks_agree p.address p.dataLength (by rwa [Payload.toNat_dataLength])]
  split_ifs
  · exact alike_refuse hv _ _
  · cases p.command with
    | read =>
      have hs : t.sampleResetRequest .riscV = t := if_neg (by decide)
      simp only [hs, ← hregs]
      exact alike_refuse hv _ _
    | write => exact alike_applyControlWrite hv _ _ _ _ _
    | ignore => exact alike_refuse hv _ _

theorem alike_storeMemory (hv : s.view = t.view) (q : Payload) (sp : Span) (off : Nat)
    (src : List UInt8) :
    Alike s t ⟨s.storeMemory off src, q, sp⟩ ⟨t.storeMemory .riscV off src, q, sp⟩ := by
  obtain ⟨hregs, hmem, hports⟩ := view_eq_iff.1 hv
  refine ⟨view_eq_iff.2 ⟨hregs, ?_, hports⟩, rfl, id⟩
  rw [Hmp.storeMemory_self, ← hmem]
  rfl

theorem alike_handleMemory (hv : s.view = t.view)
    (hsum : p.address.toNat + p.data.length < 2 ^ 64) :
    Alike s t (Riscv.handleMemory s p) (Hmp.handleMemory .riscV t p) := by
  have hmem := (view_eq_iff.1 hv).2.1
  unfold Riscv.handleMemory Hmp.handleMemory
  simp only [checks_agree p.address p.dataLength (by rwa [Payload.toNat_dataLength])]
  split_ifs
  · exact alike_refuse hv _ _
  · cases p.command with
    | read =>
      simp only [← hmem]
      exact alike_refuse hv _ _
    | write => exact alike_storeMemory hv _ _ _ _
    | ignore => exact alike_refuse hv _ _

/-- **The two buses serve a transaction alike**, when it is not longer than a bank: neither the
control nor the rebased memory check wraps. -/
theorem alike_bTransport (hv : s.view = t.view) (hlen : p.data.length ≤ bankSize) :
    Alike s t (Riscv.bTransport s p) (Hmp.bTransport .riscV t p) := by
  have haddr := p.address.toNat_lt
  unfold Riscv.bTransport Hmp.bTransport busTransport
  split_ifs with hlt
  · rw [lt_bankSize_iff] at hlt
    apply alike_handleControl hv
    simp only [bankSize] at hlt hlen
    omega
  · have hoff := toNat_sub_bankSize hlt
    have halike : Alike s t (Riscv.handleMemory s (p.setAddress (p.address - 0x1000)))
        (Hmp.handleMemory .riscV t (p.setAddress (p.address - 0x1000))) := by
      apply alike_handleMemory hv
      rw [Payload.setAddress_address, Payload.setAddress_data, hoff]
      rw [lt_bankSize_iff] at hlt
      simp only [bankSize] at hlt hlen ⊢
      omega
    refine ⟨halike.view, ?_, halike.pending⟩
    simp only [halike.payload]

end Transport

/-! ## Both machines project to the device on views -/

/-- An `hmp_signals` with this view of its RISC-V core. -/
def View.hmp (v : View) : Hmp.HmpSignals where
  ports :=
    let ps : Hmp.Ports :=
      { Hmp.Ports.zero with
        resetIn := fun _ => v.ports.resetIn
        nmiIn := fun _ => v.ports.nmiIn
        bootAddress := v.ports.bootAddress
        interruptInputs := fun _ => v.ports.interruptInputs
        clockPeriod := fun _ => v.ports.clockPeriod }
    { current := ps, next := ps }
  systemResetRequest := false
  controlRegisters _ := v.controlRegisters
  memory _ := v.memory
  systemBusWriteEvent := false
  systemBusWritePending _ := false
  bootAddressValue := 0
  clockPeriodNs _ := 0
  vtorValue := 0

/-- A device serves a transaction as its view does. -/
theorem serve_riscv {s : Riscv.RiscvSignals} {p : Payload} (hlen : p.data.length ≤ bankSize) :
    serve s.view p =
      ((Riscv.bTransport s p).state.view, (Riscv.bTransport s p).payload, Riscv.raises s p) := by
  -- Both are compared with one and the same `hmp_signals`.
  have hspec := alike_bTransport (s := s.view.signals) (t := s.view.hmp) rfl hlen
  have hdev := alike_bTransport (s := s) (t := s.view.hmp) rfl hlen
  have hflag := alike_bTransport (s := { s with systemBusWritePending := false })
    (t := s.view.hmp) rfl hlen
  refine Prod.ext (hspec.view.trans hdev.view.symm) (Prod.ext ?_ ?_)
  · exact hspec.payload.trans hdev.payload.symm
  · exact (hspec.pending rfl).trans (hflag.pending rfl).symm

theorem serve_hmp {t : Hmp.HmpSignals} {p : Payload} (hlen : p.data.length ≤ bankSize) :
    serve t.view p = ((Hmp.bTransport .riscV t p).state.view, (Hmp.bTransport .riscV t p).payload,
      Hmp.raises .riscV t p) := by
  have hdev := alike_bTransport (s := t.view.signals) (t := t) rfl hlen
  have hflag := alike_bTransport (s := t.view.signals)
    (t := { t with systemBusWritePending := fun _ => false }) rfl hlen
  exact Prod.ext hdev.view (Prod.ext hdev.payload (hflag.pending rfl))

/-- The transaction an event of `riscv` carries. -/
def Riscv.Event.transaction : Riscv.Event → Option Payload
  | .transport p => some p
  | _ => none

/-- The RISC-V transaction an event of `hmp` carries. -/
def Hmp.Event.transaction : Hmp.Event → Option Payload
  | .transport .riscV p => some p
  | _ => none

/-- The answer to a transaction, and whether it raised the flag. -/
def Riscv.Output.answer : Riscv.Output → Option (Payload × Bool)
  | .reply p raised => some (p, raised)
  | _ => none

/-- The answer to a RISC-V transaction. -/
def Hmp.Output.answer : Hmp.Output → Option (Payload × Bool)
  | .reply .riscV p raised => some (p, raised)
  | _ => none

/-- The transaction is not longer than a bank. -/
def FitsBank (p : Payload) : Prop := p.data.length ≤ 0x1000

theorem riscv_projects :
    Riscv.riscv.Projects (fun sys => sys.signals.view) Riscv.Event.transaction
      Riscv.Output.answer FitsBank serve where
  silent := by
    intro sys e sys' o hs he
    have hhead : (Riscv.loopHead sys).1.signals.view = sys.signals.view ∧
        (Riscv.loopHead sys).2.filterMap Riscv.Output.answer = [] := by
      unfold Riscv.loopHead
      split_ifs <;> exact ⟨rfl, rfl⟩
    cases e with
    | transport p => cases he
    | runWriter =>
      simp only [Riscv.riscv, Riscv.step] at hs
      split at hs
      · rw [Option.some.injEq] at hs; rwa [hs] at hhead
      · cases hs; exact ⟨rfl, rfl⟩
      · cases hs; exact ⟨rfl, rfl⟩
      · cases hs
    | busReturn =>
      simp only [Riscv.riscv, Riscv.step] at hs
      split at hs
      · rw [Option.some.injEq] at hs; rwa [hs] at hhead
      · cases hs
    | delta =>
      simp only [Riscv.riscv, Riscv.step] at hs
      split_ifs at hs
      cases hs
      exact ⟨rfl, rfl⟩
  command := by
    intro sys e sys' o p hs he hfits
    cases e with
    | transport q =>
      cases he
      cases hs
      rw [serve_riscv hfits]
      refine ⟨rfl, ?_⟩
      split_ifs <;> rfl
    | runWriter | busReturn | delta => cases he

theorem riscV_eq_of_ofCore {ps ps' : Hmp.Ports} (h : ps'.ofCore .riscV = ps.ofCore .riscV) :
    ps'.riscV = ps.riscV := by
  have hboot := congrArg Hmp.CorePorts.bootAddress h
  simp only [Hmp.Ports.ofCore, if_true, Option.some.injEq] at hboot
  exact Riscv.Ports.ext (congrArg Hmp.CorePorts.resetIn h) (congrArg Hmp.CorePorts.nmiIn h) hboot
    (congrArg Hmp.CorePorts.interruptInputs h) (congrArg Hmp.CorePorts.clockPeriod h)

/-- Arm transactions do not leak into the RISC-V view. -/
theorem view_bTransport_arm (t : Hmp.HmpSignals) (p : Payload) :
    (Hmp.bTransport .arm t p).state.view = t.view := by
  have hne : Hmp.Core.riscV ≠ .arm := by decide
  have hs := Hmp.served .arm t p
  generalize Hmp.bTransport .arm t p = r at hs
  cases hs with
  | addressError | commandError | readMemory => rfl
  | readControl =>
    refine View.ext ?_ rfl rfl
    show (t.sampleResetRequest .arm).controlRegisters .riscV = _
    rw [Hmp.HmpSignals.sampleResetRequest, if_pos rfl, Hmp.storeControl_of_ne _ _ _ _ hne]
    rfl
  | writeControl =>
    have hports := (Hmp.sameCore_writeControl hne t p.address p.dataLength p.data).next
    refine View.ext ?_ rfl (riscV_eq_of_ofCore hports)
    exact Hmp.storeControl_of_ne t .arm p.address.toNat p.data hne
  | writeMemory =>
    refine View.ext rfl ?_ rfl
    exact Hmp.storeMemory_of_ne t .arm (p.address.toNat - bankSize) p.data hne

theorem answer_servePending (cores : List Hmp.Core) (sys : Hmp.System) :
    (Hmp.servePending cores sys).2.filterMap Hmp.Output.answer = [] := by
  induction cores with
  | nil => rfl
  | cons core cores ih =>
    unfold Hmp.servePending
    split_ifs
    · rfl
    · exact ih

theorem hmp_projects :
    Hmp.hmp.Projects (fun sys => sys.signals.view) Hmp.Event.transaction
      Hmp.Output.answer FitsBank serve where
  silent := by
    intro sys e sys' o hs he
    refine ⟨?_, ?_⟩
    · rcases Hmp.step_signals hs with ⟨core, p, rfl, hsig⟩ |
        ⟨-, level, pending, event, ports, hp, hsig⟩
      · cases core with
        | riscV => cases he
        | arm => rw [hsig, view_bTransport_arm]
      · rw [hsig]
        rcases hp with rfl | rfl <;> rfl
    · cases e with
      | transport core p =>
        cases core with
        | riscV => cases he
        | arm => cases hs; rfl
      | resetRequest => cases hs; rfl
      | runWriter =>
        simp only [Hmp.hmp, Hmp.step] at hs
        split at hs
        · cases hs; rfl
        · cases hs; rfl
        · have hnone := answer_servePending [.riscV, .arm] sys
          rw [Option.some.injEq] at hs
          rwa [hs] at hnone
        · cases hs
      | busReturn =>
        simp only [Hmp.hmp, Hmp.step] at hs
        split at hs
        · rename_i core _
          have hnone := answer_servePending core.after sys
          rw [Option.some.injEq] at hs
          rwa [hs] at hnone
        · cases hs
      | delta =>
        simp only [Hmp.hmp, Hmp.step] at hs
        split_ifs at hs
        cases hs
        rfl
  command := by
    intro sys e sys' o p hs he hfits
    cases e with
    | transport core q =>
      cases core with
      | arm => cases he
      | riscV =>
        cases he
        cases hs
        rw [serve_hmp hfits]
        exact ⟨rfl, rfl⟩
    | resetRequest | runWriter | busReturn | delta => cases he

/-! ## Whole runs -/

/-- The constructors store the same bytes, in different orders. -/
theorem view_init : Riscv.RiscvSignals.init.view = Hmp.HmpSignals.init.view := by
  refine View.ext ?_ rfl rfl
  exact store_comm _ (Or.inl (by rw [length_leBytes]; decide))

/-- **The two are the same device.** Runs whose RISC-V transactions are the same and fit in a bank
give the same answers, with the flag raised on the same transactions, and end with the same
control register bytes, the same memory bytes and the same port values; after a delta cycle
these are what both sets of ports carry. -/
theorem same_device {es : List Riscv.Event} {es' : List Hmp.Event} {sys : Riscv.System}
    {sys' : Hmp.System} {tr : List Riscv.Output} {tr' : List Hmp.Output}
    (h : Riscv.riscv.Run es sys tr) (h' : Hmp.hmp.Run es' sys' tr')
    (heq : es.filterMap Riscv.Event.transaction = es'.filterMap Hmp.Event.transaction)
    (hfits : ∀ p ∈ es.filterMap Riscv.Event.transaction, p.data.length ≤ 0x1000) :
    tr.filterMap Riscv.Output.answer = tr'.filterMap Hmp.Output.answer ∧
      sys.signals.controlRegisters = sys'.signals.controlRegisters .riscV ∧
      sys.signals.memory = sys'.signals.memory .riscV ∧
      sys.signals.ports.next = sys'.signals.ports.next.riscV ∧
      ∀ sys₁ o sys₁' o', Riscv.step sys .delta = some (sys₁, o) →
        Hmp.step sys' .delta = some (sys₁', o') →
        sys₁.signals.ports.current = sys₁'.signals.ports.current.riscV := by
  have hr := riscv_projects.run h hfits
  have hh := hmp_projects.run h' (heq ▸ hfits)
  rw [← heq, show Hmp.hmp.init.signals.view = Riscv.riscv.init.signals.view from view_init.symm,
    ← hr, Prod.mk.injEq] at hh
  obtain ⟨hregs, hmem, hports⟩ := view_eq_iff.1 hh.1.symm
  refine ⟨hh.2.symm, hregs, hmem, hports, ?_⟩
  intro sys₁ o sys₁' o' hd hd'
  simp only [Riscv.step] at hd
  simp only [Hmp.step] at hd'
  split_ifs at hd hd'
  cases hd
  cases hd'
  exact hports

/-- The device is triggered and the clock period read back: once alone, and once beside an Arm
core that is triggered and rewrites its own clock period meanwhile. -/
def aloneEvents : List Riscv.Event :=
  [.runWriter, .transport Riscv.triggerWrite, .delta, .transport (readClock 0x110)]
where
  readClock (address : UInt64) : Payload :=
    { command := .read, address, data := [0, 0, 0, 0], responseStatus := .incomplete,
      length_lt := Payload.wordLength_lt }

def besideArmEvents : List Hmp.Event :=
  [.transport .arm Riscv.triggerWrite, .transport .riscV Riscv.triggerWrite, .resetRequest true,
    .runWriter, .delta, .runWriter,
    .transport .arm { Riscv.triggerWrite with address := 0x110 },
    .transport .riscV (aloneEvents.readClock 0x110)]

theorem same_device_besideArm :
    ∃ sys tr sys' tr', Riscv.riscv.Run aloneEvents sys tr ∧ Hmp.hmp.Run besideArmEvents sys' tr' ∧
      tr.filterMap Riscv.Output.answer = tr'.filterMap Hmp.Output.answer ∧
      (tr'.filterMap Hmp.Output.answer).map (fun a => (a.1.data, a.2)) =
        [([1, 0, 0, 0], true), ([10, 0, 0, 0], false)] ∧
      sys.signals.controlRegisters = sys'.signals.controlRegisters .riscV ∧
      sys.signals.memory = sys'.signals.memory .riscV ∧
      sys.signals.ports.next = sys'.signals.ports.next.riscV :=
  have h : Riscv.riscv.Run aloneEvents _ _ := rfl
  have h' : Hmp.hmp.Run besideArmEvents _ _ := rfl
  have hsame := same_device h h' rfl (by decide)
  ⟨_, _, _, _, h, h', hsame.1, by decide, hsame.2.1, hsame.2.2.1, hsame.2.2.2.1⟩

end RenodeSystemC
