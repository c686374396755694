import RenodeSystemC.Signals.HmpPorts

/-!
# `hmp_signals` behind its buses is a pair of byte stores

What the device is for, seen from the buses: each core owns a store of `0x2000` bytes, the control
registers below and the memory above `0x1000`. A transaction is accepted when its command is a
read or a write and its range lies in one of the two halves; a write replaces exactly the addressed
bytes of the core's own store, and a read returns them. One byte is not a store byte: `0x11c`
of the Arm store shows the `system_reset_request` level.

**Theorem (`transport_refines_store`).** In every reachable state, every transaction is served
that way, with the stores that the history of accepted writes leaves (`lastWritten`).
-/

namespace RenodeSystemC.Hmp

open Signals Bytes

/-! ## The abstract stores -/

/-- One `0x2000`-byte store for each core. -/
abbrev Store := Core → Bytes

def Store.init : Store := fun core i => if i < bankSize then initialRegisters core i else 0

/-- An accepted write replaces the addressed bytes; nothing else changes a store. -/
def Store.after (st : Store) : Event → Store
  | .transport core p =>
    if p.command = .write ∧ InBank p then
      Function.update st core ((st core).store p.address.toNat p.data)
    else st
  | _ => st

/-- The last byte written at each address through each core, or its initial value. -/
def lastWritten (es : List Event) : Store := es.foldl Store.after Store.init

/-- The byte 0x11c of the Arm store. -/
def IsResetRequest (core : Core) (i : Nat) : Prop := core = .arm ∧ i = 0x11c

instance (core : Core) (i : Nat) : Decidable (IsResetRequest core i) :=
  inferInstanceAs (Decidable (core = .arm ∧ i = 0x11c))

/-! ## The device's bytes, as one range -/

/-- Byte `i` of `core`'s two banks, the memory following the control registers. -/
def HmpSignals.byteAt (s : HmpSignals) (core : Core) : Bytes := fun i =>
  if i < bankSize then s.controlRegisters core i else s.memory core (i - bankSize)

section ByteAt

variable (s : HmpSignals) (core : Core)

theorem byteAt_of_lt {i : Nat} (h : i < bankSize) :
    s.byteAt core i = s.controlRegisters core i := if_pos h

theorem byteAt_of_ge {i : Nat} (h : ¬ i < bankSize) :
    s.byteAt core i = s.memory core (i - bankSize) := if_neg h

theorem byteAt_storeControl {off : Nat} {src : List UInt8} (h : off + src.length ≤ bankSize) :
    (s.storeControl core off src).byteAt core = (s.byteAt core).store off src := by
  funext i
  by_cases hi : i < bankSize
  · rw [byteAt_of_lt _ _ hi, storeControl_self]
    simp only [store, byteAt_of_lt _ _ hi]
  · rw [byteAt_of_ge _ _ hi, store_of_notMem (Or.inr (by omega)), byteAt_of_ge _ _ hi]
    rfl

theorem byteAt_storeMemory {a : Nat} {src : List UInt8} (h : bankSize ≤ a) :
    (s.storeMemory core (a - bankSize) src).byteAt core = (s.byteAt core).store a src := by
  funext i
  by_cases hi : i < bankSize
  · rw [byteAt_of_lt _ _ hi, store_of_notMem (Or.inl (by omega)), byteAt_of_lt _ _ hi]
    rfl
  · have hiff : a - bankSize ≤ i - bankSize ∧ i - bankSize < a - bankSize + src.length ↔
        a ≤ i ∧ i < a + src.length := by omega
    have hsub : i - bankSize - (a - bankSize) = i - a := by omega
    rw [byteAt_of_ge _ _ hi, storeMemory_self]
    simp only [store, hiff, hsub, byteAt_of_ge _ _ hi]

theorem byteAt_of_ne_storeControl {c : Core} (hc : c ≠ core) (off : Nat) (src : List UInt8) :
    (s.storeControl core off src).byteAt c = s.byteAt c := by
  funext i
  simp only [HmpSignals.byteAt, storeControl_of_ne _ _ _ _ hc]
  rfl

theorem byteAt_of_ne_storeMemory {c : Core} (hc : c ≠ core) (off : Nat) (src : List UInt8) :
    (s.storeMemory core off src).byteAt c = s.byteAt c := by
  funext i
  simp only [HmpSignals.byteAt, storeMemory_of_ne _ _ _ _ hc]
  rfl

theorem load_controlRegisters {off len : Nat} (h : off + len ≤ bankSize) :
    (s.controlRegisters core).load off len = (s.byteAt core).load off len :=
  load_congr fun i _ _ => (byteAt_of_lt s core (by omega)).symm

theorem load_memory {a len : Nat} (h : bankSize ≤ a) :
    (s.memory core).load (a - bankSize) len = (s.byteAt core).load a len := by
  simp only [load, List.map_inj_left]
  intro k _
  have hk : a - bankSize + k = a + k - bankSize := by omega
  rw [byteAt_of_ge _ _ (by omega), hk]

/-- Sampling the reset request touches one byte of one store. -/
theorem byteAt_sampleResetRequest (c : Core) (i : Nat) :
    (s.sampleResetRequest core).byteAt c i =
      if core = .arm ∧ IsResetRequest c i then (if s.systemResetRequest then 1 else 0)
      else s.byteAt c i := by
  by_cases hcore : core = .arm
  · subst hcore
    rw [HmpSignals.sampleResetRequest, if_pos rfl]
    by_cases hc : c = .arm
    · subst hc
      rw [byteAt_storeControl _ _ (by rw [List.length_singleton]; decide)]
      by_cases hi : i = systemResetRequestOffset
      · subst hi
        have hreg : Core.arm = .arm ∧ IsResetRequest .arm systemResetRequestOffset :=
          ⟨rfl, rfl, rfl⟩
        rw [store_of_mem le_rfl (by simp), if_pos hreg]
        simp
      · rw [store_of_notMem (by rw [List.length_singleton]; omega), if_neg fun h => hi h.2.2]
    · rw [byteAt_of_ne_storeControl _ _ hc, if_neg fun h => hc h.2.1]
  · rw [HmpSignals.sampleResetRequest, if_neg hcore, if_neg fun h => hcore h.1]

end ByteAt

/-! ## The history determines the bytes -/

/-- The device's bytes are the last ones written, the reset-request byte aside. -/
def HoldsStore (st : Store) (s : HmpSignals) : Prop :=
  ∀ core i, ¬ IsResetRequest core i → s.byteAt core i = st core i

theorem lastWritten_append (es : List Event) (e : Event) :
    lastWritten (es ++ [e]) = (lastWritten es).after e := by
  simp [lastWritten]

theorem holdsStore_init : HoldsStore Store.init HmpSignals.init := fun _ _ _ => rfl

theorem holdsStore_of_byteAt {st : Store} {s s' : HmpSignals} (h : HoldsStore st s)
    (heq : ∀ c i, ¬ IsResetRequest c i → s'.byteAt c i = s.byteAt c i) : HoldsStore st s' :=
  fun c i hi => (heq c i hi).trans (h c i hi)

/-- Writing the same bytes to the same core keeps the two in step. -/
theorem holdsStore_update {st : Store} {s s' : HmpSignals} {core : Core} {a : Nat}
    {src : List UInt8} (h : HoldsStore st s) (hself : s'.byteAt core = (s.byteAt core).store a src)
    (hother : ∀ c, c ≠ core → s'.byteAt c = s.byteAt c) :
    HoldsStore (Function.update st core ((st core).store a src)) s' := by
  intro c i hi
  by_cases hc : c = core
  · subst hc
    rw [hself, Function.update_self]
    simp only [store, h c i hi]
  · rw [hother c hc, Function.update_of_ne hc, h c i hi]

theorem holdsStore_bTransport {st : Store} {s : HmpSignals} (h : HoldsStore st s) (core : Core)
    (p : Payload) :
    HoldsStore (st.after (.transport core p)) (bTransport core s p).state := by
  have hs := served core s p
  generalize bTransport core s p = r at hs
  simp only [Store.after]
  cases hs with
  | addressError hb => rw [if_neg fun hw => hb hw.2]; exact h
  | commandError _ hc => rw [if_neg (by simp [hc])]; exact h
  | readControl _ hc =>
    rw [if_neg (by simp [hc])]
    refine holdsStore_of_byteAt h fun c i hi => ?_
    rw [byteAt_sampleResetRequest, if_neg fun hr => hi hr.2]
  | writeControl hin hc =>
    rw [if_pos ⟨hc, Or.inl hin⟩]
    exact holdsStore_update h (byteAt_storeControl s core hin)
      (fun _ hne => byteAt_of_ne_storeControl s core hne _ _)
  | readMemory _ _ hc => rw [if_neg (by simp [hc])]; exact h
  | writeMemory hge hin hc =>
    rw [if_pos ⟨hc, Or.inr ⟨hge, hin⟩⟩]
    exact holdsStore_update h (byteAt_storeMemory s core hge)
      (fun _ hne => byteAt_of_ne_storeMemory s core hne _ _)

/-- **The bytes after a run are the last ones written.** -/
theorem holdsStore_run {es : List Event} {sys : System} {tr : List Output}
    (h : hmp.Run es sys tr) : HoldsStore (lastWritten es) sys.signals := by
  refine Machine.inv_run_history (M := hmp)
    (I := fun es sys _ => HoldsStore (lastWritten es) sys.signals)
    holdsStore_init (fun es s tr e s' o hI hs => ?_) h
  rw [lastWritten_append]
  rcases step_signals hs with ⟨core, p, rfl, hsig⟩ | ⟨hne, level, pending, event, ports, -, hsig⟩
  · rw [hsig]
    exact holdsStore_bTransport hI core p
  · have hafter : (lastWritten es).after e = lastWritten es := by
      cases e with
      | transport core p => exact absurd rfl (hne core p)
      | _ => rfl
    rw [hafter, hsig]
    exact holdsStore_of_byteAt hI fun _ _ _ => rfl

/-! ## One transaction -/

/-- The ports that belong to one core. -/
@[ext] structure CorePorts where
  resetIn : Bool
  nmiIn : Bool
  interruptInputs : Fin numInterrupts → Bool
  clockPeriod : ScTime
  bootAddress : Option UInt64
  vectorTableOffset : Option UInt32
  cpuWait : Option Bool

def Ports.ofCore (ps : Ports) (core : Core) : CorePorts where
  resetIn := ps.resetIn core
  nmiIn := ps.nmiIn core
  interruptInputs := ps.interruptInputs core
  clockPeriod := ps.clockPeriod core
  bootAddress := if core = .riscV then some ps.bootAddress else none
  vectorTableOffset := if core = .arm then some ps.vectorTableOffset else none
  cpuWait := if core = .arm then some ps.cpuWait else none

/-- Nothing of `core` differs between the two states: no byte of its banks, no port, no flag. -/
structure SameCore (core : Core) (s s' : HmpSignals) : Prop where
  bytes : s'.byteAt core = s.byteAt core
  current : s'.ports.current.ofCore core = s.ports.current.ofCore core
  next : s'.ports.next.ofCore core = s.ports.next.ofCore core
  pending : s'.systemBusWritePending core = s.systemBusWritePending core

/-- The transaction `p` on `core`'s bus, with outcome `r`, is served as the stores `st` say. -/
structure ServedAsStore (st : Store) (s : HmpSignals) (core : Core) (p : Payload)
    (r : Outcome HmpSignals) : Prop where
  /-- Accepted are exactly the reads and writes whose range lies in one bank. -/
  ok_iff : r.payload.responseStatus = .ok ↔
    (p.command = .read ∨ p.command = .write) ∧ InBank p
  /-- A rejected transaction is an address or command error and changes nothing. -/
  rejected : r.payload.responseStatus ≠ .ok →
    (r.payload.responseStatus = .addressError ∨ r.payload.responseStatus = .commandError) ∧
      r.state.controlRegisters = s.controlRegisters ∧ r.state.memory = s.memory ∧
      r.state.ports = s.ports ∧ r.state.systemBusWritePending = s.systemBusWritePending
  /-- The address is restored on every path. -/
  address : r.payload.address = p.address
  /-- An accepted write replaces the addressed bytes and leaves the other core alone. -/
  written : r.payload.responseStatus = .ok → p.command = .write →
    r.state.byteAt core = (s.byteAt core).store p.address.toNat p.data ∧
      ∀ c, c ≠ core → SameCore c s r.state
  /-- An accepted read returns the last bytes written, and the reset-request level. -/
  read : r.payload.responseStatus = .ok → p.command = .read →
    r.payload.data = (List.range p.data.length).map fun k =>
      if IsResetRequest core (p.address.toNat + k) then (if s.systemResetRequest then 1 else 0)
      else st core (p.address.toNat + k)

/-- A refresh of `core`'s entry leaves the others. -/
theorem ite_update_of_ne {α : Type*} {core c : Core} (hc : c ≠ core) (q : Prop) [Decidable q]
    (f : Core → α) (x : α) : (if q then Function.update f core x else f) c = f c := by
  split_ifs
  · rw [Function.update_of_ne hc]
  · rfl

theorem sameCore_writeControl {core c : Core} (hc : c ≠ core) (s : HmpSignals) (offset : UInt64)
    (length : UInt32) (src : List UInt8) :
    SameCore c s (applyControlWrite core offset length (s.storeControl core offset.toNat src)) where
  bytes := byteAt_of_ne_storeControl s core hc _ _
  current := rfl
  next := by
    refine CorePorts.ext ?_ ?_ ?_ ?_ ?_ ?_ ?_
    · exact ite_update_of_ne hc _ _ _
    · exact ite_update_of_ne hc _ _ _
    · exact Function.update_of_ne hc _ _
    · exact ite_update_of_ne hc _ _ _
    · simp only [Ports.ofCore]
      split_ifs with h
      · subst h
        simp only [applyControlWrite, Signal.write_next]
        rw [if_neg fun hq => hc hq.2.symm]
        rfl
      · rfl
    · simp only [Ports.ofCore]
      split_ifs with h
      · subst h
        simp only [applyControlWrite, Signal.write_next]
        rw [if_neg fun hq => hc (ne_riscV_iff.1 hq.2).symm]
        rfl
      · rfl
    · simp only [Ports.ofCore]
      split_ifs with h
      · subst h
        simp only [applyControlWrite, Signal.write_next]
        rw [if_neg fun hq => hc hq.1.symm]
        rfl
      · rfl
  pending := ite_update_of_ne hc _ _ _

theorem sameCore_writeMemory {core c : Core} (hc : c ≠ core) (s : HmpSignals) (off : Nat)
    (src : List UInt8) : SameCore c s (s.storeMemory core off src) :=
  ⟨byteAt_of_ne_storeMemory s core hc off src, rfl, rfl, rfl⟩

/-- **The device refines its stores.** In every reachable state, a transaction with any address,
length and command is served as the stores left by the accepted writes of the run say. -/
theorem transport_refines_store {es : List Event} {sys : System} {tr : List Output}
    (h : hmp.Run es sys tr) (core : Core) (p : Payload) :
    ServedAsStore (lastWritten es) sys.signals core p (bTransport core sys.signals p) := by
  have hst := holdsStore_run h
  have hs := served core sys.signals p
  generalize bTransport core sys.signals p = r at hs
  cases hs with
  | addressError hb =>
    refine ⟨?_, fun _ => ⟨Or.inl rfl, rfl, rfl, rfl, rfl⟩, rfl, ?_, ?_⟩ <;> simp [hb]
  | commandError hb hc =>
    refine ⟨?_, fun _ => ⟨Or.inr rfl, rfl, rfl, rfl, rfl⟩, rfl, ?_, ?_⟩ <;> simp [hc]
  | readControl hin hc d hd heq =>
    refine ⟨?_, ?_, rfl, ?_, fun _ _ => ?_⟩
    · simp [hc, InBank, hin]
    · simp
    · simp [hc]
    · show d = _
      rw [heq, load_controlRegisters _ _ hin, load, List.map_inj_left]
      intro k _
      rw [byteAt_sampleResetRequest]
      by_cases hr : IsResetRequest core (p.address.toNat + k)
      · rw [if_pos ⟨hr.1, hr⟩, if_pos hr]
      · rw [if_neg fun hq => hr hq.2, if_neg hr, hst core _ hr]
  | writeControl hin hc =>
    refine ⟨?_, ?_, rfl, fun _ _ => ⟨byteAt_storeControl _ core hin, ?_⟩, ?_⟩
    · simp [hc, InBank, hin]
    · simp
    · exact fun c hne => sameCore_writeControl hne _ _ _ _
    · simp [hc]
  | readMemory hge hin hc d hd heq =>
    refine ⟨?_, ?_, rfl, ?_, fun _ _ => ?_⟩
    · simp [hc, InBank, hge, hin]
    · simp
    · simp [hc]
    · show d = _
      rw [heq, load_memory _ _ hge, load, List.map_inj_left]
      intro k _
      have hr : ¬ IsResetRequest core (p.address.toNat + k) := fun hq => by
        have := hq.2
        simp only [bankSize] at hge
        omega
      rw [if_neg hr, hst core _ hr]
  | writeMemory hge hin hc =>
    refine ⟨?_, ?_, rfl, fun _ _ => ⟨byteAt_storeMemory _ core hge, ?_⟩, ?_⟩
    · simp [hc, InBank, hge, hin]
    · simp
    · exact fun c hne => sameCore_writeMemory hne _ _ _
    · simp [hc]

/-- Three bytes around the Arm reset-request register. -/
def aroundResetRequest (command : Command) : Payload where
  command := command
  address := 0x11b
  data := [7, 7, 7]
  responseStatus := .incomplete
  length_lt := by decide

/-- What is written to the reset-request register is not what is read back. -/
theorem transport_refines_store_resetRequest :
    ∃ sys tr, hmp.Run [.resetRequest true, .transport .arm (aroundResetRequest .write)] sys tr ∧
      ServedAsStore (lastWritten [.resetRequest true, .transport .arm (aroundResetRequest .write)])
        sys.signals .arm (aroundResetRequest .read)
        (bTransport .arm sys.signals (aroundResetRequest .read)) ∧
      (bTransport .arm sys.signals (aroundResetRequest .read)).payload.data = [7, 1, 7] :=
  have h : hmp.Run [.resetRequest true, .transport .arm (aroundResetRequest .write)] _ _ := rfl
  ⟨_, _, h, transport_refines_store h .arm (aroundResetRequest .read), by decide⟩

end RenodeSystemC.Hmp
