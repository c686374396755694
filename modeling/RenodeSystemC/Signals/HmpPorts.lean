import RenodeSystemC.Signals.HmpSystem

/-!
# The ports of `hmp_signals` follow the control registers

`decode` reads every output port off the control register bytes. The device never computes it:
`apply_control_write` refreshes only the ports whose registers overlap the written range.

**Theorem (`ports_follow_registers`).** In every reachable state the requested port values are
`decode` of the current bytes, the shadow values agree with the same bytes, and once a delta cycle
ends the ports carry these values.

The proof rests on `coherent_writeControl`: after a store, a register that the overlap test missed
still has its old bytes, so its port is not stale, and one that it hit is refreshed from the new
ones.
-/

namespace RenodeSystemC.Hmp

open Signals Bytes

/-! ## Decoding -/

/-- The port values the control register bytes stand for. -/
def decode (regs : Core → Bytes) : Ports where
  interruptInputs core i := regs core i != 0
  resetIn core := regs core 0x100 != 0
  nmiIn core := regs core 0x104 != 0
  bootAddress := (regs .riscV).word64 0x108
  vectorTableOffset := (regs .arm).word32 0x108
  clockPeriod core := ScTime.ofNs ((regs core).word32 0x110)
  cpuWait := regs .arm 0x118 != 0

/-- The requested port values and the shadow values are those of the current bytes. -/
structure Coherent (s : HmpSignals) : Prop where
  ports : s.ports.next = decode s.controlRegisters
  bootAddressValue : s.bootAddressValue = (s.controlRegisters .riscV).word64 0x108
  vtorValue : s.vtorValue = (s.controlRegisters .arm).word32 0x108
  clockPeriodNs : ∀ core, s.clockPeriodNs core = (s.controlRegisters core).word32 0x110

/-- The reset-request register is read by no port. -/
theorem decode_congr {regs regs' : Core → Bytes}
    (h : ∀ core i, i ≠ systemResetRequestOffset → regs' core i = regs core i) :
    decode regs' = decode regs := by
  have hlt : ∀ core i, i < systemResetRequestOffset → regs' core i = regs core i :=
    fun core i hi => h core i (by omega)
  simp only [systemResetRequestOffset] at hlt
  have h32 : ∀ core off, off + 4 ≤ 0x11c → (regs' core).word32 off = (regs core).word32 off :=
    fun core off hoff => word32_congr fun i _ _ => hlt core i (by omega)
  have h64 : (regs' .riscV).word64 0x108 = (regs .riscV).word64 0x108 :=
    word64_congr fun i _ _ => hlt _ i (by omega)
  refine Ports.ext ?_ ?_ ?_ ?_ ?_ ?_ ?_
  · funext core; simp only [decode]; rw [hlt core 0x100 (by omega)]
  · funext core; simp only [decode]; rw [hlt core 0x104 (by omega)]
  · exact h64
  · funext core i
    have hi := i.isLt
    simp only [numInterrupts] at hi
    simp only [decode]
    rw [hlt core i (by omega)]
  · funext core; simp only [decode]; rw [h32 core 0x110 (by omega)]
  · exact h32 .arm 0x108 (by omega)
  · simp only [decode]; rw [hlt .arm 0x118 (by omega)]

/-! ## A control write keeps the ports coherent -/

section Write

variable (core : Core) {offset : UInt64} {length : UInt32} {src : List UInt8} {regs : Bytes}

/-- A register the write misses keeps its byte. -/
theorem byte_of_missed (hlen : length.toNat = src.length)
    (hr : offset.toNat + src.length ≤ bankSize) {r : Nat} (hs : r + 1 ≤ bankSize)
    (h : ¬ overlaps offset length r 1 = true) : regs.store offset.toNat src r = regs r :=
  store_of_not_overlaps hlen hr hs h le_rfl (by omega)

/-- A register the write misses keeps its words. -/
theorem word32_of_missed (hlen : length.toNat = src.length)
    (hr : offset.toNat + src.length ≤ bankSize) {r : Nat} (size : Nat) (hz : 4 ≤ size)
    (hs : r + size ≤ bankSize) (h : ¬ overlaps offset length r size = true) :
    (regs.store offset.toNat src).word32 r = regs.word32 r :=
  word32_congr fun _ hi hi' => store_of_not_overlaps hlen hr hs h hi (by omega)

theorem word64_of_missed (hlen : length.toNat = src.length)
    (hr : offset.toNat + src.length ≤ bankSize) {r : Nat} (hs : r + 8 ≤ bankSize)
    (h : ¬ overlaps offset length r 8 = true) :
    (regs.store offset.toNat src).word64 r = regs.word64 r :=
  word64_congr fun _ hi hi' => store_of_not_overlaps hlen hr hs h hi (by omega)

/-- One test and one refresh of a per-core value: whether or not the test hits, the written core
ends with the value of its new bytes and the other core keeps its own. -/
theorem refresh_eq {α : Type*} {s : HmpSignals} {old : Core → α} (v : Bytes → α) {hit : Bool}
    (hold : ∀ c, old c = v (s.controlRegisters c))
    (hmiss : ¬ hit = true →
      v ((s.controlRegisters core).store offset.toNat src) = v (s.controlRegisters core))
    (c : Core) :
    (if hit = true then
        Function.update old core (v ((s.storeControl core offset.toNat src).controlRegisters core))
      else old) c = v ((s.storeControl core offset.toNat src).controlRegisters c) := by
  rw [storeControl_self]
  by_cases hc : c = core
  · subst hc
    rw [storeControl_self]
    split_ifs with hh
    · rw [Function.update_self]
    · rw [hold, hmiss hh]
  · rw [storeControl_of_ne _ _ _ _ hc, ← hold]
    split_ifs
    · rw [Function.update_of_ne hc]
    · rfl

/-- The same for a value that only core `c` has, refreshed under a test `q` that asks for `c`. -/
theorem refresh_only_eq {α : Type*} {s : HmpSignals} {c : Core} {old : α} (v : Bytes → α)
    {hit : Bool} {q : Prop} [Decidable q] (hq : q ↔ hit = true ∧ core = c)
    (hold : old = v (s.controlRegisters c))
    (hmiss : ¬ hit = true → v ((s.controlRegisters c).store offset.toNat src) =
      v (s.controlRegisters c)) :
    (if q then v ((s.storeControl core offset.toNat src).controlRegisters core) else old) =
      v ((s.storeControl core offset.toNat src).controlRegisters c) := by
  by_cases hc : core = c
  · subst hc
    rw [storeControl_self]
    split_ifs with h
    · rfl
    · rw [hold, hmiss fun hh => h (hq.2 ⟨hh, rfl⟩)]
  · rw [if_neg fun h => hc (hq.1 h).2, storeControl_of_ne _ _ _ _ (Ne.symm hc), hold]

/-- The interrupt loop, read at one input. -/
theorem update_ite_apply {α : Type*} {old : Core → Fin numInterrupts → α}
    {hit : Fin numInterrupts → Bool} {new : Fin numInterrupts → α} (c : Core)
    (i : Fin numInterrupts) :
    Function.update old core (fun i => if hit i = true then new i else old core i) c i =
      (if hit i = true then Function.update (fun c => old c i) core (new i)
        else fun c => old c i) c := by
  by_cases hc : c = core
  · subst hc
    split_ifs with hh <;> simp [hh]
  · split_ifs <;> simp [hc]

theorem ne_riscV_iff {core : Core} : core ≠ .riscV ↔ core = .arm := by
  cases core <;> simp

/-- **A control write leaves the device coherent.** -/
theorem coherent_writeControl {s : HmpSignals} (h : Coherent s)
    (hlen : length.toNat = src.length) (hr : offset.toNat + src.length ≤ bankSize) :
    Coherent (applyControlWrite core offset length (s.storeControl core offset.toNat src)) := by
  have hport : ∀ {α : Type} (f : Ports → α), f s.ports.next = f (decode s.controlRegisters) :=
    fun f => congrArg f h.ports
  refine ⟨Ports.ext ?_ ?_ ?_ ?_ ?_ ?_ ?_, ?_, ?_, ?_⟩
  · funext c
    exact refresh_eq core (· resetOffset != 0) (congrFun (hport Ports.resetIn))
      (fun hm => by rw [byte_of_missed hlen hr (by decide) hm]) c
  · funext c
    exact refresh_eq core (· nmiOffset != 0) (congrFun (hport Ports.nmiIn))
      (fun hm => by rw [byte_of_missed hlen hr (by decide) hm]) c
  · exact refresh_only_eq core (·.word64 bootAddressOffset) Iff.rfl (hport Ports.bootAddress)
      (word64_of_missed hlen hr (by decide))
  · funext c i
    have hi : (i : Nat) + 1 ≤ bankSize := Nat.le_trans i.isLt (by decide)
    apply (update_ite_apply core c i).trans
    exact refresh_eq core (· (i : Nat) != 0) (fun c => hport fun ps => ps.interruptInputs c i)
      (fun hm => by rw [byte_of_missed hlen hr hi hm]) c
  · funext c
    exact refresh_eq core (fun b => ScTime.ofNs (b.word32 clockPeriodOffset))
      (congrFun (hport Ports.clockPeriod))
      (fun hm => by rw [word32_of_missed hlen hr 4 le_rfl (by decide) hm]) c
  · exact refresh_only_eq core (·.word32 bootAddressOffset) (and_congr_right' ne_riscV_iff)
      (hport Ports.vectorTableOffset) (word32_of_missed hlen hr 8 (by decide) (by decide))
  · exact refresh_only_eq core (· cpuWaitOffset != 0) and_comm (hport Ports.cpuWait)
      (fun hm => by rw [byte_of_missed hlen hr (by decide) hm])
  · exact refresh_only_eq core (·.word64 bootAddressOffset) Iff.rfl h.bootAddressValue
      (word64_of_missed hlen hr (by decide))
  · exact refresh_only_eq core (·.word32 bootAddressOffset) (and_congr_right' ne_riscV_iff)
      h.vtorValue (word32_of_missed hlen hr 8 (by decide) (by decide))
  · exact refresh_eq core (·.word32 clockPeriodOffset) h.clockPeriodNs
      (word32_of_missed hlen hr 4 le_rfl (by decide))

end Write

/-! ## Every step keeps the ports coherent -/

/-- Coherence depends on the requested ports, the shadow values and the registers, the
reset-request register aside. -/
theorem Coherent.of_agree {s s' : HmpSignals} (h : Coherent s)
    (hports : s'.ports.next = s.ports.next) (hboot : s'.bootAddressValue = s.bootAddressValue)
    (hvtor : s'.vtorValue = s.vtorValue) (hclock : s'.clockPeriodNs = s.clockPeriodNs)
    (hregs : ∀ core i, i ≠ systemResetRequestOffset →
      s'.controlRegisters core i = s.controlRegisters core i) : Coherent s' := by
  have hword : ∀ core i, i < 0x11c → s'.controlRegisters core i = s.controlRegisters core i :=
    fun core i hi => hregs core i (Nat.ne_of_lt hi)
  refine ⟨?_, ?_, ?_, fun core => ?_⟩
  · rw [hports, h.ports, decode_congr hregs]
  · rw [hboot, h.bootAddressValue]
    exact word64_congr fun i _ _ => (hword _ i (by omega)).symm
  · rw [hvtor, h.vtorValue]
    exact word32_congr fun i _ _ => (hword _ i (by omega)).symm
  · rw [hclock, h.clockPeriodNs]
    exact word32_congr fun i _ _ => (hword _ i (by omega)).symm

theorem initialRegisters_of_lt {core : Core} {i : Nat} (h : i < bootAddressOffset) :
    initialRegisters core i = 0 := by
  simp only [bootAddressOffset] at h
  cases core <;>
    simp only [initialRegisters, bootAddressOffset, clockPeriodOffset] <;>
    rw [store_of_notMem (by omega), store_of_notMem (by omega)]

theorem coherent_init : Coherent HmpSignals.init := by
  refine ⟨Ports.ext ?_ ?_ ?_ ?_ ?_ ?_ ?_, rfl, rfl, fun core => by cases core <;> rfl⟩
  · funext core; cases core <;> rfl
  · funext core; cases core <;> rfl
  · rfl
  · funext core i
    have hi : (i : Nat) < bootAddressOffset := Nat.lt_trans i.isLt (by decide)
    show false = (initialRegisters core i != 0)
    rw [initialRegisters_of_lt hi]
    rfl
  · funext core; cases core <;> rfl
  · rfl
  · rfl

theorem coherent_sampleResetRequest {s : HmpSignals} (h : Coherent s) (core : Core) :
    Coherent (s.sampleResetRequest core) := by
  by_cases hc : core = .arm
  · rw [HmpSignals.sampleResetRequest, if_pos hc]
    refine h.of_agree rfl rfl rfl rfl fun c i hi => ?_
    by_cases hcc : c = core
    · subst hcc
      rw [storeControl_self]
      exact store_of_notMem (by rw [List.length_singleton]; omega)
    · rw [storeControl_of_ne _ _ _ _ hcc]
  · rw [HmpSignals.sampleResetRequest, if_neg hc]
    exact h

/-- A transaction keeps the device coherent. -/
theorem coherent_bTransport {s : HmpSignals} (h : Coherent s) (core : Core) (p : Payload) :
    Coherent (bTransport core s p).state := by
  have hs := served core s p
  generalize bTransport core s p = r at hs
  cases hs with
  | addressError | commandError | readMemory => exact h
  | readControl => exact coherent_sampleResetRequest h core
  | writeControl hin => exact coherent_writeControl core h p.toNat_dataLength hin
  | writeMemory => exact h.of_agree rfl rfl rfl rfl fun _ _ _ => rfl

theorem coherent_step {sys sys' : System} {e : Event} {o : List Output} (h : Coherent sys.signals)
    (hs : step sys e = some (sys', o)) : Coherent sys'.signals := by
  rcases step_signals hs with ⟨core, p, -, hsig⟩ | ⟨-, level, pending, event, ports, hports, hsig⟩
  · rw [hsig]
    exact coherent_bTransport h core p
  · rw [hsig]
    refine h.of_agree ?_ rfl rfl rfl fun _ _ _ => rfl
    rcases hports with rfl | rfl <;> rfl

theorem coherent_run {es : List Event} {sys : System} {tr : List Output} (h : hmp.Run es sys tr) :
    Coherent sys.signals :=
  Machine.inv_run (I := fun sys _ => Coherent sys.signals) coherent_init
    (fun _ _ _ _ _ h hs => coherent_step h hs) h

/-- **The ports follow the registers.** After every run the port values requested by the device,
and its shadow values, are those its control register bytes stand for; and when the delta cycle
ends, these are the values the ports carry. -/
theorem ports_follow_registers {es : List Event} {sys : System} {tr : List Output}
    (h : hmp.Run es sys tr) :
    Coherent sys.signals ∧
      ∀ sys' o, step sys .delta = some (sys', o) →
        sys'.signals.ports.current = decode sys'.signals.controlRegisters := by
  refine ⟨coherent_run h, fun sys' o hd => ?_⟩
  have hp := (coherent_run h).ports
  simp only [step] at hd
  split_ifs at hd
  cases hd
  exact hp

/-- Eight bytes at `0x106`: two below the boot address register and six of its eight. -/
def straddlingWrite : Payload where
  command := .write
  address := 0x106
  data := [1, 2, 3, 4, 5, 6, 7, 8]
  responseStatus := .incomplete
  length_lt := by decide

theorem ports_follow_straddlingWrite :
    ∃ sys tr, hmp.Run [.runWriter, .transport .riscV straddlingWrite] sys tr ∧
      Coherent sys.signals ∧ sys.signals.ports.next.bootAddress = 0x80706050403 ∧
      ∀ sys' o, step sys .delta = some (sys', o) →
        sys'.signals.ports.current = decode sys'.signals.controlRegisters :=
  have h := @ports_follow_registers [.runWriter, .transport .riscV straddlingWrite] _ _ rfl
  ⟨_, _, rfl, h.1, rfl, h.2⟩

end RenodeSystemC.Hmp
