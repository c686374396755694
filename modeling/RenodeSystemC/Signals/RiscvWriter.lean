import RenodeSystemC.Signals.Riscv
import RenodeSystemC.Lib.Machine

/-!
# Triggers and the writer thread of `riscv_signals`

Unlike the writer of `hmp_signals`, this one looks at the pending flag before it waits for the
event. The event may then fire when nobody waits for it, or still be scheduled when the flag has
already been taken.

**Theorem (`trigger_protocol`).** In every run no trigger is stranded, and every bus write is
justified: between the clearing of the flag for the previous bus write and the clearing for
this one there is a control write that triggered.

The notification in flight when the flag is cleared is spent in the delta cycle the thread waits
for next (`wait(SC_ZERO_TIME)`), so a notification that finds the thread waiting for the event was
always scheduled after the last clearing. This is the field `event` of the invariant `TriggerInv`.
-/

namespace RenodeSystemC.Riscv

open Signals Bytes

/-! ## The machine -/

/-- Where `system_bus_writer` is suspended, or runnable. -/
inductive WriterPc where
  /-- Runnable, at the top of the thread. -/
  | start
  /-- In `wait(system_bus_write_event)`. -/
  | waitEvent
  /-- Runnable: the event fired. -/
  | woken
  /-- In `wait(SC_ZERO_TIME)`. -/
  | waitZero
  /-- Runnable: the delta cycle passed. -/
  | resumed
  /-- In `b_transport` on `system_bus_initiator_socket`. -/
  | inTransport
  deriving DecidableEq, Repr

def WriterPc.runnable : WriterPc → Bool
  | .start | .woken | .resumed => true
  | .waitEvent | .waitZero | .inTransport => false

/-- What the delta notification phase makes of the writer; `fired` tells whether
`system_bus_write_event` fires. -/
def WriterPc.afterDelta (fired : Bool) : WriterPc → WriterPc
  | .waitEvent => if fired then .woken else .waitEvent
  | .waitZero => .resumed
  | pc => pc

structure System where
  signals : RiscvSignals
  writer : WriterPc

inductive Event where
  /-- A transaction on the bus. -/
  | transport (p : Payload)
  /-- The scheduler runs the writer thread to its next suspension. -/
  | runWriter
  /-- The writer's `b_transport` call returns. -/
  | busReturn
  /-- The delta cycle ends. -/
  | delta
  deriving DecidableEq

inductive Output where
  /-- A transaction is answered; `raised` when it set the pending flag. -/
  | reply (p : Payload) (raised : Bool)
  /-- The transaction was a control write that overlapped the trigger register and left it
  nonzero. -/
  | trigger
  /-- The writer clears the pending flag. -/
  | cleared
  /-- The writer calls `b_transport`. -/
  | busWrite (p : Payload)
  deriving DecidableEq

/-- The payload the writer sends. -/
def busPayload : Payload where
  command := .write
  address := systemBusTestAddress
  data := leBytes 4 systemBusTestValue.toNat
  responseStatus := .incomplete
  length_lt := by rw [length_leBytes]; decide

/-- The transaction is an accepted control write whose range overlaps `0x114..0x117`, and the
trigger word is nonzero after it. -/
def isTrigger (s : RiscvSignals) (p : Payload) : Bool :=
  p.address < 0x1000 && p.command = .write && (bTransport s p).payload.responseStatus = .ok &&
    overlaps p.address p.dataLength systemBusTriggerOffset 4 &&
    (bTransport s p).state.controlRegisters.word32 systemBusTriggerOffset != 0

/-- The writer takes the flag and waits one delta cycle. -/
def takeFlag (sys : System) : System × List Output :=
  ({ signals := { sys.signals with systemBusWritePending := false }, writer := .waitZero },
    [.cleared])

/-- The top of the `while` loop: wait for the event only if the flag is clear. -/
def loopHead (sys : System) : System × List Output :=
  if sys.signals.systemBusWritePending then takeFlag sys
  else ({ sys with writer := .waitEvent }, [])

/-- The end of a delta cycle, for the device. -/
def RiscvSignals.afterDelta (s : RiscvSignals) : RiscvSignals :=
  { s with ports := s.ports.update, systemBusWriteEvent := false }

def step (sys : System) : Event → Option (System × List Output)
  | .transport p =>
    let r := bTransport sys.signals p
    some ({ sys with signals := r.state }, .reply r.payload (raises sys.signals p) ::
      if isTrigger sys.signals p then [.trigger] else [])
  | .runWriter =>
    match sys.writer with
    | .start => some (loopHead sys)
    | .woken => some (takeFlag sys)
    | .resumed => some ({ sys with writer := .inTransport }, [.busWrite busPayload])
    | _ => none
  | .busReturn =>
    match sys.writer with
    | .inTransport => some (loopHead sys)
    | _ => none
  | .delta =>
    if sys.writer.runnable then none
    else
      some ({ signals := sys.signals.afterDelta,
              writer := sys.writer.afterDelta sys.signals.systemBusWriteEvent }, [])

/-- The system after elaboration. -/
def riscv : Machine System Event Output where
  init := { signals := RiscvSignals.init, writer := .start }
  step := step

/-! ## Traces -/

/-- A trigger has come since the flag was last cleared. -/
def Fresh (tr : List Output) : Prop :=
  ∃ a b, tr = a ++ b ∧ .trigger ∈ b ∧ .cleared ∉ b

/-- The flag was cleared once since the last bus write, and a trigger had come since it was
cleared before that. -/
def Justified (tr : List Output) : Prop :=
  ∃ a b c, tr = a ++ b ++ .cleared :: c ∧ .trigger ∈ b ∧ .cleared ∉ b ∧ .cleared ∉ c ∧
    ∀ p, .busWrite p ∉ c

theorem Fresh.append {tr o : List Output} (h : Fresh tr) (ho : .cleared ∉ o) : Fresh (tr ++ o) := by
  obtain ⟨a, b, rfl, htrig, hclear⟩ := h
  refine ⟨a, b ++ o, by simp, List.mem_append_left _ htrig, ?_⟩
  intro hmem
  rcases List.mem_append.1 hmem with hmem | hmem
  · exact hclear hmem
  · exact ho hmem

theorem fresh_of_mem {tr o : List Output} (h : .trigger ∈ o) (ho : .cleared ∉ o) :
    Fresh (tr ++ o) := ⟨tr, o, rfl, h, ho⟩

/-- Clearing a flag that a trigger has set since the last clearing justifies the next bus
write. -/
theorem Fresh.justified {tr : List Output} (h : Fresh tr) : Justified (tr ++ [.cleared]) := by
  obtain ⟨a, b, rfl, htrig, hclear⟩ := h
  exact ⟨a, b, [], rfl, htrig, hclear, List.not_mem_nil, fun _ => List.not_mem_nil⟩

theorem Justified.append {tr o : List Output} (h : Justified tr) (ho : .cleared ∉ o)
    (hb : ∀ p, .busWrite p ∉ o) : Justified (tr ++ o) := by
  obtain ⟨a, b, c, rfl, htrig, hclear, hc, hw⟩ := h
  refine ⟨a, b, c ++ o, by simp, htrig, hclear, ?_, fun p => ?_⟩
  · intro hmem
    rcases List.mem_append.1 hmem with hmem | hmem
    · exact hc hmem
    · exact ho hmem
  · intro hmem
    rcases List.mem_append.1 hmem with hmem | hmem
    · exact hw p hmem
    · exact hb p hmem

/-- Every bus write in the trace is justified by what came before it. -/
def WritesJustified (tr : List Output) : Prop :=
  ∀ pre p post, tr = pre ++ .busWrite p :: post → Justified pre

theorem writesJustified_append {tr o : List Output} (h : WritesJustified tr)
    (hb : ∀ p, .busWrite p ∉ o) : WritesJustified (tr ++ o) := by
  intro pre p post heq
  rcases append_eq_append_cons heq with ⟨t, rfl, -⟩ | ⟨a, -, rfl⟩
  · exact h pre p t rfl
  · exact absurd (List.mem_append_right a List.mem_cons_self) (hb p)

theorem writesJustified_snoc {tr : List Output} {p : Payload} (h : WritesJustified tr)
    (hj : Justified tr) : WritesJustified (tr ++ [.busWrite p]) := by
  intro pre q post heq
  rcases concat_eq_append_cons heq with ⟨t, rfl, -⟩ | ⟨rfl, -, -⟩
  · exact h pre q t rfl
  · exact hj

/-! ## The flag and the event -/

theorem lt_of_overlaps_trigger {offset : UInt64} {length : UInt32}
    (h : overlaps offset length systemBusTriggerOffset 4 = true) : offset < 0x1000 := by
  have hlt : offset < UInt64.ofNat systemBusTriggerOffset + UInt64.ofNat 4 := by
    rw [overlaps, Bool.and_eq_true, decide_eq_true_eq] at h
    exact h.1
  exact UInt64.lt_trans hlt (by decide)

/-- A transaction sets the flag and schedules the event together, exactly when it triggers. -/
theorem flags_bTransport (s : RiscvSignals) (p : Payload) :
    (bTransport s p).state.systemBusWritePending = (s.systemBusWritePending || isTrigger s p) ∧
      (bTransport s p).state.systemBusWriteEvent = (s.systemBusWriteEvent || isTrigger s p) := by
  have hs := served s p
  unfold isTrigger
  generalize bTransport s p = r at hs
  cases hs with
  | addressError => simp
  | commandError => simp
  | readControl _ hc => simp [hc]
  | readMemory _ _ hc => simp [hc]
  | writeMemory hge =>
    have hlt : ¬ p.address < 0x1000 := by
      rw [lt_bankSize_iff]
      exact Nat.not_lt.2 hge
    rw [decide_eq_false hlt]
    simp only [Bool.false_and, Bool.or_false]
    exact ⟨s.storeMemory_systemBusWritePending _ _, s.storeMemory_systemBusWriteEvent _ _⟩
  | writeControl _ hc =>
    by_cases hhit : overlaps p.address p.dataLength systemBusTriggerOffset 4 = true
    · have hlt := lt_of_overlaps_trigger hhit
      simp only [applyControlWrite, RiscvSignals.storeControl, hhit, hlt, hc, true_and,
        Payload.setResponseStatus_responseStatus, decide_true, Bool.true_and]
      split_ifs with ht
      · simp only [bne_iff_ne.2 ht, Bool.or_true, and_self]
      · rw [not_not] at ht
        simp only [ht, bne_self_eq_false, Bool.or_false, and_self]
    · simp only [applyControlWrite, RiscvSignals.storeControl, hhit, false_and, if_false,
        Bool.and_false, Bool.false_and, Bool.or_false, and_self, Bool.false_eq_true]

/-! ## The invariant -/

/-- What the flag, the event and the writer's place say about the trace. -/
structure TriggerInv (sys : System) (tr : List Output) : Prop where
  /-- A set flag was set after the last clearing. -/
  pending : sys.signals.systemBusWritePending = true → Fresh tr
  /-- So was a scheduled event, unless the writer waits for the delta cycle that spends it. -/
  event : sys.signals.systemBusWriteEvent = true → sys.writer ≠ .waitZero → Fresh tr
  /-- The event that woke the writer announced a trigger that has not been taken. -/
  woken : sys.writer = .woken → Fresh tr
  /-- A writer blocked on the event has an empty flag or a scheduled event. -/
  quiet : sys.writer = .waitEvent → sys.signals.systemBusWriteEvent = false →
    sys.signals.systemBusWritePending = false
  /-- A writer on its way to the bus has a reason. -/
  served : sys.writer = .waitZero ∨ sys.writer = .resumed → Justified tr
  writes : WritesJustified tr

theorem triggerInv_init : TriggerInv riscv.init [] := by
  refine ⟨?_, ?_, ?_, ?_, ?_, ?_⟩
  · intro h; cases h
  · intro h; cases h
  · intro h; cases h
  · intro h; cases h
  · rintro (h | h) <;> cases h
  · intro pre p post heq
    cases pre <;> cases heq

/-- Taking the flag, when a trigger has come since the last clearing. -/
theorem triggerInv_takeFlag (sys : System) {tr : List Output} (hf : Fresh tr)
    (hw : WritesJustified tr) : TriggerInv (takeFlag sys).1 (tr ++ (takeFlag sys).2) := by
  refine ⟨?_, ?_, ?_, ?_, ?_, ?_⟩
  · intro h; cases h
  · intro _ h; exact absurd rfl h
  · intro h; cases h
  · intro h; cases h
  · exact fun _ => hf.justified
  · apply writesJustified_append hw
    intro p hmem
    simp [takeFlag] at hmem

/-- The top of the loop, reached with no delta cycle to wait for. -/
theorem triggerInv_loopHead {sys : System} {tr : List Output} (h : TriggerInv sys tr)
    (hz : sys.writer ≠ .waitZero) : TriggerInv (loopHead sys).1 (tr ++ (loopHead sys).2) := by
  unfold loopHead
  split_ifs with hp
  · exact triggerInv_takeFlag sys (h.pending hp) h.writes
  · rw [List.append_nil]
    refine ⟨h.pending, fun he _ => h.event he hz, ?_, ?_, ?_, h.writes⟩
    · intro hw; cases hw
    · intro _ _; exact Bool.eq_false_iff.2 hp
    · rintro (hw | hw) <;> cases hw

theorem triggerInv_transport {sys : System} {tr : List Output} (h : TriggerInv sys tr)
    (p : Payload) :
    TriggerInv { sys with signals := (bTransport sys.signals p).state }
      (tr ++ .reply (bTransport sys.signals p).payload (raises sys.signals p) ::
        if isTrigger sys.signals p then [.trigger] else []) := by
  obtain ⟨hpend, hev⟩ := flags_bTransport sys.signals p
  generalize ho : (Output.reply (bTransport sys.signals p).payload (raises sys.signals p) ::
    if isTrigger sys.signals p then [.trigger] else []) = o
  have hclear : .cleared ∉ o := by
    rw [← ho]
    split_ifs <;> simp
  have hbus : ∀ q, .busWrite q ∉ o := by
    rw [← ho]
    split_ifs <;> simp
  have hmem : isTrigger sys.signals p = true → Fresh (tr ++ o) := by
    intro ht
    refine fresh_of_mem ?_ hclear
    rw [← ho, if_pos ht]
    simp
  refine ⟨?_, ?_, ?_, ?_, ?_, writesJustified_append h.writes hbus⟩
  · intro hp
    rw [hpend, Bool.or_eq_true] at hp
    exact hp.elim (fun hp => (h.pending hp).append hclear) hmem
  · intro he hz
    rw [hev, Bool.or_eq_true] at he
    exact he.elim (fun he => (h.event he hz).append hclear) hmem
  · intro hw; exact (h.woken hw).append hclear
  · intro hw he
    rw [hev, Bool.or_eq_false_iff] at he
    rw [hpend, Bool.or_eq_false_iff]
    exact ⟨h.quiet hw he.1, he.2⟩
  · intro hw; exact (h.served hw).append hclear hbus

/-- The delta cycle spends the event: a writer blocked on it hears it, and one in
`wait(SC_ZERO_TIME)` goes on. -/
theorem triggerInv_delta {sys : System} {tr : List Output} (h : TriggerInv sys tr)
    (hrun : ¬ sys.writer.runnable = true) :
    TriggerInv { signals := sys.signals.afterDelta,
                 writer := sys.writer.afterDelta sys.signals.systemBusWriteEvent } tr := by
  refine ⟨h.pending, ?_, ?_, ?_, ?_, h.writes⟩
  · intro he; cases he
  · intro hw
    cases hpc : sys.writer with
    | start | woken | resumed => rw [hpc] at hrun; exact absurd rfl hrun
    | waitEvent =>
      simp only [hpc, WriterPc.afterDelta] at hw
      split_ifs at hw with he
      exact h.event he (by rw [hpc]; intro hz; cases hz)
    | waitZero => rw [hpc] at hw; cases hw
    | inTransport => rw [hpc] at hw; cases hw
  · intro hw _
    cases hpc : sys.writer with
    | waitEvent =>
      simp only [hpc, WriterPc.afterDelta] at hw
      split_ifs at hw with he
      exact h.quiet hpc (Bool.eq_false_iff.2 he)
    | start | woken | waitZero | resumed | inTransport => rw [hpc] at hw; cases hw
  · intro hw
    cases hpc : sys.writer with
    | start | woken | resumed => rw [hpc] at hrun; exact absurd rfl hrun
    | waitEvent =>
      simp only [hpc, WriterPc.afterDelta] at hw
      split_ifs at hw <;> rcases hw with hw | hw <;> cases hw
    | waitZero => exact h.served (Or.inl hpc)
    | inTransport => rw [hpc] at hw; rcases hw with hw | hw <;> cases hw

theorem triggerInv_step {sys sys' : System} {tr : List Output} {e : Event} {o : List Output}
    (h : TriggerInv sys tr) (hs : step sys e = some (sys', o)) : TriggerInv sys' (tr ++ o) := by
  cases e with
  | transport p =>
    cases hs
    exact triggerInv_transport h p
  | runWriter =>
    simp only [step] at hs
    split at hs
    · rename_i hw
      have hinv := triggerInv_loopHead h (by rw [hw]; intro hz; cases hz)
      rw [Option.some.injEq] at hs
      rwa [hs] at hinv
    · rename_i hw
      have hinv := triggerInv_takeFlag sys (h.woken hw) h.writes
      rw [Option.some.injEq] at hs
      rwa [hs] at hinv
    · rename_i hw
      cases hs
      have happ : ∀ p, Fresh tr → Fresh (tr ++ [.busWrite p]) :=
        fun p hf => hf.append (by simp)
      refine ⟨fun hp => happ _ (h.pending hp), fun he _ => happ _ (h.event he ?_), ?_, ?_, ?_,
        writesJustified_snoc h.writes (h.served (Or.inr hw))⟩
      · rw [hw]; intro hz; cases hz
      · intro hw'; cases hw'
      · intro hw'; cases hw'
      · rintro (hw' | hw') <;> cases hw'
    · cases hs
  | busReturn =>
    simp only [step] at hs
    split at hs
    · rename_i hw
      have hinv := triggerInv_loopHead h (by rw [hw]; intro hz; cases hz)
      rw [Option.some.injEq] at hs
      rwa [hs] at hinv
    · cases hs
  | delta =>
    simp only [step] at hs
    split_ifs at hs with hrun
    cases hs
    rw [List.append_nil]
    exact triggerInv_delta h hrun

theorem triggerInv_run {es : List Event} {sys : System} {tr : List Output}
    (h : riscv.Run es sys tr) : TriggerInv sys tr :=
  Machine.inv_run (M := riscv) (I := TriggerInv) triggerInv_init
    (fun _ _ _ _ _ hI hs => triggerInv_step hI hs) h

/-- **No trigger is stranded and no bus write is spurious**, in every run. -/
theorem trigger_protocol {es : List Event} {sys : System} {tr : List Output}
    (h : riscv.Run es sys tr) :
    (sys.writer = .waitEvent → sys.signals.systemBusWriteEvent = false →
        sys.signals.systemBusWritePending = false) ∧
      WritesJustified tr :=
  ⟨(triggerInv_run h).quiet, (triggerInv_run h).writes⟩

/-- A write of 1 to the trigger register. -/
def triggerWrite : Payload where
  command := .write
  address := 0x114
  data := [1, 0, 0, 0]
  responseStatus := .incomplete
  length_lt := Payload.wordLength_lt

/-- The core is triggered twice more while the first bus write is in progress; one more bus
write serves both. -/
def retrigger : List Event :=
  [.runWriter, .transport triggerWrite, .delta, .runWriter, .delta, .runWriter,
    .transport triggerWrite, .delta, .transport triggerWrite, .busReturn, .delta, .runWriter,
    .busReturn]

theorem trigger_protocol_retrigger :
    ∃ sys tr, riscv.Run retrigger sys tr ∧ sys.writer = .waitEvent ∧
      sys.signals.systemBusWriteEvent = false ∧ sys.signals.systemBusWritePending = false ∧
      (tr.filter fun o => o = .busWrite busPayload).length = 2 ∧ WritesJustified tr :=
  have h : riscv.Run retrigger _ _ := rfl
  ⟨_, _, h, rfl, rfl, (trigger_protocol h).1 rfl rfl, by decide, (trigger_protocol h).2⟩

end RenodeSystemC.Riscv
