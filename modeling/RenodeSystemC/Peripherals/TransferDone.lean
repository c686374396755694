import RenodeSystemC.Peripherals.Device

/-!
# The transfer-done interrupt

`memory_if` counts the bytes that are written through it, and the write after which the count is the
size of the memory goes on to assert the interrupt. The count is compared for equality.

**Theorem (`irq_iff`).** In every run, once all writes have been served, the interrupt is asserted
exactly when a whole memory has been written if and only if the writes did not step over the size:
as soon as they reach it, some of them, from the first on, make up exactly the size.
-/

namespace RenodeSystemC.Peripherals

/-! ## What has been written -/

/-- The length of an accepted write through `memory_if`. -/
def DeviceEvent.written : DeviceEvent → Option Nat
  | .transport .memory _ p => if p.command = .write ∧ ¬ Refused p then some p.data.length else none
  | _ => none

/-- The lengths of all of them, in order. -/
def written (es : List DeviceEvent) : List Nat := es.filterMap DeviceEvent.written

/-- All writes have returned, and the signal has been updated. -/
def Served (s : Peripheral) : Prop := s.irqWait = false ∧ s.irqSignal.current = s.irqSignal.next

instance (s : Peripheral) : Decidable (Served s) := inferInstanceAs (Decidable (_ ∧ _))

/-- The first few writes make up exactly the memory. -/
def Completed (lengths : List Nat) : Prop :=
  ∃ pre, pre <+: lengths ∧ pre.sum = memorySize

theorem completed_concat (lengths : List Nat) (n : Nat) :
    Completed (lengths ++ [n]) ↔ Completed lengths ∨ (lengths ++ [n]).sum = memorySize := by
  constructor
  · intro hc
    obtain ⟨pre, hpre, hsum⟩ := hc
    rcases List.prefix_concat_iff.1 hpre with rfl | hpre
    · exact Or.inr hsum
    · exact Or.inl ⟨pre, hpre, hsum⟩
  · intro hc
    rcases hc with ⟨pre, hpre, hsum⟩ | hsum
    · exact ⟨pre, hpre.trans (List.prefix_append _ _), hsum⟩
    · exact ⟨_, List.prefix_rfl, hsum⟩

theorem not_completed_nil : ¬ Completed [] := by
  intro hc
  obtain ⟨pre, hpre, hsum⟩ := hc
  rw [List.prefix_nil.1 hpre] at hsum
  cases hsum

/-! ## The counter and the interrupt -/

/-- The members that the interrupt depends on stay. -/
structure SameIrq (s s' : Peripheral) : Prop where
  memoryWrittenCount : s'.memoryWrittenCount = s.memoryWrittenCount
  irqWait : s'.irqWait = s.irqWait
  irqSignal : s'.irqSignal = s.irqSignal

/-- The counter counts the bytes, and the interrupt is on its way from the moment at which it was
the size of the memory. -/
structure IrqInv (s : Peripheral) (lengths : List Nat) : Prop where
  count : s.memoryWrittenCount = UInt32.ofNat lengths.sum
  raised : s.irqWait = true ∨ s.irqSignal.next = true ↔ Completed lengths

theorem IrqInv.same {s s' : Peripheral} {lengths : List Nat} (h : IrqInv s lengths)
    (hs : SameIrq s s') : IrqInv s' lengths := by
  refine ⟨?_, ?_⟩
  · rw [hs.memoryWrittenCount, h.count]
  · rw [hs.irqWait, hs.irqSignal, h.raised]

/-- A write is counted, and compared. -/
theorem IrqInv.countWritten {s : Peripheral} {lengths : List Nat} {p : Payload}
    (h : IrqInv s lengths) (hfit : (lengths ++ [p.data.length]).sum < 2 ^ 32) :
    IrqInv (countWritten p.dataLength s) (lengths ++ [p.data.length]) := by
  have hcount : s.memoryWrittenCount + p.dataLength =
      UInt32.ofNat (lengths ++ [p.data.length]).sum := by
    rw [h.count, Payload.dataLength, ← UInt32.ofNat_add, List.sum_append, List.sum_singleton]
  have hsize : UInt32.ofNat (lengths ++ [p.data.length]).sum = UInt32.ofNat memorySize ↔
      (lengths ++ [p.data.length]).sum = memorySize := by
    rw [← UInt32.toNat_inj, UInt32.toNat_ofNat_of_lt' hfit, UInt32.toNat_ofNat_of_lt' (by decide)]
  refine ⟨hcount, ?_⟩
  simp only [Peripherals.countWritten, hcount, Bool.or_eq_true, beq_iff_eq]
  rw [hsize, completed_concat, ← h.raised, or_right_comm]

theorem irqInv_step {d d' : Device} {e : DeviceEvent} {o : List DeviceOutput}
    {es : List DeviceEvent}
    (h : IrqInv d.peripheral (written es)) (hfit : (written (es ++ [e])).sum < 2 ^ 32)
    (hs : deviceStep d e = some (d', o)) : IrqInv d'.peripheral (written (es ++ [e])) := by
  have hwritten : written (es ++ [e]) = written es ++ e.written.toList := by
    rw [written, List.filterMap_append, ← written]
    cases he : e.written <;> simp [he]
  -- Only an accepted write through `memory_if` is counted.
  have hnone : e.written = none → written (es ++ [e]) = written es := by
    intro he
    rw [hwritten, he, Option.toList_none, List.append_nil]
  have hkeep : e.written = none → SameIrq d.peripheral d'.peripheral →
      IrqInv d'.peripheral (written (es ++ [e])) := by
    intro he hsame
    rw [hnone he]
    exact h.same hsame
  cases deviceStepped hs with
  | @transport id delay delay' p out ht =>
    cases ht with
    | refused hp =>
      refine hkeep ?_ ⟨rfl, rfl, rfl⟩
      cases id <;> simp [DeviceEvent.written, hp]
    | read hp hc =>
      refine hkeep ?_ ?_
      · cases id <;> simp [DeviceEvent.written, hc]
      · obtain ⟨registers, heq⟩ := updateTimer_eq d.peripheral (readingAt d.now d.peripheral)
        rw [Device.set, heq]
        exact ⟨rfl, rfl, rfl⟩
    | writeRegisters hp hc hid =>
      subst hid
      apply hkeep rfl
      obtain ⟨registers, start, valid, done, heq⟩ := processCommandRegisterFields_eq
        (d.peripheral.storeRegisters (TargetIndex.regif.offset p.address) p.data) d.now
          (transferDelay p.data.length)
      rw [Device.set, heq]
      exact ⟨rfl, rfl, rfl⟩
    | writeMemory hp hc hid =>
      subst hid
      have he : (DeviceEvent.transport .memory delay p).written = some p.data.length :=
        if_pos ⟨hc, hp⟩
      rw [hwritten, he, Option.toList_some] at hfit ⊢
      obtain ⟨registers, start, valid, done, heq⟩ := processCommandRegisterFields_eq
        (d.peripheral.storeRegisters (TargetIndex.memory.offset p.address) p.data) d.now
          (transferDelay p.data.length)
      rw [Device.set, heq]
      exact IrqInv.countWritten (h.same ⟨rfl, rfl, rfl⟩) hfit
    | ignore hp hc =>
      refine hkeep ?_ ⟨rfl, rfl, rfl⟩
      cases id <;> simp [DeviceEvent.written, hc]
  | advance | take | arrive | receive => exact hkeep rfl ⟨rfl, rfl, rfl⟩
  | fire =>
    apply hkeep rfl
    obtain ⟨registers, thread, heq⟩ := timerDone_eq d.peripheral
    rw [Device.set, heq]
    exact ⟨rfl, rfl, rfl⟩
  | stream hstream =>
    obtain ⟨i, fifo, -, rfl⟩ := streamByte_eq hstream
    exact hkeep rfl ⟨rfl, rfl, rfl⟩
  | assertIrq hw =>
    have hraised := h.raised.1 (Or.inl hw)
    rw [hnone rfl]
    exact ⟨h.count, iff_of_true (Or.inr rfl) hraised⟩
  | delta =>
    rw [hnone rfl]
    exact ⟨h.count, h.raised⟩

/-! ## Runs -/

theorem irqInv_run {garbage : Bytes} {es : List DeviceEvent} {d : Device} {tr : List DeviceOutput}
    (h : (device garbage).Run es d tr) (hfit : (written es).sum < 2 ^ 32) :
    IrqInv d.peripheral (written es) := by
  refine Machine.inv_run_history (M := device garbage)
    (I := fun es d _ => (written es).sum < 2 ^ 32 → IrqInv d.peripheral (written es)) ?_ ?_ h hfit
  · intro _
    exact ⟨rfl, iff_of_false (by rintro (⟨⟨⟩⟩ | ⟨⟨⟩⟩)) not_completed_nil⟩
  · intro es d _ e d' o hI hs hfit
    refine irqInv_step (hI (Nat.lt_of_le_of_lt ?_ hfit)) hfit hs
    rw [written, written, List.filterMap_append, List.sum_append]
    exact Nat.le_add_right _ _

/-- **The interrupt tells a full memory exactly when the writes do not step over its size.** -/
theorem irq_iff {garbage : Bytes} {es : List DeviceEvent} {d : Device} {tr : List DeviceOutput}
    (h : (device garbage).Run es d tr) (hfit : (written es).sum < 2 ^ 32)
    (hserved : Served d.peripheral) :
    (d.peripheral.irqSignal.current = true ↔ memorySize ≤ (written es).sum) ↔
      (memorySize ≤ (written es).sum → Completed (written es)) := by
  have hraised := (irqInv_run h hfit).raised
  rw [hserved.1, ← hserved.2] at hraised
  simp only [Bool.false_eq_true, false_or] at hraised
  rw [hraised]
  refine ⟨fun hiff => hiff.2, fun himp => ⟨?_, himp⟩⟩
  intro hc
  obtain ⟨pre, ⟨rest, hrest⟩, hsum⟩ := hc
  rw [← hrest, List.sum_append, hsum]
  exact Nat.le_add_right _ _

/-- A write of so many bytes at the start of the memory. -/
def fill (n : Nat) (h : n < 2 ^ 32) : DeviceEvent :=
  .transport .memory 0 ⟨.write, 0, List.replicate n 7, .incomplete,
    by rw [List.length_replicate]; exact h, UInt32.ofNat n, false⟩

/-- Two writes that make up the memory, and the interrupt. -/
def filled : List DeviceEvent :=
  [fill 70 (by decide), fill 30 (by decide), .assertIrq, .delta]

theorem irq_filled :
    ∃ d tr, (device fun _ => 0).Run filled d tr ∧
      (d.peripheral.irqSignal.current = true ↔ memorySize ≤ (written filled).sum) :=
  have h : (device fun _ => 0).Run filled _ _ := rfl
  ⟨_, _, h, (irq_iff h (by decide) (by decide)).2 fun _ => ⟨_, List.prefix_rfl, by decide⟩⟩

/-- **A transfer that steps over the size of the memory never raises the interrupt.** -/
theorem overshoot_silent :
    ¬ ∀ es d tr, (device fun _ => 0).Run es d tr → (written es).sum < 2 ^ 32 →
      Served d.peripheral →
      (d.peripheral.irqSignal.current = true ↔ memorySize ≤ (written es).sum) := by
  intro h
  have hrun : (device fun _ => 0).Run [fill 60 (by decide), fill 60 (by decide)] _ _ := rfl
  exact absurd (h _ _ _ hrun (by decide) (by decide)) (by decide)

end RenodeSystemC.Peripherals
