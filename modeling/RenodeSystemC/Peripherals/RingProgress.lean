import RenodeSystemC.Peripherals.Ring

/-!
# The ring comes to its end

A ring in which no process can go on has done all that its timers have started. Every operation of
a timer thread, of a FIFO handler, of the DMA and of the wait before an interrupt brings a
peripheral one step closer to that (`step_left`), so there are finitely many of them, and a
transfer can stop only when its last byte has been counted and its interrupt asserted.

**Theorem (`ring_completes`).** A run has at most 903 operations of processes. Where it comes to
rest, every timer that has rolled over has filled the memory of the second peripheral after it,
whose interrupt is asserted; and no interrupt is asserted for any other reason.
-/

namespace RenodeSystemC.Peripherals

/-! ## What is left to do -/

/-- An operation of a process of the peripherals, or of the DMA. -/
def RingEvent.ofProcess : RingEvent → Bool
  | .stream _ | .receive _ | .deliver _ | .assertIrq _ => true
  | .writeStart .. | .writeAck .. | .read .. | .advance _ | .fire _ | .delta _ => false

/-- No process can go on, and a delta cycle changes nothing. -/
structure Quiescent (r : Ring) : Prop where
  process : ∀ e : RingEvent, e.ofProcess = true → ringStep r e = none
  channels : ∀ p, (r.peripheral p).afterDelta = r.peripheral p

/-- The interrupt of a full memory is not asserted yet. -/
def Peripheral.irqLeft (s : Peripheral) : Nat :=
  if s.irqWait = true ∨ s.memoryWrittenCount.toNat < memorySize then 1 else 0

/-- The bytes to stream, to receive and to take, and the interrupt. -/
def Peripheral.left (s : Peripheral) : Nat :=
  (memorySize - s.timerThread.streamed) + (memorySize - s.memoryIndex.toNat) +
    (memorySize - s.memoryWrittenCount.toNat) + s.irqLeft

def Ring.left (r : Ring) : Nat := ∑ p, (r.peripheral p).left

/-- A full memory has its interrupt asserted, or is about to. -/
structure Live (s : Peripheral) : Prop where
  size : s.fifo.size = fifoSize
  due : s.memoryWrittenCount.toNat = memorySize → s.irqWait = true ∨ s.irqSignal.next = true

/-! ## Single operations -/

section Operations

variable {s : Peripheral}

/-- The CPU changes only the fields of the register structure, and when the timer is done. -/
theorem bTransport_regif_eq (now delay : ScTime) (reading : TimerReading) (s : Peripheral)
    (p : Payload) : ∃ registers start valid done,
      (bTransport .regif now delay reading s p).1.state =
        { s with
          registers := registers, startTime := start, startTimeValid := valid
          timerDoneEvent := done } := by
  have h := transported .regif now delay reading s p
  generalize (bTransport .regif now delay reading s p).1 = out at h
  cases h with
  | refused | ignore => exact ⟨_, _, _, _, rfl⟩
  | read hp hc hq =>
    obtain ⟨registers, heq⟩ := updateTimer_eq s reading
    exact ⟨registers, _, _, _, heq⟩
  | writeRegisters hp hc hid =>
    obtain ⟨registers, start, valid, done, heq⟩ :=
      processCommandRegisterFields_eq (s.storeRegisters (TargetIndex.regif.offset p.address) p.data)
        now (transferDelay p.data.length)
    exact ⟨registers, start, valid, done, heq⟩
  | writeMemory hp hc hid => cases hid

theorem live_regif (h : Live s) (now delay : ScTime) (reading : TimerReading) (p : Payload) :
    Live (bTransport .regif now delay reading s p).1.state ∧
      (bTransport .regif now delay reading s p).1.state.left = s.left := by
  obtain ⟨registers, start, valid, done, heq⟩ := bTransport_regif_eq now delay reading s p
  rw [heq]
  exact ⟨⟨h.size, h.due⟩, rfl⟩

theorem live_timerDone (h : Live s) : Live (timerDone s) ∧ (timerDone s).left = s.left := by
  have hstreamed := (quiet_timerDone s).streamed
  obtain ⟨registers, thread, heq⟩ := timerDone_eq s
  rw [heq] at hstreamed ⊢
  refine ⟨⟨h.size, h.due⟩, ?_⟩
  have hstreamed : thread.streamed = s.timerThread.streamed := hstreamed
  rw [Peripheral.left, Peripheral.left, hstreamed]
  rfl

theorem live_afterDelta (h : Live s) : Live s.afterDelta ∧ s.afterDelta.left = s.left :=
  ⟨⟨h.size, h.due⟩, rfl⟩

theorem live_stream {s' : Peripheral} (h : Live s) (hs : streamByte s = some s') :
    Live s' ∧ s'.left + 1 = s.left := by
  obtain ⟨-, -, hstreamed⟩ := streamByte_eq_some hs
  have hle := s'.timerThread.streamed_le
  unfold streamByte at hs
  split at hs
  · split at hs
    · cases hs
    · rename_i fifo hw
      cases hs
      refine ⟨⟨(ScFifo.nbWrite_cells hw).1.trans h.size, h.due⟩, ?_⟩
      show _ - TimerThread.streamed _ + _ + _ + s.irqLeft + 1 = s.left
      rw [Peripheral.left]
      dsimp only at hstreamed hle ⊢
      omega
  · cases hs

/-- The sender's FIFO is read. -/
theorem live_sent (h : Live s) {byte : UInt8} {fifo : ScFifo UInt8}
    (hr : s.fifo.nbRead = some (byte, fifo)) :
    Live { s with fifo := fifo } ∧ Peripheral.left { s with fifo := fifo } = s.left :=
  ⟨⟨(ScFifo.nbRead_cells hr).1.trans h.size, h.due⟩, rfl⟩

theorem live_received (h : Live s) (now : ScTime) (byte : UInt8)
    (hlt : s.memoryIndex.toNat < memorySize) :
    Live (receiveByte now byte s).1 ∧ (receiveByte now byte s).1.left + 1 = s.left := by
  refine ⟨⟨h.size, h.due⟩, ?_⟩
  have hindex : (s.memoryIndex + 1).toNat = s.memoryIndex.toNat + 1 := by
    rw [UInt32.toNat_add]
    exact Nat.mod_eq_of_lt (Nat.lt_of_le_of_lt hlt (by decide))
  show _ + (memorySize - (s.memoryIndex + 1).toNat) + _ + s.irqLeft + 1 = s.left
  rw [Peripheral.left, hindex]
  show memorySize - s.timerThread.streamed + _ +
    (memorySize - s.memoryWrittenCount.toNat) + _ + 1 = _
  omega

/-- A counted byte: the last one makes the interrupt due. -/
theorem live_countWritten (h : Live s) (hlt : s.memoryWrittenCount.toNat < memorySize) :
    Live (countWritten 1 s) ∧ (countWritten 1 s).left + 1 = s.left := by
  have hcount : (s.memoryWrittenCount + 1).toNat = s.memoryWrittenCount.toNat + 1 := by
    rw [UInt32.toNat_add]
    exact Nat.mod_eq_of_lt (Nat.lt_of_le_of_lt hlt (by decide))
  have hfull : s.memoryWrittenCount.toNat + 1 = memorySize → (countWritten 1 s).irqWait = true := by
    intro heq
    have hlast : s.memoryWrittenCount + 1 = UInt32.ofNat memorySize := by
      rw [← UInt32.toNat_inj, hcount, heq]
      rfl
    simp [countWritten, hlast]
  have hnew : (countWritten 1 s).memoryWrittenCount.toNat = s.memoryWrittenCount.toNat + 1 := hcount
  have hirq : (countWritten 1 s).irqLeft = 1 := by
    rw [Peripheral.irqLeft, if_pos]
    by_cases heq : s.memoryWrittenCount.toNat + 1 = memorySize
    · exact Or.inl (hfull heq)
    · right
      rw [hnew]
      omega
  have hold : s.irqLeft = 1 := by
    rw [Peripheral.irqLeft, if_pos (Or.inr hlt)]
  refine ⟨⟨h.size, ?_⟩, ?_⟩
  · intro hc
    rw [hnew] at hc
    exact Or.inl (hfull hc)
  · show memorySize - s.timerThread.streamed + (memorySize - s.memoryIndex.toNat) +
      (memorySize - (countWritten 1 s).memoryWrittenCount.toNat) +
      (countWritten 1 s).irqLeft + 1 = _
    rw [Peripheral.left, hirq, hold, hnew]
    omega

/-- The DMA writes a byte into the memory. -/
theorem live_delivered (h : Live s) (now : ScTime) (req : DmaRequest) (b : UInt8)
    (hlt : s.memoryWrittenCount.toNat < memorySize) :
    Live (bTransport .memory now req.delay noReading s (req.payload b)).1.state ∧
      (bTransport .memory now req.delay noReading s (req.payload b)).1.state.left + 1 = s.left := by
  obtain ⟨registers, start, valid, done, heq⟩ := processCommandRegisterFields_eq
    (s.storeRegisters (TargetIndex.memory.offset req.address) [b]) now (transferDelay 1)
  have hstate : (bTransport .memory now req.delay noReading s (req.payload b)).1.state =
      countWritten 1 (processCommandRegisterFields now (transferDelay 1)
        (s.storeRegisters (TargetIndex.memory.offset req.address) [b])) := rfl
  rw [hstate, heq]
  exact live_countWritten (s := { s with
    registers := registers, startTime := start, startTimeValid := valid, timerDoneEvent := done })
    ⟨h.size, h.due⟩ hlt

theorem live_assertIrq (h : Live s) (hw : s.irqWait = true)
    (hfull : s.memoryWrittenCount.toNat = memorySize) :
    Live (assertIrq s) ∧ (assertIrq s).left + 1 = s.left := by
  have hirq : (assertIrq s).irqLeft = 0 := by
    rw [Peripheral.irqLeft, if_neg]
    rw [not_or]
    exact ⟨Bool.false_ne_true, hfull.not_lt⟩
  have hold : s.irqLeft = 1 := by
    rw [Peripheral.irqLeft, if_pos (Or.inl hw)]
  refine ⟨⟨h.size, fun _ => Or.inr rfl⟩, ?_⟩
  rw [Peripheral.left, Peripheral.left, hirq, hold]
  rfl

end Operations

/-! ## A step of the ring -/

theorem left_set (r : Ring) (p : Index) (s : Peripheral) :
    (r.set p s).left + (r.peripheral p).left = r.left + s.left :=
  Machine.sum_rank_update Peripheral.left r.peripheral p s

/-- One peripheral changes, and has `d` operations less to do. -/
theorem live_set {r : Ring} {p : Index} {s : Peripheral} {d : Nat} (h : ∀ q, Live (r.peripheral q))
    (hs : Live s ∧ s.left + d = (r.peripheral p).left) :
    (∀ q, Live ((r.set p s).peripheral q)) ∧ (r.set p s).left + d = r.left := by
  have hsum := left_set r p s
  refine ⟨?_, by omega⟩
  intro q
  show Live (Function.update r.peripheral p s q)
  by_cases hq : q = p
  · rw [hq, Function.update_self]
    exact hs.1
  · rw [Function.update_of_ne hq]
    exact h q

/-- Two peripherals change, and the second one has `d` operations less to do. -/
theorem live_set_set {r : Ring} {p q : Index} {s t : Peripheral} {d : Nat} (hpq : q ≠ p)
    (h : ∀ k, Live (r.peripheral k)) (hs : Live s ∧ s.left = (r.peripheral p).left)
    (ht : Live t ∧ t.left + d = (r.peripheral q).left) :
    (∀ k, Live (((r.set p s).set q t).peripheral k)) ∧ ((r.set p s).set q t).left + d = r.left := by
  obtain ⟨hlive, hleft⟩ := live_set (d := 0) h hs
  have hq : (r.set p s).peripheral q = r.peripheral q := Function.update_of_ne hpq ..
  rw [← hq] at ht
  obtain ⟨hlive', hleft'⟩ := live_set hlive ht
  exact ⟨hlive', hleft'.trans hleft⟩

/-- **A process has one operation less to do, and nothing else makes more work.** -/
theorem step_left {r r' : Ring} {e : RingEvent} {o : List RingOutput} (hinv : RingInv r)
    (h : ∀ p, Live (r.peripheral p)) (hs : ringStep r e = some (r', o)) :
    (∀ p, Live (r'.peripheral p)) ∧ r'.left + (if e.ofProcess then 1 else 0) = r.left := by
  cases e with
  | writeStart p value =>
    cases hs
    exact live_set (d := 0) h (live_regif (h p) ..)
  | writeAck p value =>
    cases hs
    exact live_set (d := 0) h (live_regif (h p) ..)
  | read p q reading =>
    simp only [ringStep] at hs
    split_ifs at hs
    cases hs
    exact live_set (d := 0) h (live_regif (h p) ..)
  | advance t =>
    simp only [ringStep] at hs
    split_ifs at hs
    cases hs
    exact ⟨h, rfl⟩
  | fire p =>
    simp only [ringStep] at hs
    split_ifs at hs
    cases hs
    exact live_set (d := 0) h (live_timerDone (h p))
  | stream p =>
    simp only [ringStep] at hs
    split at hs
    · cases hs
    · rename_i s hstream
      cases hs
      exact live_set h (live_stream (h p) hstream)
  | receive p =>
    simp only [ringStep] at hs
    split at hs
    · cases hs
    · rename_i byte fifo hread
      cases hs
      obtain ⟨-, hlt, -⟩ := hinv.byte_eq hread
      exact live_set_set (next_ne p) h (live_sent (h p) hread)
        (live_received (h (next p)) r.now byte hlt)
  | deliver n =>
    simp only [ringStep] at hs
    split at hs
    · cases hs
    · rename_i p req hn
      cases hs
      exact live_set h
        (live_delivered (h (next p)) _ _ _ (hinv.count_lt (List.mem_of_getElem? hn)))
  | assertIrq p =>
    simp only [ringStep] at hs
    split_ifs at hs with hw
    cases hs
    exact live_set h (live_assertIrq (h p) hw (hinv.irq p (Or.inl hw)))
  | delta p =>
    cases hs
    exact live_set (d := 0) h (live_afterDelta (h p))

/-! ## At rest -/

theorem TimerThread.eq_finished {t : TimerThread} (h : t.streamed = memorySize) :
    t = .finished := by
  cases t with
  | waiting => cases h
  | streaming i => exact absurd h (Nat.ne_of_lt i.isLt)
  | finished => rfl

/-- A full memory got its bytes from the timer of the second peripheral before it. -/
theorem RingInv.finished {r : Ring} (h : RingInv r) {p : Index}
    (hfull : r.count (next (next p)) = memorySize) : (r.peripheral p).timerThread = .finished := by
  obtain ⟨k, -, hsum⟩ := h.link p
  have hcounted := h.counted (next p)
  have hle := (r.peripheral p).timerThread.streamed_le
  exact TimerThread.eq_finished (by omega)

namespace Quiescent

variable {r : Ring} (h : Quiescent r) (p : Index)

include h

theorem inFlight : r.inFlight = [] := by
  have hnone := h.process (.deliver 0) rfl
  cases hin : r.inFlight with
  | nil => rfl
  | cons x l => simp [ringStep, hin] at hnone

theorem irqWait : (r.peripheral p).irqWait = false := by
  have hnone := h.process (.assertIrq p) rfl
  simpa [ringStep] using hnone

theorem irqSignal : (r.peripheral p).irqSignal.current = (r.peripheral p).irqSignal.next :=
  (congrArg (fun s : Peripheral => s.irqSignal.current) (h.channels p)).symm

/-- The FIFO is empty, and all of its cells are free. -/
theorem fifo : (r.peripheral p).fifo.contents = [] ∧
    (r.peripheral p).fifo.numFree = (r.peripheral p).fifo.size := by
  have hread : (r.peripheral p).fifo.readable = [] := by
    apply ScFifo.nbRead_eq_none
    have hnone := h.process (.receive p) rfl
    simp only [ringStep] at hnone
    split at hnone
    · assumption
    · cases hnone
  have hwritten : [] = (r.peripheral p).fifo.written :=
    congrArg (fun s : Peripheral => s.fifo.written) (h.channels p)
  have hnum : 0 = (r.peripheral p).fifo.numRead :=
    congrArg (fun s : Peripheral => s.fifo.numRead) (h.channels p)
  rw [ScFifo.contents, ScFifo.numFree, hread, ← hwritten, ← hnum]
  exact ⟨rfl, rfl⟩

/-- A timer thread that has begun has ended: nothing keeps it from writing. -/
theorem timerThread (hlive : Live (r.peripheral p)) :
    (r.peripheral p).timerThread = .waiting ∨ (r.peripheral p).timerThread = .finished := by
  have hnone := h.process (.stream p) rfl
  cases hthread : (r.peripheral p).timerThread with
  | waiting => exact Or.inl rfl
  | finished => exact Or.inr rfl
  | streaming i =>
    have hfree : 0 < (r.peripheral p).fifo.numFree := by
      rw [(h.fifo p).2, hlive.size]
      decide
    obtain ⟨f, hw⟩ := ScFifo.exists_nbWrite hfree (UInt8.ofNat i)
    simp [ringStep, streamByte, hthread, hw] at hnone

/-- What a timer has streamed has gone all the way. -/
theorem count_eq (hinv : RingInv r) :
    r.count (next (next p)) = (r.peripheral p).timerThread.streamed := by
  obtain ⟨k, hcont, hsum⟩ := hinv.link p
  have hcounted := hinv.counted (next p)
  rw [Ring.sent, h.inFlight, List.countP_nil] at hcounted
  rw [(h.fifo p).1] at hcont
  have hk : k = 0 := by
    have hlen := congrArg List.length hcont
    simpa using hlen.symm
  omega

end Quiescent

/-! ## Every run -/

section Runs

variable {garbage : Index → Bytes} {es : List RingEvent} {r : Ring} {tr : List RingOutput}

theorem live_init (garbage : Index → Bytes) (p : Index) : Live ((ring garbage).init.peripheral p) :=
  ⟨rfl, fun hfull => by cases hfull⟩

theorem left_new (garbage : Bytes) : (Peripheral.init garbage).left = 301 := by
  have hirq : (Peripheral.init garbage).irqLeft = 1 := if_pos (Or.inr (Nat.zero_lt_succ 99))
  rw [Peripheral.left, hirq]
  rfl

theorem left_init (garbage : Index → Bytes) : (ring garbage).init.left = 903 := by
  show ∑ p, (Peripheral.init (garbage p)).left = 903
  simp only [left_new, Finset.sum_const, Finset.card_univ, Fintype.card_fin]
  rfl

theorem live_run (h : (ring garbage).Run es r tr) : RingInv r ∧ ∀ p, Live (r.peripheral p) := by
  refine Machine.inv_run (M := ring garbage)
    (I := fun r _ => RingInv r ∧ ∀ p, Live (r.peripheral p))
    ⟨ringInv_init garbage, live_init garbage⟩
    ?_ h
  intro r tr e r' o hI hs
  exact ⟨(ringInv_step hI.1 hs).1, (step_left hI.1 hI.2 hs).1⟩

/-- The operations of the processes in a run. -/
theorem processes_le (h : (ring garbage).Run es r tr) :
    (es.filter RingEvent.ofProcess).length ≤ 903 := by
  have hcount := Machine.count_le_of_rank (M := ring garbage)
    (I := fun r _ => RingInv r ∧ ∀ p, Live (r.peripheral p)) (D := fun _ => False)
    (c := RingEvent.ofProcess) Ring.left ⟨ringInv_init garbage, live_init garbage⟩ ?_ h
  · have hle := hcount.resolve_left id
    rw [left_init] at hle
    omega
  · intro r tr e r' o hI hs
    obtain ⟨hlive, hleft⟩ := step_left hI.1 hI.2 hs
    exact ⟨⟨(ringInv_step hI.1 hs).1, hlive⟩, id, Or.inr hleft.le⟩

end Runs

/-- Nothing is left to a peripheral: it streams nothing, its FIFO is empty and its signal
settled. -/
def Peripheral.idle (s : Peripheral) : Bool :=
  (streamByte s).isNone && (s.fifo.readable.isEmpty && s.fifo.written.isEmpty) &&
    s.fifo.numRead == 0 && !s.irqWait && s.irqSignal.current == s.irqSignal.next

theorem quiescent_of_idle {r : Ring} (hflight : r.inFlight.isEmpty = true)
    (h : ∀ p, (r.peripheral p).idle = true) : Quiescent r := by
  have hparts : ∀ p, streamByte (r.peripheral p) = none ∧ (r.peripheral p).fifo.readable = [] ∧
      (r.peripheral p).fifo.written = [] ∧ (r.peripheral p).fifo.numRead = 0 ∧
      (r.peripheral p).irqWait = false ∧
      (r.peripheral p).irqSignal.current = (r.peripheral p).irqSignal.next := by
    intro p
    simpa [Peripheral.idle, and_assoc] using h p
  have hempty : r.inFlight = [] := List.isEmpty_iff.1 hflight
  constructor
  · intro e he
    cases e with
    | stream p => simp [ringStep, (hparts p).1]
    | receive p => simp [ringStep, ScFifo.nbRead_of_nil (hparts p).2.1]
    | deliver n => simp [ringStep, hempty]
    | assertIrq p => simp [ringStep, (hparts p).2.2.2.2.1]
    | _ => cases he
  · intro p
    obtain ⟨-, -, hwritten, hread, -, hsignal⟩ := hparts p
    rw [Peripheral.afterDelta, ScFifo.update_of_settled hread hwritten,
      Signal.update_of_settled hsignal]

end RenodeSystemC.Peripherals
