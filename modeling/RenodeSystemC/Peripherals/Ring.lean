import RenodeSystemC.Peripherals.Peripheral
import RenodeSystemC.Lib.Machine
import Mathlib.Data.List.Perm.Basic

/-!
# The ring of peripherals

Three peripherals, each of which streams to the next one's FIFO handler and writes by DMA to the
next one's memory. The handler has no bounds check on its index, and a DMA payload points into live
memory, which may be overwritten before the target reads it.

**Theorem (`ring_integrity`).** In every run no handler indexes outside its memory, no memory is
written more than 100 times by DMA, and a memory whose interrupt is asserted holds `i ^ 0xFF` in
every cell `i`.

Both hazards are met by one fact: every writer of cell `i`, in any of the three memories, writes
`i ^ 0xFF`. The handler does, because the bytes on a link arrive as `0, 1, 2, …` (`Link`), each
timer thread streaming only once; and a DMA write does, because the cell it reads was written by
the handler before the request was sent.
-/

namespace RenodeSystemC.Peripherals

open Bytes

/-! ## The machine -/

/-- The instances, in order around the ring. -/
abbrev Index := Fin 3

/-- The peripheral that `fifo_out` and `dma` of `p` lead to. -/
def next (p : Index) : Index := p + 1

structure Ring where
  now : ScTime
  peripheral : Index → Peripheral
  /-- The DMA requests that have not been delivered, with the peripheral that sent them. -/
  inFlight : List (Index × DmaRequest)

/-- One peripheral changes. -/
def Ring.set (r : Ring) (p : Index) (s : Peripheral) : Ring :=
  { r with peripheral := Function.update r.peripheral p s }

inductive RingEvent where
  /-- The CPU writes `cmd_start_timer` of `p`. -/
  | writeStart (p : Index) (value : Bool)
  /-- The CPU writes `irq_ack` of `p`. -/
  | writeAck (p : Index) (value : Bool)
  /-- The CPU reads from the registers of `p`. -/
  | read (p : Index) (q : Payload) (reading : TimerReading)
  /-- Time goes on, not past a notification. -/
  | advance (t : ScTime)
  /-- `timer_done_event` of `p` fires. -/
  | fire (p : Index)
  /-- The timer thread of `p` writes one byte. -/
  | stream (p : Index)
  /-- The FIFO handler of `next p` goes through its loop once, with a byte from `p`. -/
  | receive (p : Index)
  /-- The request at position `n` of those in flight reaches its target. -/
  | deliver (n : Nat)
  /-- The wait before the interrupt of `p` ends. -/
  | assertIrq (p : Index)
  /-- A delta cycle ends, for `p`. -/
  | delta (p : Index)

inductive RingOutput where
  /-- The handler of `p` accesses `memory[i]`. -/
  | access (p : Index) (i : Nat)

/-- The CPU writes one `bool` field. -/
def fieldWrite (offset : Nat) (value : Bool) : Payload where
  command := .write
  address := UInt64.ofNat offset
  data := [if value then 1 else 0]
  responseStatus := .incomplete
  length_lt := Payload.byteLength_lt

/-- A write takes no timer reading. -/
def noReading : TimerReading := ⟨0, 0⟩

def ringStep (r : Ring) : RingEvent → Option (Ring × List RingOutput)
  | .writeStart p value =>
    let req := fieldWrite cmdStartTimerOffset value
    some (r.set p (bTransport .regif r.now 0 noReading (r.peripheral p) req).1.state, [])
  | .writeAck p value =>
    let req := fieldWrite irqAckOffset value
    some (r.set p (bTransport .regif r.now 0 noReading (r.peripheral p) req).1.state, [])
  | .read p q reading =>
    if q.command = .read then
      some (r.set p (bTransport .regif r.now 0 reading (r.peripheral p) q).1.state, [])
    else none
  | .advance t =>
    if r.now ≤ t ∧ ∀ p, (r.peripheral p).timerDoneEvent.all (t ≤ ·) = true then
      some ({ r with now := t }, [])
    else none
  | .fire p =>
    if (r.peripheral p).timerDoneEvent = some r.now then
      some (r.set p (timerDone (r.peripheral p)), [])
    else none
  | .stream p =>
    match streamByte (r.peripheral p) with
    | none => none
    | some s => some (r.set p s, [])
  | .receive p =>
    match (r.peripheral p).fifo.nbRead with
    | none => none
    | some (byte, fifo) =>
      let q := next p
      let u := receiveByte r.now byte (r.peripheral q)
      some ({ (r.set p { r.peripheral p with fifo := fifo }).set q u.1 with
          inFlight := r.inFlight ++ [(q, u.2)] },
        [.access q (r.peripheral q).memoryIndex.toNat])
  | .deliver n =>
    match r.inFlight[n]? with
    | none => none
    | some (p, req) =>
      let q := next p
      let payload := req.payload ((r.peripheral p).memory req.dataPtr)
      let s := (bTransport .memory r.now req.delay noReading (r.peripheral q) payload).1.state
      some ({ r.set q s with inFlight := r.inFlight.eraseIdx n }, [])
  | .assertIrq p =>
    if (r.peripheral p).irqWait then some (r.set p (assertIrq (r.peripheral p)), []) else none
  | .delta p => some (r.set p (r.peripheral p).afterDelta, [])

/-- The platform after elaboration; `garbage` is what the uninitialized memories hold. -/
def ring (garbage : Index → Bytes) : Machine Ring RingEvent RingOutput where
  init := { now := 0, peripheral := fun p => .init (garbage p), inFlight := [] }
  step := ringStep

/-! ## The invariant -/

/-- How many bytes the thread has written. -/
def TimerThread.streamed : TimerThread → Nat
  | .waiting => 0
  | .streaming i => i
  | .finished => memorySize

theorem TimerThread.streamed_le (t : TimerThread) : t.streamed ≤ memorySize := by
  cases t with
  | waiting => exact Nat.zero_le _
  | streaming i => exact Nat.le_of_lt i.isLt
  | finished => exact Nat.le_refl _

/-- Cell `i` holds what every writer of cell `i` writes. -/
def Good (s : Peripheral) (i : Nat) : Prop := s.memory i = UInt8.ofNat i ^^^ 0xFF

/-- The interrupt is asserted, or about to be. -/
def Raised (s : Peripheral) : Prop :=
  s.irqWait = true ∨ s.irqSignal.current = true ∨ s.irqSignal.next = true

namespace Ring

/-- The index of the handler of `p`: how many bytes it has received, and requests it has sent. -/
def index (r : Ring) (p : Index) : Nat := (r.peripheral p).memoryIndex.toNat

/-- How many DMA writes `p` has taken. -/
def count (r : Ring) (p : Index) : Nat := (r.peripheral p).memoryWrittenCount.toNat

/-- How many requests of `p` are in flight. -/
def sent (r : Ring) (p : Index) : Nat := r.inFlight.countP fun x => x.1 = p

/-- The link from `p` holds the consecutive bytes that its thread has written and the next
handler has not received. -/
def Link (r : Ring) (p : Index) : Prop :=
  ∃ k, (r.peripheral p).fifo.contents = (List.range' (r.index (next p)) k).map UInt8.ofNat ∧
    r.index (next p) + k = (r.peripheral p).timerThread.streamed

end Ring

structure RingInv (r : Ring) : Prop where
  link : ∀ p, r.Link p
  /-- A request in flight points to a cell that has its value. -/
  request : ∀ p req, (p, req) ∈ r.inFlight →
    req.address.toNat = req.dataPtr ∧ req.dataPtr < r.index p ∧ Good (r.peripheral p) req.dataPtr
  /-- Every request sent is in flight or has been taken. -/
  counted : ∀ p, r.count (next p) + r.sent p = r.index p
  /-- What is not in flight any more has arrived. -/
  delivered : ∀ p i, i < r.index p →
    (∃ req, (p, req) ∈ r.inFlight ∧ req.dataPtr = i) ∨ Good (r.peripheral (next p)) i
  irq : ∀ p, Raised (r.peripheral p) → r.count p = memorySize

/-! ## What single operations change -/

/-- Nothing changes that the DMA side of the ring depends on. -/
structure QuietMemory (s s' : Peripheral) : Prop where
  memory : ∀ i, s'.memory i = s.memory i
  memoryIndex : s'.memoryIndex = s.memoryIndex
  memoryWrittenCount : s'.memoryWrittenCount = s.memoryWrittenCount
  raised : Raised s' → Raised s

/-- Nothing changes that the ring depends on. -/
structure Quiet (s s' : Peripheral) : Prop extends QuietMemory s s' where
  contents : s'.fifo.contents = s.fifo.contents
  streamed : s'.timerThread.streamed = s.timerThread.streamed

theorem Quiet.refl (s : Peripheral) : Quiet s s := ⟨⟨fun _ => rfl, rfl, rfl, id⟩, rfl, rfl⟩

theorem Quiet.trans {s₁ s₂ s₃ : Peripheral} (h : Quiet s₁ s₂) (h' : Quiet s₂ s₃) : Quiet s₁ s₃ where
  memory i := (h'.memory i).trans (h.memory i)
  memoryIndex := h'.memoryIndex.trans h.memoryIndex
  memoryWrittenCount := h'.memoryWrittenCount.trans h.memoryWrittenCount
  raised := fun hr => h.raised (h'.raised hr)
  contents := h'.contents.trans h.contents
  streamed := h'.streamed.trans h.streamed

/-- The fields in front of the memory. -/
theorem quiet_storeRegisters (s : Peripheral) {off : Nat} {src : List UInt8}
    (h : off + src.length ≤ memoryOffset) : Quiet s (s.storeRegisters off src) where
  memory _ := store_of_notMem (Or.inr (by omega))
  memoryIndex := rfl
  memoryWrittenCount := rfl
  raised := id
  contents := rfl
  streamed := rfl

theorem quiet_startTimer (now delay : ScTime) (s : Peripheral) : Quiet s (startTimer now delay s) :=
  ⟨⟨fun _ => rfl, rfl, rfl, id⟩, rfl, rfl⟩

theorem quiet_processCommandRegisterFields (now delay : ScTime) (s : Peripheral) :
    Quiet s (processCommandRegisterFields now delay s) := by
  unfold processCommandRegisterFields
  split_ifs
  · refine (quiet_startTimer now delay s).trans (quiet_storeRegisters _ ?_)
    rw [List.length_singleton]
    decide
  · exact .refl s

theorem quiet_updateTimer (reading : TimerReading) (s : Peripheral) :
    Quiet s (updateTimer reading s).1 := by
  unfold updateTimer
  split_ifs
  · apply quiet_storeRegisters s
    rw [length_leBytes]
    decide
  · exact .refl s

theorem quiet_timerDone (s : Peripheral) : Quiet s (timerDone s) := by
  unfold timerDone
  split
  · rename_i ht
    have hq : Quiet s (s.storeRegisters timerDoneOffset [1]) :=
      quiet_storeRegisters s (by rw [List.length_singleton]; decide)
    exact ⟨⟨hq.memory, rfl, rfl, id⟩, rfl, by rw [ht]; rfl⟩
  · exact ⟨⟨fun _ => rfl, rfl, rfl, id⟩, rfl, rfl⟩

theorem quiet_assertIrq {s : Peripheral} (h : s.irqWait = true) : Quiet s (assertIrq s) :=
  ⟨⟨fun _ => rfl, rfl, rfl, fun _ => Or.inl h⟩, rfl, rfl⟩

theorem quiet_afterDelta (s : Peripheral) : Quiet s s.afterDelta := by
  refine ⟨⟨fun _ => rfl, rfl, rfl, ?_⟩, ScFifo.contents_update _, rfl⟩
  rintro (hw | hc | hn)
  · exact Or.inl hw
  · exact Or.inr (Or.inr hc)
  · exact Or.inr (Or.inr hn)

/-- The CPU's one-byte writes. -/
theorem quiet_fieldWrite (now : ScTime) (s : Peripheral) {off : Nat} (value : Bool)
    (h : off < memoryOffset) :
    Quiet s (bTransport .regif now 0 noReading s (fieldWrite off value)).1.state := by
  have hoff : (UInt64.ofNat off).toNat = off := by
    rw [UInt64.toNat_ofNat']
    exact Nat.mod_eq_of_lt (Nat.lt_of_lt_of_le h (by decide))
  show Quiet s (processCommandRegisterFields now _
    (s.storeRegisters (TargetIndex.regif.offset (UInt64.ofNat off)) [if value then 1 else 0]))
  have hbase : TargetIndex.regif.base = 0 := rfl
  rw [TargetIndex.offset_of_lt _ (by rw [hoff, hbase]; unfold memoryOffset at h; omega), hoff,
    hbase, Nat.zero_add]
  exact (quiet_storeRegisters s (by rw [List.length_singleton]; omega)).trans
    (quiet_processCommandRegisterFields _ _ _)

theorem quiet_read (id : TargetIndex) (now delay : ScTime) (reading : TimerReading) (s : Peripheral)
    {p : Payload} (h : p.command = .read) :
    Quiet s (bTransport id now delay reading s p).1.state := by
  simp only [bTransport, h]
  split_ifs
  · exact .refl s
  · exact .refl s
  · exact quiet_updateTimer reading s

/-! ## Quiet steps -/

theorem next_injective {p q : Index} (h : next p = next q) : p = q := by
  revert p q
  decide

theorem next_ne (p : Index) : next p ≠ p := by
  revert p
  decide

theorem exists_next_eq (p : Index) : ∃ q, next q = p := by
  revert p
  decide

theorem good_of_quietMemory {s s' : Peripheral} {i : Nat} (hq : QuietMemory s s') (h : Good s i) :
    Good s' i :=
  (hq.memory i).trans h

/-- A step that is quiet for all memories keeps the invariant if it keeps the links. -/
theorem ringInv_of_quietMemory {r r' : Ring} (h : RingInv r)
    (hq : ∀ p, QuietMemory (r.peripheral p) (r'.peripheral p)) (hf : r'.inFlight = r.inFlight)
    (hlink : ∀ p, r'.Link p) : RingInv r' := by
  have hindex : ∀ p, r'.index p = r.index p := fun p => congrArg _ (hq p).memoryIndex
  have hcount : ∀ p, r'.count p = r.count p := fun p => congrArg _ (hq p).memoryWrittenCount
  refine ⟨hlink, ?_, ?_, ?_, ?_⟩
  · intro p req hmem
    rw [hf] at hmem
    obtain ⟨haddr, hlt, hgood⟩ := h.request p req hmem
    exact ⟨haddr, by rwa [hindex], good_of_quietMemory (hq p) hgood⟩
  · intro p
    rw [hcount, hindex, Ring.sent, hf]
    exact h.counted p
  · intro p i hi
    rw [hindex] at hi
    rw [hf]
    exact (h.delivered p i hi).imp_right (good_of_quietMemory (hq _))
  · intro p hr
    rw [hcount]
    exact h.irq p ((hq p).raised hr)

theorem ringInv_of_quiet {r r' : Ring} (h : RingInv r)
    (hq : ∀ p, Quiet (r.peripheral p) (r'.peripheral p)) (hf : r'.inFlight = r.inFlight) :
    RingInv r' := by
  refine ringInv_of_quietMemory h (fun p => (hq p).toQuietMemory) hf fun p => ?_
  obtain ⟨k, hcont, hsum⟩ := h.link p
  have hindex : r'.index (next p) = r.index (next p) := congrArg _ (hq _).memoryIndex
  refine ⟨k, ?_, ?_⟩
  · rw [(hq p).contents, hindex, hcont]
  · rw [(hq p).streamed, hindex, hsum]

/-- One peripheral takes a quiet step. -/
theorem ringInv_set_of_quiet {r : Ring} (h : RingInv r) (p : Index) {s : Peripheral}
    (hq : Quiet (r.peripheral p) s) : RingInv (r.set p s) := by
  refine ringInv_of_quiet h (fun p' => ?_) rfl
  by_cases hp : p' = p
  · subst hp
    simpa [Ring.set] using hq
  · simpa [Ring.set, hp] using Quiet.refl _

/-! ## Streaming a byte -/

theorem TimerThread.streamed_after (i : Fin memorySize) :
    (TimerThread.after i).streamed = i.val + 1 := by
  have hi := i.isLt
  unfold TimerThread.after
  split_ifs with h
  · rfl
  · show memorySize = i.val + 1
    omega

/-- The thread writes the number of bytes it has written so far. -/
theorem streamByte_eq_some {s s' : Peripheral} (h : streamByte s = some s') :
    QuietMemory s s' ∧
      s'.fifo.contents = s.fifo.contents ++ [UInt8.ofNat s.timerThread.streamed] ∧
      s'.timerThread.streamed = s.timerThread.streamed + 1 := by
  unfold streamByte at h
  split at h
  · rename_i i ht
    split at h
    · cases h
    · rename_i fifo hw
      cases h
      refine ⟨⟨fun _ => rfl, rfl, rfl, id⟩, ?_, ?_⟩
      · rw [ht]
        exact (ScFifo.nbWrite_eq_some hw).2
      · rw [ht]
        exact TimerThread.streamed_after i
  · cases h

theorem ringInv_stream {r : Ring} (h : RingInv r) (p : Index) {s : Peripheral}
    (hs : streamByte (r.peripheral p) = some s) : RingInv (r.set p s) := by
  obtain ⟨hq, hcont, hstreamed⟩ := streamByte_eq_some hs
  have hall : ∀ p', QuietMemory (r.peripheral p') ((r.set p s).peripheral p') := by
    intro p'
    by_cases hp : p' = p
    · subst hp
      simpa [Ring.set] using hq
    · simpa [Ring.set, hp] using (Quiet.refl (r.peripheral p')).toQuietMemory
  refine ringInv_of_quietMemory h hall rfl fun p' => ?_
  have hindex : (r.set p s).index (next p') = r.index (next p') :=
    congrArg _ (hall (next p')).memoryIndex
  obtain ⟨k, hk, hsum⟩ := h.link p'
  by_cases hp : p' = p
  · subst hp
    refine ⟨k + 1, ?_, ?_⟩
    · rw [hindex, List.range'_concat, List.map_append, ← hk]
      simp [Ring.set, hcont, ← hsum]
    · rw [hindex]
      simp [Ring.set, hstreamed, ← hsum, Nat.add_assoc]
  · refine ⟨k, ?_, ?_⟩
    · rw [hindex, ← hk]
      simp [Ring.set, hp]
    · rw [hindex, hsum]
      simp [Ring.set, hp]

/-! ## Receiving a byte -/

theorem RingInv.index_le {r : Ring} (h : RingInv r) (p : Index) : r.index p ≤ memorySize := by
  obtain ⟨q, rfl⟩ := exists_next_eq p
  obtain ⟨k, -, hsum⟩ := h.link q
  have hle := (r.peripheral q).timerThread.streamed_le
  omega

/-- The only cell a one-byte store into the memory changes. -/
theorem memory_storeRegisters (s : Peripheral) (j : Nat) (b : UInt8) (i : Nat) :
    (s.storeRegisters (memoryOffset + j) [b]).memory i = if i = j then b else s.memory i := by
  show s.registers.store (memoryOffset + j) [b] (memoryOffset + i) = _
  split_ifs with hi
  · rw [hi, store_of_mem (Nat.le_refl _) (by simp), Nat.sub_self]
    rfl
  · exact store_of_notMem (by rw [List.length_singleton]; omega)

theorem good_storeRegisters {s : Peripheral} {j i : Nat} {b : UInt8}
    (hb : b = UInt8.ofNat j ^^^ 0xFF) (h : i = j ∨ Good s i) :
    Good (s.storeRegisters (memoryOffset + j) [b]) i := by
  unfold Good at h ⊢
  rw [memory_storeRegisters]
  split_ifs with hi
  · rw [hb, hi]
  · exact h.resolve_left hi

/-- The bytes of a link arrive in order: the next one is the handler's index. -/
theorem RingInv.byte_eq {r : Ring} (h : RingInv r) {p : Index} {byte : UInt8} {fifo : ScFifo UInt8}
    (hr : (r.peripheral p).fifo.nbRead = some (byte, fifo)) :
    byte = UInt8.ofNat (r.index (next p)) ∧ r.index (next p) < memorySize ∧
      ∃ k, fifo.contents = (List.range' (r.index (next p) + 1) k).map UInt8.ofNat ∧
        r.index (next p) + 1 + k = (r.peripheral p).timerThread.streamed := by
  obtain ⟨k, hcont, hsum⟩ := h.link p
  have hle := (r.peripheral p).timerThread.streamed_le
  rw [(ScFifo.nbRead_eq_some hr).2] at hcont
  cases k with
  | zero => cases hcont
  | succ k =>
    rw [List.range'_succ, List.map_cons, List.cons.injEq] at hcont
    exact ⟨hcont.1, by omega, k, hcont.2, by omega⟩

/-- What a byte from `p` changes in the ring, `req` being the request it causes. -/
structure Received (r r' : Ring) (p : Index) (req : DmaRequest) : Prop where
  index_self : r'.index (next p) = r.index (next p) + 1
  index_of_ne : ∀ p', p' ≠ next p → r'.index p' = r.index p'
  count : ∀ p', r'.count p' = r.count p'
  /-- The cell at the index gets its value, and no cell loses it. -/
  good : ∀ p' i, p' = next p ∧ i = r.index (next p) ∨ Good (r.peripheral p') i →
    Good (r'.peripheral p') i
  raised : ∀ p', Raised (r'.peripheral p') → Raised (r.peripheral p')
  streamed : ∀ p', (r'.peripheral p').timerThread = (r.peripheral p').timerThread
  fifo_of_ne : ∀ p', p' ≠ p → (r'.peripheral p').fifo = (r.peripheral p').fifo
  inFlight : r'.inFlight = r.inFlight ++ [(next p, req)]
  dataPtr : req.dataPtr = r.index (next p)
  address : req.address.toNat = r.index (next p)

/-- The receiver changes, and of the others only the sender's FIFO does. -/
theorem received {r r' : Ring} (h : RingInv r) (p : Index) {byte : UInt8} {fifo : ScFifo UInt8}
    (hr : (r.peripheral p).fifo.nbRead = some (byte, fifo))
    (hr' : r' = { (r.set p { r.peripheral p with fifo := fifo }).set (next p)
        (receiveByte r.now byte (r.peripheral (next p))).1 with
      inFlight := r.inFlight ++
        [(next p, (receiveByte r.now byte (r.peripheral (next p))).2)] }) :
    Received r r' p (receiveByte r.now byte (r.peripheral (next p))).2 ∧
      (r'.peripheral p).fifo = fifo := by
  obtain ⟨hbyte, hlt, -⟩ := h.byte_eq hr
  have hself : r'.peripheral (next p) = (receiveByte r.now byte (r.peripheral (next p))).1 := by
    rw [hr']
    exact Function.update_self ..
  have hsender : r'.peripheral p = { r.peripheral p with fifo := fifo } := by
    rw [hr']
    exact (Function.update_of_ne (next_ne p).symm ..).trans (Function.update_self ..)
  have hother : ∀ p', p' ≠ next p → p' ≠ p → r'.peripheral p' = r.peripheral p' := by
    intro p' hq hp
    rw [hr']
    exact (Function.update_of_ne hq ..).trans (Function.update_of_ne hp ..)
  have hframe : ∀ p', p' ≠ next p → QuietMemory (r.peripheral p') (r'.peripheral p') ∧
      (r'.peripheral p').timerThread = (r.peripheral p').timerThread := by
    intro p' hq
    by_cases hp : p' = p
    · rw [hp, hsender]
      exact ⟨⟨fun _ => rfl, rfl, rfl, id⟩, rfl⟩
    · rw [hother p' hq hp]
      exact ⟨(Quiet.refl _).toQuietMemory, rfl⟩
  refine ⟨⟨?_, ?_, ?_, ?_, ?_, ?_, ?_, by rw [hr'], rfl, UInt32.toNat_toUInt64 _⟩, by rw [hsender]⟩
  · rw [Ring.index, hself]
    show ((r.peripheral (next p)).memoryIndex + 1).toNat = _
    rw [UInt32.toNat_add]
    exact Nat.mod_eq_of_lt (Nat.lt_of_le_of_lt hlt (by decide))
  · intro p' hq
    exact congrArg _ (hframe p' hq).1.memoryIndex
  · intro p'
    by_cases hq : p' = next p
    · rw [Ring.count, hq, hself]; rfl
    · exact congrArg _ (hframe p' hq).1.memoryWrittenCount
  · intro p' i hg
    by_cases hq : p' = next p
    · rw [hq, hself]
      rw [hq] at hg
      exact good_storeRegisters (by rw [hbyte]; rfl) (hg.imp_left And.right)
    · exact good_of_quietMemory (hframe p' hq).1 (hg.resolve_left fun hn => hq hn.1)
  · intro p' hraised
    by_cases hq : p' = next p
    · rw [hq, hself] at hraised
      rw [hq]
      exact hraised
    · exact (hframe p' hq).1.raised hraised
  · intro p'
    by_cases hq : p' = next p
    · rw [hq, hself]; rfl
    · exact (hframe p' hq).2
  · intro p' hp
    by_cases hq : p' = next p
    · rw [hq, hself]; rfl
    · rw [hother p' hq hp]

namespace Received

variable {r r' : Ring} {p : Index} {req : DmaRequest}

theorem link_of_ne (hR : Received r r' p req) (h : RingInv r) {p' : Index} (hp : p' ≠ p) :
    r'.Link p' := by
  obtain ⟨k, hcont, hsum⟩ := h.link p'
  have hnext : r'.index (next p') = r.index (next p') :=
    hR.index_of_ne _ fun hn => hp (next_injective hn)
  exact ⟨k, by rw [hnext, hR.fifo_of_ne p' hp, hcont], by rw [hnext, hR.streamed, hsum]⟩

theorem index_le (hR : Received r r' p req) (p' : Index) : r.index p' ≤ r'.index p' := by
  by_cases hq : p' = next p
  · rw [hq, hR.index_self]
    exact Nat.le_succ _
  · rw [hR.index_of_ne p' hq]

theorem request (hR : Received r r' p req) (h : RingInv r) (p' : Index) (req' : DmaRequest)
    (hmem : (p', req') ∈ r'.inFlight) :
    req'.address.toNat = req'.dataPtr ∧ req'.dataPtr < r'.index p' ∧
      Good (r'.peripheral p') req'.dataPtr := by
  rw [hR.inFlight, List.mem_append, List.mem_singleton] at hmem
  rcases hmem with hmem | hmem
  · obtain ⟨haddr, hptr, hg⟩ := h.request p' req' hmem
    exact ⟨haddr, Nat.lt_of_lt_of_le hptr (hR.index_le p'), hR.good p' _ (Or.inr hg)⟩
  · cases hmem
    refine ⟨hR.address.trans hR.dataPtr.symm, ?_, hR.good _ _ (Or.inl ⟨rfl, hR.dataPtr⟩)⟩
    rw [hR.dataPtr, hR.index_self]
    exact Nat.lt_succ_self _

theorem counted (hR : Received r r' p req) (h : RingInv r) (p' : Index) :
    r'.count (next p') + r'.sent p' = r'.index p' := by
  have hcounted := h.counted p'
  rw [hR.count, Ring.sent, hR.inFlight, List.countP_append, List.countP_singleton]
  by_cases hq : p' = next p
  · subst hq
    rw [hR.index_self, ← hcounted]
    simp [Ring.sent, Nat.add_assoc]
  · rw [hR.index_of_ne p' hq, ← hcounted]
    simp [Ring.sent, Ne.symm hq]

theorem delivered (hR : Received r r' p req) (h : RingInv r) (p' : Index) (i : Nat)
    (hi : i < r'.index p') :
    (∃ req', (p', req') ∈ r'.inFlight ∧ req'.dataPtr = i) ∨ Good (r'.peripheral (next p')) i := by
  -- The new request answers for the new index; all others were answered for before.
  by_cases hnew : p' = next p ∧ i = r.index (next p)
  · obtain ⟨rfl, rfl⟩ := hnew
    exact Or.inl ⟨req, by rw [hR.inFlight]; simp, hR.dataPtr⟩
  · have hold : i < r.index p' := by
      by_cases hq : p' = next p
      · subst hq
        rw [hR.index_self] at hi
        exact Nat.lt_of_le_of_ne (Nat.le_of_lt_succ hi) fun hn => hnew ⟨rfl, hn⟩
      · rwa [hR.index_of_ne p' hq] at hi
    refine (h.delivered p' i hold).imp ?_ fun hg => hR.good _ i (Or.inr hg)
    rintro ⟨req', hmem, hptr⟩
    exact ⟨req', by rw [hR.inFlight]; exact List.mem_append_left _ hmem, hptr⟩

end Received

theorem ringInv_receive {r r' : Ring} (h : RingInv r) (p : Index) {byte : UInt8}
    {fifo : ScFifo UInt8} (hr : (r.peripheral p).fifo.nbRead = some (byte, fifo))
    (hr' : r' = { (r.set p { r.peripheral p with fifo := fifo }).set (next p)
        (receiveByte r.now byte (r.peripheral (next p))).1 with
      inFlight := r.inFlight ++
        [(next p, (receiveByte r.now byte (r.peripheral (next p))).2)] }) : RingInv r' := by
  obtain ⟨hR, hfifo⟩ := received h p hr hr'
  refine ⟨?_, hR.request h, hR.counted h, hR.delivered h, ?_⟩
  · intro p'
    by_cases hp : p' = p
    · obtain ⟨-, -, k, hcont, hsum⟩ := h.byte_eq hr
      rw [hp]
      exact ⟨k, by rw [hfifo, hR.index_self, hcont], by rw [hR.index_self, hR.streamed, hsum]⟩
    · exact hR.link_of_ne h hp
  · intro p' hraised
    rw [hR.count]
    exact h.irq p' (hR.raised p' hraised)

/-! ## Delivering a request -/

/-- What one DMA write does to its target. -/
structure Taken (s s' : Peripheral) (j : Nat) (b : UInt8) : Prop where
  memory : ∀ i, s'.memory i = if i = j then b else s.memory i
  memoryIndex : s'.memoryIndex = s.memoryIndex
  memoryWrittenCount : s'.memoryWrittenCount = s.memoryWrittenCount + 1
  raised : Raised s' → Raised s ∨ s'.memoryWrittenCount = UInt32.ofNat memorySize
  contents : s'.fifo.contents = s.fifo.contents
  streamed : s'.timerThread.streamed = s.timerThread.streamed

theorem taken_bTransport (now : ScTime) (s : Peripheral) {req : DmaRequest} (b : UInt8)
    (haddr : req.address.toNat < memorySize) :
    Taken s (bTransport .memory now req.delay noReading s (req.payload b)).1.state
      req.address.toNat b := by
  have hoff : TargetIndex.memory.offset req.address = memoryOffset + req.address.toNat := by
    refine TargetIndex.offset_of_lt _ (Nat.lt_trans (Nat.add_lt_add_left haddr _) ?_)
    decide
  -- The command fields are processed after every write, also one to the memory.
  have hq := quiet_processCommandRegisterFields now (transferDelay 1)
    (s.storeRegisters (memoryOffset + req.address.toNat) [b])
  show Taken s (countWritten 1 (processCommandRegisterFields now (transferDelay 1)
    (s.storeRegisters (TargetIndex.memory.offset req.address) [b]))) _ _
  rw [hoff]
  generalize processCommandRegisterFields now (transferDelay 1)
    (s.storeRegisters (memoryOffset + req.address.toNat) [b]) = s₁ at hq
  refine ⟨?_, hq.memoryIndex, ?_, ?_, hq.contents, hq.streamed⟩
  · intro i
    rw [← memory_storeRegisters]
    exact hq.memory i
  · show s₁.memoryWrittenCount + 1 = _
    rw [hq.memoryWrittenCount]
    rfl
  · rintro (hw | hi)
    · rcases Bool.or_eq_true_iff.1 hw with hw | hw
      · exact Or.inl (hq.raised (Or.inl hw))
      · exact Or.inr (beq_iff_eq.1 hw)
    · exact Or.inl (hq.raised (Or.inr hi))

/-- A target that is still to take a request has not taken everything. -/
theorem RingInv.count_lt {r : Ring} (h : RingInv r) {p : Index} {req : DmaRequest}
    (hmem : (p, req) ∈ r.inFlight) : r.count (next p) < memorySize := by
  have hcounted := h.counted p
  have hle := h.index_le p
  have hsent : 0 < r.sent p := List.countP_pos_iff.2 ⟨_, hmem, by simp⟩
  omega

/-- What the delivery of `req`, from `p`, changes in the ring. -/
structure Delivered (r r' : Ring) (p : Index) (req : DmaRequest) : Prop where
  index : ∀ p', r'.index p' = r.index p'
  count_self : r'.count (next p) = r.count (next p) + 1
  count_of_ne : ∀ p', p' ≠ next p → r'.count p' = r.count p'
  /-- The cell written gets its value, and no cell loses it. -/
  good : ∀ p' i, p' = next p ∧ i = req.dataPtr ∨ Good (r.peripheral p') i →
    Good (r'.peripheral p') i
  raised : ∀ p', Raised (r'.peripheral p') →
    Raised (r.peripheral p') ∨ p' = next p ∧ r'.count p' = memorySize
  fifo : ∀ p', (r'.peripheral p').fifo.contents = (r.peripheral p').fifo.contents
  streamed : ∀ p', (r'.peripheral p').timerThread.streamed = (r.peripheral p').timerThread.streamed
  inFlight : r.inFlight.Perm ((p, req) :: r'.inFlight)

theorem delivered {r r' : Ring} (h : RingInv r) {n : Nat} {p : Index} {req : DmaRequest}
    (hn : r.inFlight[n]? = some (p, req)) {s : Peripheral}
    (ht : Taken (r.peripheral (next p)) s req.address.toNat
      ((r.peripheral p).memory req.dataPtr))
    (hr' : r' = { r.set (next p) s with inFlight := r.inFlight.eraseIdx n }) :
    Delivered r r' p req := by
  obtain ⟨hlt, hget⟩ := List.getElem?_eq_some_iff.1 hn
  obtain ⟨haddr, hptr, hgoodPtr⟩ := h.request p req (List.mem_of_getElem? hn)
  have hself : r'.peripheral (next p) = s := by
    rw [hr']
    exact Function.update_self ..
  have hother : ∀ p', p' ≠ next p → r'.peripheral p' = r.peripheral p' := by
    intro p' hq
    rw [hr']
    exact Function.update_of_ne hq ..
  refine ⟨?_, ?_, ?_, ?_, ?_, ?_, ?_, ?_⟩
  · intro p'
    by_cases hq : p' = next p
    · rw [Ring.index, hq, hself, ht.memoryIndex]; rfl
    · rw [Ring.index, hother p' hq]; rfl
  · have hroom := h.count_lt (List.mem_of_getElem? hn)
    rw [Ring.count, hself, ht.memoryWrittenCount, UInt32.toNat_add]
    exact Nat.mod_eq_of_lt (Nat.lt_of_le_of_lt hroom (by decide))
  · intro p' hq
    rw [Ring.count, hother p' hq]; rfl
  · intro p' i hg
    by_cases hq : p' = next p
    · rw [hq, hself]
      rw [hq] at hg
      unfold Good
      rw [ht.memory, haddr]
      split_ifs with hi
      · rw [hi]
        exact hgoodPtr
      · exact hg.resolve_left fun hn => hi hn.2
    · rw [hother p' hq]
      exact hg.resolve_left fun hn => hq hn.1
  · intro p' hraised
    by_cases hq : p' = next p
    · rw [hq, hself] at hraised
      rw [hq]
      refine (ht.raised hraised).imp_right fun hnew => ⟨rfl, ?_⟩
      rw [Ring.count, hself, hnew]
      rfl
    · rw [hother p' hq] at hraised
      exact Or.inl hraised
  · intro p'
    by_cases hq : p' = next p
    · rw [hq, hself, ht.contents]
    · rw [hother p' hq]
  · intro p'
    by_cases hq : p' = next p
    · rw [hq, hself, ht.streamed]
    · rw [hother p' hq]
  · rw [hr', ← hget]
    exact (List.getElem_cons_eraseIdx_perm hlt).symm

/-- The request leaves, and its byte is counted and in place. -/
theorem ringInv_deliver {r r' : Ring} (h : RingInv r) {p : Index} {req : DmaRequest}
    (hD : Delivered r r' p req) : RingInv r' := by
  have hleaves : (p, req) ∈ r.inFlight := hD.inFlight.mem_iff.2 List.mem_cons_self
  refine ⟨?_, ?_, ?_, ?_, ?_⟩
  · intro p'
    obtain ⟨k, hcont, hsum⟩ := h.link p'
    exact ⟨k, by rw [hD.index, hD.fifo, hcont], by rw [hD.index, hD.streamed, hsum]⟩
  · intro p' req' hmem
    have hmem' := hD.inFlight.mem_iff.2 (List.mem_cons_of_mem _ hmem)
    obtain ⟨haddr, hptr, hg⟩ := h.request p' req' hmem'
    exact ⟨haddr, by rwa [hD.index], hD.good _ _ (Or.inr hg)⟩
  · intro p'
    have hcounted := h.counted p'
    rw [Ring.sent, hD.inFlight.countP_eq] at hcounted
    rw [hD.index]
    by_cases hp : p' = p
    · subst hp
      rw [List.countP_cons_of_pos (by simp)] at hcounted
      rw [hD.count_self, Ring.sent]
      omega
    · rw [List.countP_cons_of_neg (by simpa using Ne.symm hp)] at hcounted
      rw [hD.count_of_ne _ fun hn => hp (next_injective hn)]
      exact hcounted
  · intro p' i hi
    rw [hD.index] at hi
    rcases h.delivered p' i hi with ⟨req', hmem, hptr⟩ | hg
    · rcases List.mem_cons.1 (hD.inFlight.mem_iff.1 hmem) with heq | hmem
      · cases heq
        exact Or.inr (hD.good _ _ (Or.inl ⟨rfl, hptr.symm⟩))
      · exact Or.inl ⟨req', hmem, hptr⟩
    · exact Or.inr (hD.good _ _ (Or.inr hg))
  · intro p' hraised
    rcases hD.raised p' hraised with hold | ⟨-, hfull⟩
    · -- The target has room for the request, so its interrupt was not raised before.
      have hq : p' ≠ next p := by
        rintro rfl
        exact absurd (h.irq _ hold) (h.count_lt hleaves).ne
      rw [hD.count_of_ne p' hq]
      exact h.irq p' hold
    · exact hfull

/-! ## Every run -/

theorem ringInv_init (garbage : Index → Bytes) : RingInv (ring garbage).init := by
  refine ⟨fun p => ⟨0, rfl, rfl⟩, ?_, fun p => rfl, ?_, ?_⟩
  · intro p req hmem
    cases hmem
  · intro p i hi
    exact absurd hi (Nat.not_lt_zero i)
  · rintro p (hw | hc | hn)
    · cases hw
    · cases hc
    · cases hn

/-- The handler's accesses stay in the memory. -/
def InBounds (o : List RingOutput) : Prop := ∀ p i, .access p i ∈ o → i < memorySize

theorem ringInv_step {r r' : Ring} {e : RingEvent} {o : List RingOutput} (h : RingInv r)
    (hs : ringStep r e = some (r', o)) : RingInv r' ∧ InBounds o := by
  have hnone : InBounds [] := by
    intro p i hmem
    cases hmem
  cases e with
  | writeStart p value =>
    cases hs
    exact ⟨ringInv_set_of_quiet h p (quiet_fieldWrite _ _ value (by decide)), hnone⟩
  | writeAck p value =>
    cases hs
    exact ⟨ringInv_set_of_quiet h p (quiet_fieldWrite _ _ value (by decide)), hnone⟩
  | read p q reading =>
    simp only [ringStep] at hs
    split_ifs at hs with hc
    cases hs
    exact ⟨ringInv_set_of_quiet h p (quiet_read _ _ _ _ _ hc), hnone⟩
  | advance t =>
    simp only [ringStep] at hs
    split_ifs at hs
    cases hs
    exact ⟨ringInv_of_quiet h (fun _ => .refl _) rfl, hnone⟩
  | fire p =>
    simp only [ringStep] at hs
    split_ifs at hs
    cases hs
    exact ⟨ringInv_set_of_quiet h p (quiet_timerDone _), hnone⟩
  | stream p =>
    simp only [ringStep] at hs
    split at hs
    · cases hs
    · rename_i s hstream
      cases hs
      exact ⟨ringInv_stream h p hstream, hnone⟩
  | receive p =>
    simp only [ringStep] at hs
    split at hs
    · cases hs
    · rename_i byte fifo hread
      cases hs
      refine ⟨ringInv_receive h p hread rfl, ?_⟩
      intro q i hmem
      cases List.mem_singleton.1 hmem
      exact (h.byte_eq hread).2.1
  | deliver n =>
    simp only [ringStep] at hs
    split at hs
    · cases hs
    · rename_i p req hn
      cases hs
      obtain ⟨haddr, hptr, -⟩ := h.request p req (List.mem_of_getElem? hn)
      have hsmall : req.address.toNat < memorySize := by
        rw [haddr]
        exact Nat.lt_of_lt_of_le hptr (h.index_le p)
      exact ⟨ringInv_deliver h (delivered h hn (taken_bTransport _ _ _ hsmall) rfl), hnone⟩
  | assertIrq p =>
    simp only [ringStep] at hs
    split_ifs at hs with hw
    cases hs
    exact ⟨ringInv_set_of_quiet h p (quiet_assertIrq hw), hnone⟩
  | delta p =>
    cases hs
    exact ⟨ringInv_set_of_quiet h p (quiet_afterDelta _), hnone⟩

theorem ringInv_run {garbage : Index → Bytes} {es : List RingEvent} {r : Ring}
    {tr : List RingOutput} (h : (ring garbage).Run es r tr) : RingInv r ∧ InBounds tr := by
  refine Machine.inv_run (M := ring garbage) (I := fun r tr => RingInv r ∧ InBounds tr)
    ⟨ringInv_init garbage, fun p i hmem => by cases hmem⟩ (fun r tr e r' o hI hs => ?_) h
  obtain ⟨hinv, hin⟩ := ringInv_step hI.1 hs
  refine ⟨hinv, fun p i hmem => ?_⟩
  rcases List.mem_append.1 hmem with hmem | hmem
  · exact hI.2 p i hmem
  · exact hin p i hmem

theorem RingInv.count_le {r : Ring} (h : RingInv r) (p : Index) : r.count p ≤ memorySize := by
  obtain ⟨q, rfl⟩ := exists_next_eq p
  have hcounted := h.counted q
  have hle := h.index_le q
  omega

/-- A peripheral that has taken as many writes as it has cells has all cells right: none of the
requests to it is in flight any more. -/
theorem RingInv.good_of_count_eq {r : Ring} (h : RingInv r) {p : Index}
    (hp : r.count p = memorySize) {i : Nat} (hi : i < memorySize) : Good (r.peripheral p) i := by
  obtain ⟨q, rfl⟩ := exists_next_eq p
  have hcounted := h.counted q
  have hle := h.index_le q
  have hzero : r.sent q = 0 := by omega
  rw [Ring.sent, List.countP_eq_zero] at hzero
  rcases h.delivered q i (by omega) with ⟨req, hmem, -⟩ | hg
  · exact absurd (hzero _ hmem) (by simp)
  · exact hg

/-- **Ring integrity.** -/
theorem ring_integrity {garbage : Index → Bytes} {es : List RingEvent} {r : Ring}
    {tr : List RingOutput} (h : (ring garbage).Run es r tr) :
    (∀ p i, .access p i ∈ tr → i < 100) ∧
      (∀ p, (r.peripheral p).memoryWrittenCount.toNat ≤ 100) ∧
      ∀ p, (r.peripheral p).irqSignal.current = true ∨ (r.peripheral p).irqSignal.next = true →
        ∀ i < 100, (r.peripheral p).memory i = UInt8.ofNat i ^^^ 0xFF := by
  obtain ⟨hinv, hin⟩ := ringInv_run h
  refine ⟨hin, hinv.count_le, ?_⟩
  intro p hirq i hi
  exact hinv.good_of_count_eq (hinv.irq p (Or.inr hirq)) hi

/-- The timer of peripheral 0 rolls over; each byte is received by peripheral 1 and written on to
peripheral 2 as it comes. -/
def wholeTransfer : List RingEvent :=
  [RingEvent.writeStart 0 true, .advance 4294967297000, .fire 0] ++
    (List.replicate 100 [RingEvent.stream 0, .delta 0, .receive 0, .deliver 0]).flatten ++
    [RingEvent.assertIrq 2, .delta 2]

/-- The interrupt is reached. -/
theorem ring_integrity_wholeTransfer :
    ∃ r tr, (ring fun _ _ => 0).Run wholeTransfer r tr ∧
      (r.peripheral 2).irqSignal.current = true ∧
      ∀ i < 100, (r.peripheral 2).memory i = UInt8.ofNat i ^^^ 0xFF := by
  have hirq : ((ring fun _ _ => 0).runFrom (ring fun _ _ => 0).init wholeTransfer).map
      (fun x => (x.1.peripheral 2).irqSignal.current) = some true := by decide +kernel
  obtain ⟨⟨r, tr⟩, hrun, hcur⟩ := Option.map_eq_some_iff.1 hirq
  exact ⟨r, tr, hrun, hcur, (ring_integrity hrun).2.2 2 (Or.inl hcur)⟩

end RenodeSystemC.Peripherals
