import RenodeSystemC.Dmac.Transfer
import RenodeSystemC.Lib.Copy

/-!
# What a transfer does to the memory

The controller on a bus whose memory answers every access, with no other writer. The two cursors of
`dmac_loop` are 32-bit numbers and wrap around independently of each other, and the ranges they
go over may overlap.

**Theorem (`copy_correct`).** Every transfer that is not reprogrammed on the way ends, with one
read and one write for each byte. Unless the destination starts inside the source range, it holds
what the source held before; if it starts `d > 0` bytes inside, it holds the first `d` bytes over
and over. No other byte changes.

The loop is `forward` of `Lib.Copy` at the two cursors; what is left to say is when they meet.
-/

namespace RenodeSystemC.Dmac

/-! ## The controller on a bus -/

/-- The bytes at the 32-bit addresses. -/
abbrev Memory := UInt32 → UInt8

/-- The memory serves a payload of one byte: its bytes after the access, and the byte behind the
data pointer. -/
def serve (m : Memory) (p : Payload) : Memory × UInt8 :=
  match p.command, p.data with
  | .write, b :: _ => (Function.update m p.address.toUInt32 b, b)
  | _, _ => (m, m p.address.toUInt32)

inductive BusEvent where
  /-- An event that is no answer of the bus. -/
  | own (e : Event)
  /-- The memory serves the access in progress. -/
  | answer
  deriving DecidableEq

def busStep (ndebug : Bool) (s : System × Memory) :
    BusEvent → Option ((System × Memory) × List Output)
  | .own (.readReturn _ _) | .own (.writeReturn _) => none
  | .own e => (step ndebug s.1 e).map fun r => ((r.1, s.2), r.2)
  | .answer =>
    match s.1.loop with
    | .reading =>
      let a := serve s.2 s.1.readPayload
      (step ndebug s.1 (.readReturn .ok a.2)).map fun r => ((r.1, a.1), r.2)
    | .writing =>
      let a := serve s.2 s.1.writePayload
      (step ndebug s.1 (.writeReturn .ok)).map fun r => ((r.1, a.1), r.2)
    | _ => none

def onBus (ndebug : Bool) (garbage : Registers) (data : UInt8) (m : Memory) :
    Machine (System × Memory) BusEvent Output where
  init := ((dmac ndebug garbage data).init, m)
  step := busStep ndebug

/-! ## What a transfer should do -/

/-- How far the destination starts after the source, around the address space. -/
def Registers.distance (r : Registers) : Nat := (r.addrDst - r.addrSrc).toNat

def Registers.src (r : Registers) (k : Nat) : UInt32 := r.addrSrc + UInt32.ofNat k

def Registers.dst (r : Registers) (k : Nat) : UInt32 := r.addrDst + UInt32.ofNat k

/-- `m'` is `m` after the transfer that the registers stand for. -/
structure Copied (r : Registers) (m m' : Memory) : Prop where
  copied : r.distance = 0 ∨ r.dataLen.toNat ≤ r.distance →
    ∀ i < r.dataLen.toNat, m' (r.dst i) = m (r.src i)
  outside : ∀ a, (∀ i < r.dataLen.toNat, a ≠ r.dst i) → m' a = m a
  periodic : 0 < r.distance → r.distance < r.dataLen.toNat →
    ∀ i < r.dataLen.toNat, m' (r.dst i) = m (r.src (i % r.distance))

/-- The output is a read, or a write, on the bus. -/
def Output.isAccess (c : Command) : Output → Bool
  | .access p => p.command = c
  | _ => false

/-! ## When the cursors meet -/

theorem dst_injective (r : Registers) {j k : Nat} (hj : j < 2 ^ 32) (hk : k < 2 ^ 32)
    (h : r.dst j = r.dst k) : j = k := by
  have hof : UInt32.ofNat j = UInt32.ofNat k := UInt32.add_right_inj _ |>.1 h
  have := congrArg UInt32.toNat hof
  rwa [UInt32.toNat_ofNat_of_lt' hj, UInt32.toNat_ofNat_of_lt' hk] at this

/-- A source cell is a destination cell exactly `distance` places back. -/
theorem src_eq_dst_iff (r : Registers) {i j : Nat} (hji : j ≤ i) (hi : i < 2 ^ 32) :
    r.src i = r.dst j ↔ i = j + r.distance := by
  have hj : j < 2 ^ 32 := Nat.lt_of_le_of_lt hji hi
  have hd := (r.addrDst - r.addrSrc).toNat_lt
  have hdst : r.addrDst.toNat = (r.addrSrc.toNat + r.distance) % 2 ^ 32 := by
    rw [Registers.distance, ← UInt32.toNat_add, UInt32.add_comm, UInt32.sub_add_cancel]
  have hsrc := r.addrSrc.toNat_lt
  simp only [Registers.src, Registers.dst, ← UInt32.toNat_inj, UInt32.toNat_add,
    UInt32.toNat_ofNat_of_lt' hi, UInt32.toNat_ofNat_of_lt' hj, hdst]
  simp only [Registers.distance] at *
  omega

theorem copied_forward (r : Registers) (m : Memory) :
    Copied r m (forward r.src r.dst m r.dataLen.toNat) := by
  have hbound := r.dataLen.toNat_lt
  have hinj : ∀ j k, j < r.dataLen.toNat → k < r.dataLen.toNat → r.dst j = r.dst k → j = k :=
    fun j k hj hk => dst_injective r (by omega) (by omega)
  refine ⟨?_, fun a ha => forward_of_ne ha, ?_⟩
  · intro hd i hi
    refine forward_of_fresh hinj hi fun j hj heq => ?_
    have := (src_eq_dst_iff r (Nat.le_of_lt hj) (by omega)).1 heq
    omega
  · intro hpos hlt i hi
    refine forward_of_chain hinj hpos ?_ ?_ hi
    · intro i hi hle
      exact (src_eq_dst_iff r (Nat.sub_le _ _) (by omega)).2 (by omega)
    · intro i hi hd j hj heq
      have := (src_eq_dst_iff r (Nat.le_of_lt hj) (by omega)).1 heq
      omega

/-! ## The loop copies -/

/-- The transfer `r` of the memory `m`, at byte `n`. -/
structure AtByte (r : Registers) (m : Memory) (s : System × Memory) (n : Nat) : Prop where
  progress : Progress s.1 ⟨r, [], false⟩ n
  memory : s.2 = forward r.src r.dst m n

/-- Where the transfer is, for each place of the thread, with so many reads and writes issued. -/
def Copying (r : Registers) (m : Memory) (s : System × Memory) (reads writes : Nat) : Prop :=
  match s.1.loop with
  | .granted => s.2 = m ∧ reads = 0 ∧ writes = 0
  | .reading => ∃ n, AtByte r m s n ∧ reads = n + 1 ∧ writes = n
  | .writing => ∃ n, AtByte r m s n ∧ reads = n + 1 ∧ writes = n + 1 ∧ s.1.data = s.2 s.1.rAddr
  | .waitStart => s.2 = forward r.src r.dst m r.dataLen.toNat ∧ reads = r.dataLen.toNat ∧
      writes = r.dataLen.toNat
  | _ => False

structure CopyInv (r : Registers) (m : Memory) (s : System × Memory) (tr : List Output) : Prop where
  aborted : s.1.aborted = false
  registers : s.1.registers = r
  copying : Copying r m s (tr.countP (Output.isAccess .read)) (tr.countP (Output.isAccess .write))

/-- The event writes no register. -/
def BusEvent.Undisturbed : BusEvent → Prop
  | .own (.request _) => False
  | _ => True

section Copy

variable {ndebug : Bool} {r : Registers} {m : Memory} {s s' : System × Memory} {tr o : List Output}

theorem AtByte.frame {n : Nat} (h : AtByte r m s n) (hm : s'.2 = s.2)
    (hl : s'.1.rAddr = s.1.rAddr ∧ s'.1.wAddr = s.1.wAddr ∧ s'.1.i = s.1.i) : AtByte r m s' n :=
  ⟨h.progress.frame hl rfl rfl, by rw [hm, h.memory]⟩

theorem serve_readPayload (sys : System) (m : Memory) :
    serve m sys.readPayload = (m, m sys.rAddr) := by
  simp [serve, System.readPayload]

theorem serve_writePayload (sys : System) (m : Memory) :
    serve m sys.writePayload = (Function.update m sys.wAddr sys.data, sys.data) := by
  simp [serve, System.writePayload, resetPayload]

/-- One more copy. -/
theorem AtByte.memory_next {n : Nat} (h : AtByte r m s n) (hd : s.1.data = s.2 s.1.rAddr) :
    Function.update s.2 s.1.wAddr s.1.data = forward r.src r.dst m (n + 1) := by
  rw [forward, hd, h.memory, h.progress.rAddr, h.progress.wAddr]
  rfl

/-- The memory answers the read. -/
theorem copyInv_read (ndebug : Bool) (h : CopyInv r m s tr) (hl : s.1.loop = .reading) :
    ∃ s' o, busStep ndebug s .answer = some (s', o) ∧ CopyInv r m s' (tr ++ o) ∧
      s'.1.loop = .writing ∧ o.countP (Output.isAccess .write) = 1 := by
  have hcopy := h.copying
  simp only [Copying, hl] at hcopy
  obtain ⟨n, hat, hreads, hwrites⟩ := hcopy
  have hstep : busStep ndebug s .answer = some
      (({ s.1 with data := s.2 s.1.rAddr, loop := .writing }, s.2),
        [.got (s.2 s.1.rAddr), .access { s.1 with data := s.2 s.1.rAddr }.writePayload]) := by
    simp only [busStep, hl, serve_readPayload, step_readReturn ndebug h.aborted hl]
    rfl
  refine ⟨_, _, hstep, ⟨h.aborted, h.registers, ?_⟩, rfl, rfl⟩
  rw [List.countP_append, List.countP_append, hreads, hwrites]
  exact ⟨n, hat.frame rfl ⟨rfl, rfl, rfl⟩, rfl, rfl, rfl⟩

/-- The memory answers the write. -/
theorem copyInv_write (ndebug : Bool) (h : CopyInv r m s tr) (hl : s.1.loop = .writing) :
    ∃ s' o, busStep ndebug s .answer = some (s', o) ∧ CopyInv r m s' (tr ++ o) ∧
      (s'.1.loop = .reading ∨ s'.1.loop = .waitStart) ∧
        o.countP (Output.isAccess .write) = 0 := by
  have hcopy := h.copying
  simp only [Copying, hl] at hcopy
  obtain ⟨n, hat, hreads, hwrites, hd⟩ := hcopy
  have hmem := hat.memory_next hd
  have hstep : busStep ndebug s .answer = some
      (((loopHead s.1.nextByte).1, forward r.src r.dst m (n + 1)), (loopHead s.1.nextByte).2) := by
    simp only [busStep, hl, serve_writePayload, step_writeReturn ndebug h.aborted hl, hmem]
    rfl
  refine ⟨_, _, hstep, ?_⟩
  have htest : s.1.nextByte.i.toUInt32 < s.1.nextByte.registers.dataLen ↔
      n + 1 < r.dataLen.toNat := by
    rw [hat.progress.test_iff, ← h.registers]
    rfl
  by_cases hlt : s.1.nextByte.i.toUInt32 < s.1.nextByte.registers.dataLen
  · have hnext := hat.progress.next (htest.1 hlt)
    rw [loopHead_of_lt hlt]
    refine ⟨⟨h.aborted, h.registers, ?_⟩, Or.inl rfl, rfl⟩
    rw [List.countP_append, List.countP_append, hreads, hwrites]
    exact ⟨n + 1, ⟨hnext.frame ⟨rfl, rfl, rfl⟩ rfl rfl, rfl⟩, rfl, rfl⟩
  · have hlast : r.dataLen.toNat = n + 1 := by
      have hn := hat.progress.lt
      have hnot := mt htest.2 hlt
      simp only at hn
      omega
    rw [loopHead_of_not_lt hlt]
    refine ⟨⟨h.aborted, h.registers, ?_⟩, Or.inr rfl, rfl⟩
    rw [List.countP_append, List.countP_append, hreads, hwrites]
    exact ⟨by rw [hlast], hlast.symm, hlast.symm⟩

/-- The thread runs with the edge seen. -/
theorem copyInv_granted (ndebug : Bool) (h : CopyInv r m s tr) (hl : s.1.loop = .granted) :
    ∃ s' o, busStep ndebug s (.own .runLoop) = some (s', o) ∧ CopyInv r m s' (tr ++ o) ∧
      (s'.1.loop = .reading ∨ s'.1.loop = .waitStart) ∧
        o.countP (Output.isAccess .write) = 0 := by
  have hcopy := h.copying
  simp only [Copying, hl] at hcopy
  obtain ⟨hmem, hreads, hwrites⟩ := hcopy
  obtain rfl := h.registers
  have hstep : busStep ndebug s (.own .runLoop) = some (((loopHead s.1.beginCopy).1, s.2),
      .granted s.1.registers :: (loopHead s.1.beginCopy).2) := by
    simp only [busStep, step_runLoop ndebug h.aborted, runLoop, hl]
    rfl
  refine ⟨_, _, hstep, ?_⟩
  by_cases hlt : s.1.beginCopy.i.toUInt32 < s.1.beginCopy.registers.dataLen
  · rw [loopHead_of_lt hlt]
    refine ⟨⟨h.aborted, rfl, ?_⟩, Or.inl rfl, rfl⟩
    rw [List.countP_append, List.countP_append, hreads, hwrites]
    exact ⟨0, ⟨progress_beginCopy hlt [], hmem⟩, rfl, rfl⟩
  · have hzero : s.1.registers.dataLen.toNat = 0 :=
      Nat.eq_zero_of_not_pos fun hpos => hlt (UInt32.lt_iff_toNat_lt.2 hpos)
    rw [loopHead_of_not_lt hlt]
    refine ⟨⟨h.aborted, rfl, ?_⟩, Or.inr rfl, rfl⟩
    rw [List.countP_append, List.countP_append, hreads, hwrites]
    exact ⟨by rw [hzero]; exact hmem, hzero.symm, hzero.symm⟩

/-- Nothing of the transfer changes. -/
theorem CopyInv.stay (h : CopyInv r m s tr) (hm : s'.2 = s.2) (hl : s'.1.loop = s.1.loop)
    (hlocals : s'.1.rAddr = s.1.rAddr ∧ s'.1.wAddr = s.1.wAddr ∧ s'.1.i = s.1.i)
    (hdata : s'.1.data = s.1.data) (hr : s'.1.registers = s.1.registers)
    (ha : s'.1.aborted = s.1.aborted) (ho : ∀ c, o.countP (Output.isAccess c) = 0) :
    CopyInv r m s' (tr ++ o) := by
  refine ⟨by rw [ha, h.aborted], by rw [hr, h.registers], ?_⟩
  have hcopy := h.copying
  rw [List.countP_append, List.countP_append, ho, ho, Nat.add_zero, Nat.add_zero]
  unfold Copying at hcopy ⊢
  rw [hl]
  split at hcopy
  · exact ⟨hm.trans hcopy.1, hcopy.2⟩
  · obtain ⟨n, hat, hcounts⟩ := hcopy
    exact ⟨n, hat.frame hm hlocals, hcounts⟩
  · obtain ⟨n, hat, hreads, hwrites, hd⟩ := hcopy
    exact ⟨n, hat.frame hm hlocals, hreads, hwrites, by rw [hdata, hd, hm, hlocals.1]⟩
  · exact ⟨hm.trans hcopy.1, hcopy.2⟩
  · exact hcopy

theorem CopyInv.loop (h : CopyInv r m s tr) :
    s.1.loop = .granted ∨ s.1.loop = .reading ∨ s.1.loop = .writing ∨ s.1.loop = .waitStart := by
  have hcopy := h.copying
  unfold Copying at hcopy
  split at hcopy
  · rename_i hl; exact Or.inl hl
  · rename_i hl; exact Or.inr (Or.inl hl)
  · rename_i hl; exact Or.inr (Or.inr (Or.inl hl))
  · rename_i hl; exact Or.inr (Or.inr (Or.inr hl))
  · exact hcopy.elim

theorem copyInv_step {e : BusEvent} (h : CopyInv r m s tr) (he : e.Undisturbed)
    (hs : busStep ndebug s e = some (s', o)) : CopyInv r m s' (tr ++ o) := by
  cases e with
  | answer =>
    rcases h.loop with hl | hl | hl | hl
    · simp [busStep, hl] at hs
    · obtain ⟨s₁, o₁, hstep, hinv, -⟩ := copyInv_read ndebug h hl
      rw [hs] at hstep
      cases hstep
      exact hinv
    · obtain ⟨s₁, o₁, hstep, hinv, -⟩ := copyInv_write ndebug h hl
      rw [hs] at hstep
      cases hstep
      exact hinv
    · simp [busStep, hl] at hs
  | own e =>
    cases e with
    | request req => exact he.elim
    | readReturn status byte => cases hs
    | writeReturn status => cases hs
    | busFree level =>
      obtain ⟨⟨sys₁, o₁⟩, hstep, heq⟩ := Option.map_eq_some_iff.1 hs
      obtain ⟨-, hst⟩ := stepped hstep
      cases hst
      cases heq
      exact h.stay rfl rfl ⟨rfl, rfl, rfl⟩ rfl rfl rfl fun _ => rfl
    | runLoop =>
      rcases h.loop with hl | hl | hl | hl
      · obtain ⟨s₁, o₁, hstep, hinv, -⟩ := copyInv_granted ndebug h hl
        rw [hs] at hstep
        cases hstep
        exact hinv
      all_goals
        simp [busStep, step, runLoop, h.aborted, hl] at hs
    | delta =>
      obtain ⟨⟨sys₁, o₁⟩, hstep, heq⟩ := Option.map_eq_some_iff.1 hs
      obtain ⟨-, hst⟩ := stepped hstep
      cases hst
      cases heq
      refine h.stay rfl (if_neg ?_) ⟨rfl, rfl, rfl⟩ rfl rfl rfl ?_
      · rintro ⟨-, hg⟩
        rcases h.loop with hl | hl | hl | hl <;> rw [hl] at hg <;> cases hg
      · intro c
        split_ifs <;> rfl

theorem CopyInv.reading (h : CopyInv r m s tr) (hl : s.1.loop = .reading) :
    tr.countP (Output.isAccess .write) < r.dataLen.toNat := by
  have hcopy := h.copying
  simp only [Copying, hl] at hcopy
  obtain ⟨n, hat, -, hwrites⟩ := hcopy
  rw [hwrites]
  exact hat.progress.lt

/-- A transfer that has ended. -/
theorem CopyInv.ended (h : CopyInv r m s tr) (hl : s.1.loop = .waitStart) :
    s.2 = forward r.src r.dst m r.dataLen.toNat ∧
      tr.countP (Output.isAccess .read) = r.dataLen.toNat ∧
      tr.countP (Output.isAccess .write) = r.dataLen.toNat := by
  have hcopy := h.copying
  simp only [Copying, hl] at hcopy
  exact hcopy

/-- One round of the loop: the memory answers the read and the write of a byte. -/
theorem copy_byte (ndebug : Bool) (garbage : Registers) (data : UInt8) (m₀ : Memory)
    (h : CopyInv r m s tr) (hl : s.1.loop = .reading) :
    ∃ s' o, (onBus ndebug garbage data m₀).runFrom s [.answer, .answer] = some (s', o) ∧
      CopyInv r m s' (tr ++ o) ∧ (s'.1.loop = .reading ∨ s'.1.loop = .waitStart) ∧
      (tr ++ o).countP (Output.isAccess .write) = tr.countP (Output.isAccess .write) + 1 := by
  obtain ⟨s₁, o₁, hs₁, h₁, hl₁, hcount₁⟩ := copyInv_read ndebug h hl
  obtain ⟨s₂, o₂, hs₂, h₂, hl₂, hcount₂⟩ := copyInv_write ndebug h₁ hl₁
  have hrun : (onBus ndebug garbage data m₀).runFrom s [.answer, .answer] =
      some (s₂, o₁ ++ (o₂ ++ [])) := Machine.runFrom_cons hs₁ (Machine.runFrom_cons hs₂ rfl)
  rw [List.append_nil] at hrun
  refine ⟨s₂, _, hrun, ?_, hl₂, ?_⟩
  · rwa [← List.append_assoc]
  · rw [List.countP_append, List.countP_append, hcount₁, hcount₂]

/-- The loop comes to every byte of the transfer, by induction on how many there are before it. -/
theorem copy_reaches (ndebug : Bool) (garbage : Registers) (data : UInt8) (m₀ : Memory)
    (h : CopyInv r m s tr) (hl : s.1.loop = .reading) (n : Nat)
    (hn : tr.countP (Output.isAccess .write) + n < r.dataLen.toNat) :
    ∃ es s' o, (onBus ndebug garbage data m₀).runFrom s es = some (s', o) ∧
      (∀ e ∈ es, e = .answer) ∧ CopyInv r m s' (tr ++ o) ∧ s'.1.loop = .reading ∧
      (tr ++ o).countP (Output.isAccess .write) = tr.countP (Output.isAccess .write) + n := by
  induction n with
  | zero =>
    refine ⟨[], s, [], rfl, fun _ he => absurd he List.not_mem_nil, ?_, hl, ?_⟩
    · rwa [List.append_nil]
    · rw [List.append_nil, Nat.add_zero]
  | succ n ih =>
    obtain ⟨es, s₁, o₁, hrun₁, hes, h₁, hl₁, hcount₁⟩ := ih (by omega)
    obtain ⟨s₂, o₂, hrun₂, h₂, hl₂, hcount₂⟩ := copy_byte ndebug garbage data m₀ h₁ hl₁
    have hnext : s₂.1.loop = .reading := by
      refine hl₂.resolve_right fun hend => ?_
      have hall := (h₂.ended hend).2.2
      omega
    refine ⟨es ++ [.answer, .answer], s₂, o₁ ++ o₂, Machine.runFrom_append hrun₁ hrun₂, ?_, ?_,
      hnext, ?_⟩
    · exact List.forall_mem_append.2 ⟨hes, by simp⟩
    · rwa [← List.append_assoc]
    · rw [← List.append_assoc]
      omega

/-- The loop comes to its end, behind the last byte. -/
theorem copy_ends (ndebug : Bool) (garbage : Registers) (data : UInt8) (m₀ : Memory)
    (h : CopyInv r m s tr) (hl : s.1.loop = .reading) :
    ∃ es s' o, (onBus ndebug garbage data m₀).runFrom s es = some (s', o) ∧
      (∀ e ∈ es, e = .answer) ∧ s'.1.loop = .waitStart := by
  have hlt := h.reading hl
  obtain ⟨es, s₁, o₁, hrun₁, hes, h₁, hl₁, hcount₁⟩ := copy_reaches ndebug garbage data m₀ h hl
    (r.dataLen.toNat - 1 - tr.countP (Output.isAccess .write)) (by omega)
  obtain ⟨s₂, o₂, hrun₂, h₂, hl₂, hcount₂⟩ := copy_byte ndebug garbage data m₀ h₁ hl₁
  have hend : s₂.1.loop = .waitStart := by
    refine hl₂.resolve_left fun hread => ?_
    have hmore := h₂.reading hread
    omega
  refine ⟨es ++ [.answer, .answer], s₂, _, Machine.runFrom_append hrun₁ hrun₂, ?_, hend⟩
  exact List.forall_mem_append.2 ⟨hes, by simp⟩

theorem copyInv_run {garbage : Registers} {data : UInt8} {m₀ : Memory} {es : List BusEvent}
    (h : CopyInv r m s []) (hes : ∀ e ∈ es, e.Undisturbed)
    (hrun : (onBus ndebug garbage data m₀).runFrom s es = some (s', tr)) : CopyInv r m s' tr :=
  Machine.inv_runFrom (M := onBus ndebug garbage data m₀) (G := fun _ e => e.Undisturbed)
    (I := fun _ s tr => CopyInv r m s tr) (fun _ _ _ _ _ _ hI he hs => copyInv_step hI he hs)
    [] h (Machine.allSteps_of_forall s fun e he _ => hes e he) hrun

/-- Left to itself, a transfer ends. -/
theorem transfer_ends (ndebug : Bool) (garbage : Registers) (data : UInt8) (m₀ : Memory)
    (h : CopyInv r m s []) (hl : s.1.loop = .granted) :
    ∃ es s' tr, (onBus ndebug garbage data m₀).runFrom s es = some (s', tr) ∧
      (∀ e ∈ es, e.Undisturbed) ∧ s'.1.loop = .waitStart := by
  obtain ⟨s₁, o₁, hs₁, h₁, hl₁, -⟩ := copyInv_granted ndebug h hl
  rcases hl₁ with hl₁ | hl₁
  · obtain ⟨es, s', tr, hrun, hes, hend⟩ := copy_ends ndebug garbage data m₀ h₁ hl₁
    refine ⟨.own .runLoop :: es, s', o₁ ++ tr, Machine.runFrom_cons hs₁ hrun, ?_, hend⟩
    refine List.forall_mem_cons.2 ⟨trivial, fun e he => ?_⟩
    rw [hes e he]
    trivial
  · exact ⟨[.own .runLoop], s₁, o₁ ++ [], Machine.runFrom_cons hs₁ rfl,
      by simp [BusEvent.Undisturbed], hl₁⟩

theorem copyInv_init {sys : System} (hl : sys.loop = .granted) (ha : sys.aborted = false) :
    CopyInv sys.registers m (sys, m) [] := by
  refine ⟨ha, rfl, ?_⟩
  simp [Copying, hl]

end Copy

/-- **A transfer copies.** From any state in which the thread has seen the edge: left to itself, the
transfer ends; and whenever it has ended, without a register write since then, the memory is
copied, with one read and one write for each byte. -/
theorem copy_correct {ndebug : Bool} {garbage : Registers} {data : UInt8} {m₀ m : Memory}
    {sys : System} (hl : sys.loop = .granted) (ha : sys.aborted = false) :
    (∃ es s' tr, (onBus ndebug garbage data m₀).runFrom (sys, m) es = some (s', tr) ∧
      (∀ e ∈ es, e.Undisturbed) ∧ s'.1.loop = .waitStart) ∧
    ∀ es s' tr, (onBus ndebug garbage data m₀).runFrom (sys, m) es = some (s', tr) →
      (∀ e ∈ es, e.Undisturbed) → s'.1.loop = .waitStart →
        Copied sys.registers m s'.2 ∧
          tr.countP (Output.isAccess .read) = sys.registers.dataLen.toNat ∧
          tr.countP (Output.isAccess .write) = sys.registers.dataLen.toNat := by
  have h := copyInv_init (m := m) hl ha
  refine ⟨transfer_ends ndebug garbage data m₀ h hl, ?_⟩
  intro es s' tr hrun hes hend
  obtain ⟨hmem, hcounts⟩ := (copyInv_run h hes hrun).ended hend
  exact ⟨by rw [hmem]; exact copied_forward _ _, hcounts⟩

/-- Three bytes, from the last address but one to the last address: the destination starts one byte
inside the source, and both go around the end of the address space. -/
def overlapping : System :=
  { (dmac false ⟨0xfffffffe, 0xffffffff, 3⟩ 0).init with loop := .granted }

theorem copy_correct_overlapping :
    ∃ s' tr, (onBus false ⟨0, 0, 0⟩ 0 fun _ => 0).runFrom
        (overlapping, fun a => if a = 0xfffffffe then 7 else 0)
        (.own .runLoop :: List.replicate 6 .answer) = some (s', tr) ∧
      Copied overlapping.registers (fun a => if a = 0xfffffffe then 7 else 0) s'.2 ∧
      s'.2 1 = 7 ∧ tr.countP (Output.isAccess .write) = 3 := by
  have hrun : (onBus false ⟨0, 0, 0⟩ 0 fun _ => 0).runFrom
      (overlapping, fun a => if a = 0xfffffffe then 7 else 0)
      (.own .runLoop :: List.replicate 6 .answer) = some (_, _) := rfl
  obtain ⟨hcopied, -, hwrites⟩ :=
    (copy_correct rfl rfl).2 _ _ _ hrun (by simp [BusEvent.Undisturbed]) rfl
  exact ⟨_, _, hrun, hcopied, hcopied.periodic (by decide) (by decide) 2 (by decide), hwrites⟩

end RenodeSystemC.Dmac
