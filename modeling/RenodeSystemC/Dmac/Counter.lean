import RenodeSystemC.Dmac.Copy

/-!
# The counter of the copy loop

`for (int i = 0; i < data_len; ++i)`: the comparison converts the signed counter to unsigned, so the
loop goes on for every length the register can hold, but the increment is signed, and past `INT_MAX`
it is undefined.

**Theorem (`counterDefined_iff`).** A transfer of `data_len` bytes has `data_len` iterations and no
increment that overflows if and only if `data_len < 2 ^ 31`.
-/

namespace RenodeSystemC.Dmac

/-- The arithmetic of the counter is defined in the transfer that starts in the state `s`, where the
thread has seen the edge, and the transfer has as many iterations as it should. -/
structure CounterDefined (M : Machine (System × Memory) BusEvent Output) (s : System × Memory) :
    Prop where
  /-- `++i`, which follows the write of a byte, stays in the range of `int`. -/
  inRange : ∀ es s' tr, M.runFrom s es = some (s', tr) → (∀ e ∈ es, e.Undisturbed) →
    s'.1.loop = .writing → s'.1.i.toInt + 1 ≤ 2 ^ 31 - 1
  ends : ∃ es s' tr, M.runFrom s es = some (s', tr) ∧ (∀ e ∈ es, e.Undisturbed) ∧
    s'.1.loop = .waitStart
  /-- Whenever the transfer has ended, the body of the loop has run once for each byte. -/
  iterations : ∀ es s' tr, M.runFrom s es = some (s', tr) → (∀ e ∈ es, e.Undisturbed) →
    s'.1.loop = .waitStart → tr.countP (Output.isAccess .read) = s.1.registers.dataLen.toNat

section Counter

variable {r : Registers} {m : Memory} {s : System × Memory} {tr : List Output}

/-- Below `2 ^ 31` the signed counter is what the comparison takes it for. -/
theorem toInt_counter {i : Int32} (h : i.toUInt32.toNat < 2 ^ 31) :
    i.toInt = i.toUInt32.toNat := by
  apply BitVec.toInt_eq_toNat_of_lt
  rw [Int32.toNat_toBitVec]
  omega

/-- The counter, in the write of a byte, is the number of that byte. -/
theorem CopyInv.counter (h : CopyInv r m s tr) (hl : s.1.loop = .writing) :
    s.1.i.toUInt32.toNat + 1 = tr.countP (Output.isAccess .write) ∧
      s.1.i.toUInt32.toNat < r.dataLen.toNat := by
  have hcopy := h.copying
  simp only [Copying, hl] at hcopy
  obtain ⟨n, hat, -, hwrites, -⟩ := hcopy
  rw [hwrites, hat.progress.counter]
  exact ⟨rfl, hat.progress.lt⟩

/-- **The loop comes to the write of every byte.** -/
theorem writes_byte (ndebug : Bool) (garbage : Registers) (data : UInt8) (m₀ : Memory)
    (h : CopyInv r m s []) (hl : s.1.loop = .granted) {n : Nat} (hn : n < r.dataLen.toNat) :
    ∃ es s' tr, (onBus ndebug garbage data m₀).runFrom s es = some (s', tr) ∧
      (∀ e ∈ es, e.Undisturbed) ∧ s'.1.loop = .writing ∧ s'.1.i.toUInt32.toNat = n := by
  obtain ⟨s₁, o₁, hs₁, h₁, hl₁, hcount₁⟩ := copyInv_granted ndebug h hl
  have hread : s₁.1.loop = .reading := by
    refine hl₁.resolve_right fun hend => ?_
    have hall := (h₁.ended hend).2.2
    rw [List.nil_append] at hall
    omega
  rw [List.nil_append] at h₁
  obtain ⟨es, s₂, o₂, hrun, hes, h₂, hl₂, hcount₂⟩ :=
    copy_reaches ndebug garbage data m₀ h₁ hread n (by omega)
  obtain ⟨s₃, o₃, hs₃, h₃, hl₃, hcount₃⟩ := copyInv_read ndebug h₂ hl₂
  have hlast : (onBus ndebug garbage data m₀).runFrom s₂ [.answer] = some (s₃, o₃ ++ []) :=
    Machine.runFrom_cons hs₃ rfl
  refine ⟨.own .runLoop :: (es ++ [.answer]), s₃, _,
    Machine.runFrom_cons hs₁ (Machine.runFrom_append hrun hlast), ?_, hl₃, ?_⟩
  · refine List.forall_mem_cons.2
      ⟨trivial, List.forall_mem_append.2 ⟨?_, by simp [BusEvent.Undisturbed]⟩⟩
    intro e he
    rw [hes e he]
    trivial
  · have hcounter := (h₃.counter hl₃).1
    rw [List.countP_append] at hcounter
    omega

end Counter

/-- **The counter is defined exactly for lengths below `2 ^ 31`.** -/
theorem counterDefined_iff {ndebug : Bool} {garbage : Registers} {data : UInt8} {m₀ m : Memory}
    {sys : System} (hl : sys.loop = .granted) (ha : sys.aborted = false) :
    CounterDefined (onBus ndebug garbage data m₀) (sys, m) ↔
      sys.registers.dataLen.toNat < 2 ^ 31 := by
  have h := copyInv_init (m := m) hl ha
  constructor
  · intro hdef
    by_contra hge
    obtain ⟨es, s', tr, hrun, hes, hwriting, hi⟩ :=
      writes_byte ndebug garbage data m₀ h hl (n := 2 ^ 31 - 1) (by omega)
    have hrange := hdef.inRange es s' tr hrun hes hwriting
    rw [toInt_counter (by omega), hi] at hrange
    omega
  · intro hlt
    refine ⟨?_, transfer_ends ndebug garbage data m₀ h hl, ?_⟩
    · intro es s' tr hrun hes hwriting
      have hbyte := ((copyInv_run h hes hrun).counter hwriting).2
      rw [toInt_counter (by omega)]
      omega
    · intro es s' tr hrun hes hend
      exact ((copyInv_run h hes hrun).ended hend).2.1

/-- The thread has seen the edge, with this value in `data_len`. -/
def grantedFor (dataLen : UInt32) : System :=
  { (dmac false ⟨0, 0x1000, dataLen⟩ 0).init with loop := .granted }

theorem counterDefined_threeBytes :
    CounterDefined (onBus false ⟨0, 0, 0⟩ 0 fun _ => 0) (grantedFor 3, fun _ => 0) :=
  (counterDefined_iff rfl rfl).2 (by decide)

/-- **The counter overflows in a transfer of `2 ^ 31` bytes.** -/
theorem counter_overflows :
    ¬ ∀ dataLen, CounterDefined (onBus false ⟨0, 0, 0⟩ 0 fun _ => 0)
      (grantedFor dataLen, fun _ => 0) := by
  intro h
  exact absurd ((counterDefined_iff rfl rfl).1 (h 0x80000000)) (by decide)

end RenodeSystemC.Dmac
