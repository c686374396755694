import RenodeSystemC.Lib.Tlm

/-!
# The control plane shared by the CPU signal examples

`riscv-signals` and `hmp-signals` lay out their control registers alike and route accesses with
the same `bus`. This file has the offsets, the range-overlap test of `apply_control_write`, and
`bus::b_transport`, together with the arithmetic that turns the 64-bit tests of the source into
facts about exact integers.
-/

namespace RenodeSystemC.Signals

/-! ## Register offsets -/

def numInterrupts : Nat := 16
def resetOffset : Nat := 0x100
def nmiOffset : Nat := 0x104
def bootAddressOffset : Nat := 0x108
def clockPeriodOffset : Nat := 0x110
def systemBusTriggerOffset : Nat := 0x114
def cpuWaitOffset : Nat := 0x118
def systemResetRequestOffset : Nat := 0x11c

/-- `CONTROL_SIZE` and `MEMORY_SIZE`. -/
def bankSize : Nat := 0x1000

/-! ## Overlap -/

/-- The `overlaps` lambda of `apply_control_write`, in 64-bit arithmetic. -/
def overlaps (offset : UInt64) (length : UInt32) (start size : Nat) : Bool :=
  offset < UInt64.ofNat start + UInt64.ofNat size &&
    UInt64.ofNat start < offset + length.toUInt64

/-- Inside a bank nothing wraps, and the test is the one on exact integers. -/
theorem overlaps_iff {offset : UInt64} {length : UInt32} {start size : Nat}
    (hr : offset.toNat + length.toNat ≤ bankSize) (hs : start + size ≤ bankSize) :
    overlaps offset length start size = true ↔
      offset.toNat < start + size ∧ start < offset.toNat + length.toNat := by
  simp only [bankSize] at hr hs
  simp only [overlaps, Bool.and_eq_true, decide_eq_true_eq, UInt64.lt_iff_toNat_lt,
    UInt64.toNat_add, UInt64.toNat_ofNat', UInt32.toNat_toUInt64]
  omega

/-- A write of at least one byte overlaps a register exactly when it addresses one of the
register's bytes. -/
theorem overlaps_iff_exists {offset : UInt64} {length : UInt32} {start size : Nat}
    (hr : offset.toNat + length.toNat ≤ bankSize) (hs : start + size ≤ bankSize)
    (hl : 0 < length.toNat) (hz : 0 < size) :
    overlaps offset length start size = true ↔
      ∃ i, (offset.toNat ≤ i ∧ i < offset.toNat + length.toNat) ∧ start ≤ i ∧ i < start + size := by
  rw [overlaps_iff hr hs]
  constructor
  · intro h
    exact ⟨max offset.toNat start, by omega, by omega⟩
  · rintro ⟨i, hi, hi'⟩
    omega

/-- **Frame.** A write that does not overlap a register leaves its bytes alone. -/
theorem store_of_not_overlaps {b : Bytes} {offset : UInt64} {src : List UInt8} {length : UInt32}
    {start size i : Nat} (hlen : length.toNat = src.length)
    (hr : offset.toNat + src.length ≤ bankSize) (hs : start + size ≤ bankSize)
    (h : ¬ overlaps offset length start size = true) (hi : start ≤ i) (hi' : i < start + size) :
    b.store offset.toNat src i = b i := by
  rw [overlaps_iff (by omega) hs] at h
  exact Bytes.store_of_notMem (by omega)

/-! ## Bounds checks -/

/-- The two-sided bounds check of `hmp_signals`: subtracting first, it never wraps. -/
theorem subtracting_check_iff (offset : UInt64) (length : UInt32) :
    (0x1000 < offset ∨ 0x1000 - offset < length.toUInt64) ↔
      ¬ offset.toNat + length.toNat ≤ bankSize := by
  have hl := UInt32.toNat_lt length
  by_cases ho : offset.toNat ≤ 0x1000
  · have hsub : (0x1000 - offset).toNat = 0x1000 - offset.toNat :=
      UInt64.toNat_sub_of_le _ _ (UInt64.le_iff_toNat_le.2 (by simpa using ho))
    simp only [UInt64.lt_iff_toNat_lt, hsub, UInt32.toNat_toUInt64, bankSize,
      show (0x1000 : UInt64).toNat = 0x1000 from rfl]
    omega
  · simp only [UInt64.lt_iff_toNat_lt, bankSize, show (0x1000 : UInt64).toNat = 0x1000 from rfl]
    omega

/-- The adding bounds check of `riscv_signals`: the 64-bit sum may wrap. -/
theorem adding_check_iff (offset : UInt64) (length : UInt32) :
    0x1000 < offset + length.toUInt64 ↔ bankSize < (offset.toNat + length.toNat) % 2 ^ 64 := by
  simp only [UInt64.lt_iff_toNat_lt, UInt64.toNat_add, UInt32.toNat_toUInt64, bankSize,
    show (0x1000 : UInt64).toNat = 0x1000 from rfl]

/-! ## The bus -/

/-- `bus::b_transport`: addresses below `0x1000` go to the control socket unchanged, all others to
the memory socket, rebased for the duration of the call. -/
def busTransport {σ : Type*} (control memory : Transport σ) : Transport σ := fun s p =>
  if p.address < 0x1000 then
    control s p
  else
    let r := memory s (p.setAddress (p.address - 0x1000))
    { r with payload := r.payload.setAddress p.address }

theorem lt_bankSize_iff {a : UInt64} : a < 0x1000 ↔ a.toNat < bankSize := by
  simp only [UInt64.lt_iff_toNat_lt, bankSize, show (0x1000 : UInt64).toNat = 0x1000 from rfl]

theorem toNat_sub_bankSize {a : UInt64} (h : ¬ a < 0x1000) :
    (a - 0x1000).toNat = a.toNat - bankSize := by
  have hle : (0x1000 : UInt64) ≤ a := UInt64.not_lt.1 h
  rw [UInt64.toNat_sub_of_le _ _ hle]
  rfl

/-- The exact-integer range `[address, address + length)` of the payload lies wholly in the
control bank `[0, 0x1000)` or wholly in the memory bank `[0x1000, 0x2000)`. -/
def InBank (p : Payload) : Prop :=
  p.address.toNat + p.data.length ≤ bankSize ∨
    bankSize ≤ p.address.toNat ∧ p.address.toNat + p.data.length ≤ 2 * bankSize

instance (p : Payload) : Decidable (InBank p) :=
  inferInstanceAs (Decidable (p.address.toNat + p.data.length ≤ bankSize ∨
    bankSize ≤ p.address.toNat ∧ p.address.toNat + p.data.length ≤ 2 * bankSize))

end RenodeSystemC.Signals
