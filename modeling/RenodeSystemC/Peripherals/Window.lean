import RenodeSystemC.Peripherals.Peripheral

/-!
# The windows of the target sockets

`b_transport` serves two windows of the same object: all of `PeripheralRegisterInterface` through
`register_if`, and the memory array at its end through `memory_if`. It adds the address to the start
of the window and copies, whatever the sum is; the platforms in front of it map much larger ranges.

**Theorem (`closed_iff`).** A transaction stays in its window, or is answered with an error and
changes nothing, if and only if it does not reach outside or is refused for another reason.
-/

namespace RenodeSystemC.Peripherals

/-! ## The windows -/

def TargetIndex.windowSize : TargetIndex → Nat
  | .regif => registerInterfaceSize
  | .memory => memorySize

/-- The byte of the object belongs to the window. -/
def TargetIndex.InWindow (id : TargetIndex) (i : Nat) : Prop :=
  id.base ≤ i ∧ i < id.base + id.windowSize

/-- The transaction asks for a byte behind the end of its window. -/
def ReachesOutside (id : TargetIndex) (p : Payload) : Prop :=
  p.command ≠ .ignore ∧ ∃ i < p.data.length, id.windowSize ≤ p.address.toNat + i

theorem reachesOutside_iff (id : TargetIndex) (p : Payload) :
    ReachesOutside id p ↔
      p.command ≠ .ignore ∧ 0 < p.data.length ∧
        id.windowSize < p.address.toNat + p.data.length := by
  apply and_congr_right
  intro _
  constructor
  · intro hreach
    obtain ⟨i, hi, hout⟩ := hreach
    omega
  · intro hlen
    obtain ⟨hpos, hout⟩ := hlen
    exact ⟨p.data.length - 1, by omega, by omega⟩

instance (id : TargetIndex) (p : Payload) : Decidable (ReachesOutside id p) :=
  decidable_of_iff _ (reachesOutside_iff id p).symm

/-- The transaction keeps to its window: what it touches lies in it, and if it asks for more it is
answered with an error and changes nothing. -/
structure Closed (id : TargetIndex) (s : Peripheral) (p : Payload) (out : Outcome Peripheral) :
    Prop where
  inside : ∀ i, out.touched.start ≤ i → i < out.touched.start + out.touched.len → id.InWindow i
  rejected : ReachesOutside id p → out.payload.responseStatus ≠ .ok ∧ out.state = s

/-! ## What is touched -/

/-- A range that does not reach outside does not go around the address space. -/
theorem inWindow_of_not_reachesOutside {id : TargetIndex} {p : Payload} (hc : p.command ≠ .ignore)
    (h : ¬ ReachesOutside id p) {i : Nat} (hle : id.offset p.address ≤ i)
    (hlt : i < id.offset p.address + p.data.length) : id.InWindow i := by
  rw [reachesOutside_iff] at h
  have hend : p.address.toNat + p.data.length ≤ id.windowSize := by
    by_contra hout
    exact h ⟨hc, by omega, by omega⟩
  have hsize : id.base + id.windowSize < 2 ^ 64 := by cases id <;> decide
  rw [id.offset_of_lt (by omega)] at hle hlt
  exact ⟨by omega, by omega⟩

theorem closed_of_untouched {id : TargetIndex} {s s' : Peripheral} {p q : Payload}
    (h : ReachesOutside id p → q.responseStatus ≠ .ok ∧ s' = s) :
    Closed id s p ⟨s', q, ⟨0, 0⟩⟩ := by
  refine ⟨?_, h⟩
  intro i _ hlt
  exact absurd hlt (Nat.not_lt_zero i)

/-- A transaction that is carried out keeps to its window if it does not reach outside, and only
then. -/
theorem closed_iff_of_ok {id : TargetIndex} {s s' : Peripheral} {p q : Payload}
    (hc : p.command ≠ .ignore) (hq : q.responseStatus = .ok) :
    Closed id s p ⟨s', q, ⟨id.offset p.address, p.data.length⟩⟩ ↔ ¬ ReachesOutside id p := by
  constructor
  · intro hclosed hout
    exact (hclosed.rejected hout).1 hq
  · intro hin
    refine ⟨?_, fun hout => absurd hout hin⟩
    intro i hle hlt
    exact inWindow_of_not_reachesOutside hc hin hle hlt

/-- **A transaction keeps to its window exactly when it does not reach outside, or is refused
anyway.** -/
theorem closed_iff (id : TargetIndex) (now delay : ScTime) (reading : TimerReading) (s : Peripheral)
    (p : Payload) :
    Closed id s p (bTransport id now delay reading s p).1 ↔ (ReachesOutside id p → Refused p) := by
  have htrans := transported id now delay reading s p
  generalize (bTransport id now delay reading s p).1 = out at htrans
  cases htrans with
  | refused hp hs =>
    refine iff_of_true (closed_of_untouched ?_) fun _ => hp
    exact fun _ => ⟨hs, rfl⟩
  | read hp hc hq =>
    rw [closed_iff_of_ok (by rw [hc]; decide) hq, imp_iff_not hp]
  | writeRegisters hp hc | writeMemory hp hc =>
    rw [closed_iff_of_ok (by rw [hc]; decide) rfl, imp_iff_not hp]
  | ignore hp hc =>
    have hin : ¬ ReachesOutside id p := fun hout => hout.1 hc
    exact iff_of_true (closed_of_untouched fun hout => absurd hout hin) fun hout => absurd hout hin

/-! ## The platform in front -/

/-- The address decoding table of the original CPU. -/
def peripheralRanges : List (UInt64 × UInt64) :=
  [(0x0000, 0x0FFF), (0x1000, 0x1FFF), (0x2000, 0x2FFF)]

/-- The target and the address that `systembus_transfer` passes a transfer on with. An address that
is in no range goes to the last target as it is. -/
def systembusTransfer (address : UInt64) : Nat × UInt64 :=
  match peripheralRanges.zipIdx.find? fun r => r.1.1 ≤ address ∧ address ≤ r.1.2 with
  | some (range, targetIndex) => (targetIndex, address - range.1)
  | none => (peripheralRanges.length - 1, address)

/-- A byte of the CPU's, at the address it arrives with. -/
def cpuByte (command : Command) (address : UInt64) : Payload :=
  ⟨command, (systembusTransfer address).2, [1], .incomplete, by simp, 1, false⟩

/-- **The CPU's map lets accesses out of the registers.** -/
theorem mapped_not_closed :
    ¬ ∀ (id : TargetIndex) (now delay : ScTime) (reading : TimerReading) (s : Peripheral)
      (p : Payload), Closed id s p (bTransport id now delay reading s p).1 := by
  intro h
  have hclosed := (closed_iff .regif 0 0 ⟨0, 0⟩ (.init fun _ => 0) (cpuByte .write 0x1FFF)).1
    (h _ _ _ _ _ _)
  exact absurd (hclosed (by decide)) (by decide)

end RenodeSystemC.Peripherals
