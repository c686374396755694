import Mathlib.Data.Nat.Bitwise
import RenodeSystemC.Lib.Tlm

/-!
# `SimpleBusLT`

The bus decodes the four bits above the low 28 as the port, and passes the low 28 on. It decodes the
64-bit address after a conversion to `unsigned int`, so every address of a port has aliases
above `2 ^ 32`; the ranges it hands back to the initiators (`limitRange`) name none of them.

**Theorem (`dmi_exact`).** A region that a target grants reaches the initiator as the bus addresses
below `2 ^ 32` that are routed into it, each at its place behind the pointer; and a range a
target invalidates reaches every initiator as the bus addresses routed into that range.
-/

namespace RenodeSystemC.Lt

/-! ## The decoder -/

def getPortId (address : UInt64) : UInt32 := address.toUInt32 >>> 28

/-- `portId << 28`, an `unsigned int` widened on return. -/
def getAddressOffset (portId : UInt32) : UInt64 := (portId <<< 28).toUInt64

def getAddressMask (_portId : UInt32) : UInt64 := 0xfffffff

def decode (address : UInt64) : UInt32 := getPortId address

/-- What a target's `b_transport` does to it, to the payload and to the delay. -/
abbrev BTransport (σ : Type*) := σ → Payload → ScTime → σ × Payload × ScTime

/-- `initiatorBTransport`; `none` if the assertion on the port fails. -/
def initiatorBTransport {σ : Type*} {n : Nat} (bTransport : BTransport σ) (targets : Fin n → σ)
    (trans : Payload) (t : ScTime) : Option ((Fin n → σ) × Payload × ScTime) :=
  let portId := decode trans.address
  if h : portId.toNat < n then
    let trans := trans.setAddress (trans.address &&& getAddressMask portId)
    let (target, trans, t) := bTransport (targets ⟨portId.toNat, h⟩) trans t
    some (Function.update targets ⟨portId.toNat, h⟩ target, trans, t)
  else none

/-! ## DMI -/

/-- `limitRange`: its result, and what it leaves in `low` and `high`. -/
def limitRange (portId : UInt32) (low high : UInt64) : Bool × UInt64 × UInt64 :=
  let addressOffset := getAddressOffset portId
  let addressMask := getAddressMask portId
  if addressMask < low then (false, low, high)
  else
    let low := low + addressOffset
    if addressMask < high then (true, low, addressOffset + addressMask)
    else (true, low, high + addressOffset)

/-- The parts of `tlm_dmi` that the bus reads and sets. The pointer is an index into the target's
array. -/
structure TlmDmi where
  dmiPtr : Nat
  startAddress : UInt64
  endAddress : UInt64
  deriving DecidableEq

/-- The region covers an address. -/
def TlmDmi.Covers (dmi : TlmDmi) (a : UInt64) : Prop := dmi.startAddress ≤ a ∧ a ≤ dmi.endAddress

/-- Where an address of the region lies behind the pointer. -/
def TlmDmi.index (dmi : TlmDmi) (a : UInt64) : Nat := dmi.dmiPtr + (a - dmi.startAddress).toNat

/-- `getDMIPointer`, for targets with any `get_direct_mem_ptr`; `none` if an assertion fails. What
`limitRange` returns is ignored. -/
def getDMIPointer {n : Nat} (getDirectMemPtr : Fin n → Payload → TlmDmi → Bool × TlmDmi)
    (trans : Payload) (dmiData : TlmDmi) : Option (Bool × TlmDmi) :=
  let address := trans.address
  let portId := decode address
  if h : portId.toNat < n then
    let maskedAddress := address &&& getAddressMask portId
    let trans := trans.setAddress maskedAddress
    let (result, dmiData) := getDirectMemPtr ⟨portId.toNat, h⟩ trans dmiData
    if result = true ∧ ¬ (dmiData.startAddress ≤ maskedAddress ∧ maskedAddress ≤ dmiData.endAddress)
    then none
    else
      let (_, start, stop) := limitRange portId dmiData.startAddress dmiData.endAddress
      some (result, { dmiData with startAddress := start, endAddress := stop })
  else none

/-- `invalidateDMIPointers`: the range that every initiator is told to drop, if any. -/
def invalidateDMIPointers (portId : UInt32) (startRange endRange : UInt64) :
    Option (UInt64 × UInt64) :=
  let (overlaps, startRange, endRange) := limitRange portId startRange endRange
  if overlaps then some (startRange, endRange) else none

/-! ## In exact integers -/

theorem toNat_getPortId (a : UInt64) : (getPortId a).toNat = a.toNat % 2 ^ 32 / 2 ^ 28 := by
  rw [getPortId, UInt32.toNat_shiftRight, UInt64.toNat_toUInt32, Nat.shiftRight_eq_div_pow]
  rfl

theorem getPortId_lt (a : UInt64) : getPortId a < 16 := by
  rw [UInt32.lt_iff_toNat_lt, toNat_getPortId]
  show a.toNat % 2 ^ 32 / 2 ^ 28 < 16
  omega

theorem toNat_getAddressOffset {portId : UInt32} (h : portId < 16) :
    (getAddressOffset portId).toNat = portId.toNat * 2 ^ 28 := by
  rw [UInt32.lt_iff_toNat_lt] at h
  have hlt : portId.toNat < 16 := h
  rw [getAddressOffset, UInt32.toNat_toUInt64, UInt32.toNat_shiftLeft, Nat.shiftLeft_eq]
  show portId.toNat * 2 ^ 28 % 2 ^ 32 = _
  omega

theorem toNat_and_mask (a : UInt64) (portId : UInt32) :
    (a &&& getAddressMask portId).toNat = a.toNat % 2 ^ 28 := by
  rw [getAddressMask, UInt64.toNat_and]
  exact Nat.and_two_pow_sub_one_eq_mod a.toNat 28

/-- The bus routes the address `a` to the port, at an offset in the range. -/
structure RoutedInto (portId : UInt32) (low high : UInt64) (a : UInt64) : Prop where
  port : decode a = portId
  low_le : low ≤ a &&& getAddressMask portId
  le_high : a &&& getAddressMask portId ≤ high

theorem routedInto_iff {portId : UInt32} {low high a : UInt64} :
    RoutedInto portId low high a ↔ a.toNat % 2 ^ 32 / 2 ^ 28 = portId.toNat ∧
      low.toNat ≤ a.toNat % 2 ^ 28 ∧ a.toNat % 2 ^ 28 ≤ high.toNat := by
  rw [← toNat_getPortId, ← toNat_and_mask a portId, ← UInt64.le_iff_toNat_le,
    ← UInt64.le_iff_toNat_le, UInt32.toNat_inj]
  constructor
  · intro h
    exact ⟨h.port, h.low_le, h.le_high⟩
  · intro h
    exact ⟨h.1, h.2.1, h.2.2⟩

/-! ## Ranges -/

theorem limitRange_fst {portId : UInt32} {low high : UInt64} :
    (limitRange portId low high).1 = true ↔ low.toNat < 2 ^ 28 := by
  have hmask : low ≤ getAddressMask portId ↔ low.toNat < 2 ^ 28 := by
    rw [UInt64.le_iff_toNat_le]
    show low.toNat ≤ 2 ^ 28 - 1 ↔ _
    omega
  rw [← hmask]
  unfold limitRange
  by_cases h : getAddressMask portId < low
  · simp [h, UInt64.not_le.2 h]
  · simp only [h, if_false]
    have hle := UInt64.not_lt.1 h
    split_ifs <;> simp [hle]

/-- The ends of a range that meets the window of the port. -/
theorem toNat_limitRange {portId : UInt32} (hp : portId < 16) {low : UInt64} (high : UInt64)
    (hlow : low.toNat < 2 ^ 28) :
    (limitRange portId low high).2.1.toNat = portId.toNat * 2 ^ 28 + low.toNat ∧
      (limitRange portId low high).2.2.toNat =
        portId.toNat * 2 ^ 28 + min high.toNat (2 ^ 28 - 1) := by
  have hoffset := toNat_getAddressOffset hp
  have hport : portId.toNat < 16 := UInt32.lt_iff_toNat_lt.1 hp
  have hmask : (getAddressMask portId).toNat = 2 ^ 28 - 1 := rfl
  have hnot : ¬ getAddressMask portId < low := by
    rw [UInt64.lt_iff_toNat_lt, hmask]
    omega
  unfold limitRange
  rw [if_neg hnot]
  by_cases hhigh : getAddressMask portId < high
  · rw [if_pos hhigh]
    rw [UInt64.lt_iff_toNat_lt, hmask] at hhigh
    simp only [UInt64.toNat_add, hoffset, hmask]
    omega
  · rw [if_neg hhigh]
    rw [UInt64.lt_iff_toNat_lt, hmask] at hhigh
    simp only [UInt64.toNat_add, hoffset]
    omega

/-- **The window of a range.** It holds the bus addresses that are routed into the range, without
their aliases above `2 ^ 32`. -/
theorem limitRange_window {portId : UInt32} (hp : portId < 16) {low high : UInt64}
    (hlow : low.toNat < 2 ^ 28) (a : UInt64) :
    ((limitRange portId low high).2.1 ≤ a ∧ a ≤ (limitRange portId low high).2.2) ↔
      a.toNat < 2 ^ 32 ∧ RoutedInto portId low high a := by
  obtain ⟨hstart, hstop⟩ := toNat_limitRange hp high hlow
  have hport : portId.toNat < 16 := UInt32.lt_iff_toNat_lt.1 hp
  rw [UInt64.le_iff_toNat_le, UInt64.le_iff_toNat_le, hstart, hstop, routedInto_iff]
  omega

theorem limitRange_disjoint {portId : UInt32} {low high : UInt64} (hlow : ¬ low.toNat < 2 ^ 28)
    (a : UInt64) : ¬ RoutedInto portId low high a := by
  rw [routedInto_iff]
  omega

/-! ## Granted regions -/

/-- The region as the bus hands it on. -/
def TlmDmi.limited (portId : UInt32) (own : TlmDmi) : TlmDmi :=
  ⟨own.dmiPtr, (limitRange portId own.startAddress own.endAddress).2.1,
    (limitRange portId own.startAddress own.endAddress).2.2⟩

section Limited

variable {portId : UInt32} (hp : portId < 16) {own : TlmDmi}
    (hlow : own.startAddress.toNat < 2 ^ 28)

include hp hlow

theorem covers_limited (a : UInt64) : (own.limited portId).Covers a ↔
    a.toNat < 2 ^ 32 ∧ RoutedInto portId own.startAddress own.endAddress a :=
  limitRange_window hp hlow a

/-- The pointer of the region leads to the byte that a transaction would be routed to. -/
theorem index_limited {a : UInt64} (hin : (own.limited portId).Covers a) :
    (own.limited portId).index a = own.index (a &&& getAddressMask portId) := by
  obtain ⟨hlt, hrouted⟩ := (covers_limited hp hlow a).1 hin
  have hstart : (own.limited portId).startAddress.toNat =
      portId.toNat * 2 ^ 28 + own.startAddress.toNat :=
    (toNat_limitRange hp own.endAddress hlow).1
  rw [TlmDmi.index, TlmDmi.index, UInt64.toNat_sub_of_le _ _ hin.1,
    UInt64.toNat_sub_of_le _ _ hrouted.low_le, hstart, toNat_and_mask]
  rw [routedInto_iff] at hrouted
  show own.dmiPtr + _ = own.dmiPtr + _
  omega

end Limited

/-- A granted region: the target granted one around the masked address, and the bus moved it into
the window of the port. -/
theorem getDMIPointer_eq_granted {n : Nat}
    {getDirectMemPtr : Fin n → Payload → TlmDmi → Bool × TlmDmi} {trans : Payload}
    {dmiData dmi : TlmDmi} (h : getDMIPointer getDirectMemPtr trans dmiData = some (true, dmi)) :
    ∃ (hn : (decode trans.address).toNat < n) (own : TlmDmi),
      getDirectMemPtr ⟨_, hn⟩
          (trans.setAddress (trans.address &&& getAddressMask (decode trans.address))) dmiData =
        (true, own) ∧
      own.Covers (trans.address &&& getAddressMask (decode trans.address)) ∧
      dmi = own.limited (decode trans.address) := by
  unfold getDMIPointer at h
  dsimp only at h
  split_ifs at h with hn hassert
  generalize hr : getDirectMemPtr ⟨_, hn⟩
    (trans.setAddress (trans.address &&& getAddressMask (decode trans.address))) dmiData = r
    at h hassert
  obtain ⟨result, own⟩ := r
  cases h
  refine ⟨hn, own, hr, ?_, rfl⟩
  by_contra hout
  exact hassert ⟨rfl, hout⟩

/-- **DMI through the bus.** -/
theorem dmi_exact {n : Nat} {getDirectMemPtr : Fin n → Payload → TlmDmi → Bool × TlmDmi} :
    (∀ (trans : Payload) (dmiData dmi : TlmDmi),
      getDMIPointer getDirectMemPtr trans dmiData = some (true, dmi) →
      ∃ (hn : (decode trans.address).toNat < n) (own : TlmDmi),
        getDirectMemPtr ⟨_, hn⟩
            (trans.setAddress (trans.address &&& getAddressMask (decode trans.address))) dmiData =
          (true, own) ∧
        (trans.address.toNat < 2 ^ 32 → dmi.Covers trans.address) ∧
        ∀ a, (dmi.Covers a ↔ a.toNat < 2 ^ 32 ∧
            RoutedInto (decode trans.address) own.startAddress own.endAddress a) ∧
          (dmi.Covers a →
            dmi.index a = own.index (a &&& getAddressMask (decode trans.address)))) ∧
    ∀ (portId : UInt32), portId < 16 → ∀ startRange endRange a : UInt64,
      ((∃ r, invalidateDMIPointers portId startRange endRange = some r ∧ r.1 ≤ a ∧ a ≤ r.2) ↔
        a.toNat < 2 ^ 32 ∧ RoutedInto portId startRange endRange a) := by
  constructor
  · intro trans dmiData dmi h
    obtain ⟨hn, own, hown, hcovers, rfl⟩ := getDMIPointer_eq_granted h
    have hport : decode trans.address < 16 := getPortId_lt trans.address
    have hlow : own.startAddress.toNat < 2 ^ 28 := by
      have hstart := hcovers.1
      rw [UInt64.le_iff_toNat_le, toNat_and_mask] at hstart
      omega
    refine ⟨hn, own, hown, ?_, ?_⟩
    · intro hlt
      exact (covers_limited hport hlow _).2 ⟨hlt, rfl, hcovers.1, hcovers.2⟩
    · intro a
      exact ⟨covers_limited hport hlow a, index_limited hport hlow⟩
  · intro portId hp startRange endRange a
    unfold invalidateDMIPointers
    by_cases hlow : startRange.toNat < 2 ^ 28
    · rw [← limitRange_window hp hlow a]
      simp [limitRange_fst.2 hlow]
    · have hfst : ¬ (limitRange portId startRange endRange).1 = true := mt limitRange_fst.1 hlow
      simp [hfst, limitRange_disjoint hlow a]

/-- Two targets; the second grants its bytes from 16 on, as far as the address space goes. -/
def grantAbove16 : Fin 2 → Payload → TlmDmi → Bool × TlmDmi
  | 0, _, dmi => (false, dmi)
  | 1, _, _ => (true, ⟨16, 16, 0xffffffffffffffff⟩)

def grantRequest : Payload := ⟨.read, 0x10000020, [], .incomplete, by decide, 0, false⟩

/-- The region ends with the window of the port. -/
theorem dmi_exact_grantAbove16 :
    getDMIPointer grantAbove16 grantRequest ⟨0, 0, 0⟩ =
      some (true, ⟨16, 0x10000010, 0x1fffffff⟩) ∧
    (TlmDmi.mk 16 0x10000010 0x1fffffff).Covers 0x10000020 := by
  have hgrant : getDMIPointer grantAbove16 grantRequest ⟨0, 0, 0⟩ =
      some (true, ⟨16, 0x10000010, 0x1fffffff⟩) := by decide
  obtain ⟨-, own, -, hcovers, -⟩ := dmi_exact.1 grantRequest ⟨0, 0, 0⟩ _ hgrant
  exact ⟨hgrant, hcovers (by decide)⟩

end RenodeSystemC.Lt
