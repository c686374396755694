import RenodeSystemC.Lib.Machine
import RenodeSystemC.Lib.Tlm

/-!
# The native CPU target and direct memory access

`systemc_cpu_target` gives the CPU a memory of 4096 bytes, through `b_transport` and, after
`get_direct_mem_ptr`, through a pointer; behind the memory lies a register that software writes
when it is done. `top::tlm_route` decides which addresses reach the target at all, and the
register, the bounds check and the granted region each have a range computation of their own.

**Theorem (`paths_agree`).** In every run both paths act on one array of 4096 bytes; an address is
granted exactly when a byte there is a memory access, and no granted region reaches the register;
and an access that crosses the end of the memory or of the register fails without effect.
-/

namespace RenodeSystemC.Dmi

/-! ## State -/

/-- `RenodeGpio`. -/
inductive RenodeGpio where
  | testDone
  | unexpectedIoAccess
  deriving DecidableEq, Repr

/-- A region granted by `get_direct_mem_ptr`. -/
structure Region where
  /-- The pointer is `memory.data() + dmiPtr`. -/
  dmiPtr : Nat
  startAddress : UInt64
  endAddress : UInt64
  readWrite : Bool
  deriving DecidableEq

/-- `systemc_cpu_target`, the `test_state` it refers to, the GPIO lines they drive, and the regions
the CPU has been granted. -/
structure Target where
  memory : Bytes
  memoryDone : Bool
  cpuDone : Bool
  gpio : RenodeGpio → Bool
  granted : List Region

def memorySize : UInt64 := 0x1000
def doneOffset : UInt64 := 0x1000
def doneSize : UInt64 := 4

/-- The constructors: the memory is zero-initialized. -/
def Target.init : Target where
  memory := fun _ => 0
  memoryDone := false
  cpuDone := false
  gpio := fun _ => false
  granted := []

/-! ## `test_state` -/

/-- `renode_gpio_update`. -/
def Target.gpioUpdate (t : Target) (line : RenodeGpio) (level : Bool) : Target :=
  { t with gpio := fun l => if l = line then level else t.gpio l }

/-- `test_state::update`. -/
def Target.update (t : Target) : Target :=
  if t.memoryDone && t.cpuDone then t.gpioUpdate .testDone true else t

def Target.markMemoryDone (t : Target) : Target := { t with memoryDone := true }.update

def Target.markCpuDone (t : Target) : Target := { t with cpuDone := true }.update

/-- `test_state::reset`. -/
def Target.reset (t : Target) : Target :=
  { t with memoryDone := false, cpuDone := false }.gpioUpdate .testDone false

/-! ## The target -/

/-- `top::tlm_route` returns the target. -/
def tlmRoute (offset : UInt64) : Bool :=
  offset < memorySize || doneOffset ≤ offset && offset < doneOffset + doneSize

/-- `handle_done_register`; `none` is `false`. -/
def Target.handleDoneRegister (t : Target) (trans : Payload) (address length : UInt64) :
    Option (Target × Payload) :=
  if doneOffset ≤ address ∧ address + length ≤ doneOffset + doneSize then
    if trans.command = .write then some (t.markCpuDone, trans.setResponseStatus .ok)
    else some (t, trans.setResponseStatus .commandError)
  else none

/-- `b_transport`, and whether it sets `dmi_allowed`. -/
def Target.bTransport (t : Target) (trans : Payload) : Outcome Target × Bool :=
  let address := trans.address
  let length := trans.dataLength.toUInt64
  match t.handleDoneRegister trans address length with
  | some (t, trans) => (⟨t, trans, ⟨0, 0⟩⟩, false)
  | none =>
    if memorySize < address + length then
      (⟨t, trans.setResponseStatus .addressError, ⟨0, 0⟩⟩, false)
    else
      let t := if trans.command = .write ∧ length = 1 then t
        else t.gpioUpdate .unexpectedIoAccess true
      let span : Span := ⟨address.toNat, trans.data.length⟩
      if trans.command = .write then
        (⟨{ t with memory := t.memory.store span.start trans.data }, trans.setResponseStatus .ok,
          span⟩, true)
      else
        let data := t.memory.load span.start span.len
        (⟨t, (trans.setData data (Bytes.length_load ..)).setResponseStatus .ok, span⟩, true)

/-- `get_direct_mem_ptr`, with the region if it returns `true`. -/
def Target.getDirectMemPtr (t : Target) (trans : Payload) : Target × Option Region :=
  if memorySize ≤ trans.address then (t, none)
  else
    let region : Region := ⟨0, 0, memorySize - 1, true⟩
    ({ t with granted := region :: t.granted }, some region)

/-! ## The machine -/

inductive Event where
  | bTransport (trans : Payload)
  | getDirectMemPtr (trans : Payload)
  /-- The CPU reads through the pointer of a region it has been granted. -/
  | directRead (region : Region) (address : UInt64) (length : Nat)
  /-- The CPU writes through it. -/
  | directWrite (region : Region) (address : UInt64) (data : List UInt8)
  /-- The memory test begins, or has succeeded. -/
  | reset
  | markMemoryDone
  deriving DecidableEq

inductive Output where
  /-- `b_transport` returns. -/
  | transported (trans : Payload) (dmiAllowed : Bool)
  | granted (region : Option Region)
  /-- The bytes of a direct access. -/
  | direct (data : List UInt8)
  deriving DecidableEq

/-- The region covers so many bytes from an address. -/
def Region.Covers (r : Region) (address : UInt64) (length : Nat) : Prop :=
  r.readWrite = true ∧ r.startAddress ≤ address ∧
    address.toNat + length ≤ r.endAddress.toNat + 1

instance (r : Region) (address : UInt64) (length : Nat) : Decidable (r.Covers address length) :=
  inferInstanceAs (Decidable (_ ∧ _))

/-- Where an address lies behind the region's pointer. -/
def Region.index (r : Region) (address : UInt64) : Nat :=
  r.dmiPtr + (address - r.startAddress).toNat

def step (t : Target) : Event → Option (Target × List Output)
  | .bTransport p =>
    if tlmRoute p.address then
      let (out, dmiAllowed) := t.bTransport p
      some (out.state, [.transported out.payload dmiAllowed])
    else none
  | .getDirectMemPtr p =>
    if tlmRoute p.address then
      let (t, region) := t.getDirectMemPtr p
      some (t, [.granted region])
    else none
  | .directRead region address length =>
    if region ∈ t.granted ∧ region.Covers address length then
      some (t, [.direct (t.memory.load (region.index address) length)])
    else none
  | .directWrite region address data =>
    if region ∈ t.granted ∧ region.Covers address data.length then
      some ({ t with memory := t.memory.store (region.index address) data }, [.direct data])
    else none
  | .reset => some (t.reset, [])
  | .markMemoryDone => some (t.markMemoryDone, [])

/-- The target and everything that reaches it. -/
def cpuTarget : Machine Target Event Output where
  init := .init
  step := step

/-! ## One array -/

/-- An access to the array. -/
inductive Access where
  | read (address length : Nat)
  | write (address : Nat) (data : List UInt8)
  deriving DecidableEq

def Access.span : Access → Span
  | .read address length => ⟨address, length⟩
  | .write address data => ⟨address, data.length⟩

/-- The array serves an access, with the bytes read or written. -/
def serve (a : Bytes) : Access → Bytes × List UInt8
  | .read address length => (a, a.load address length)
  | .write address data => (a.store address data, data)

/-- The access of the array that a transaction asks for, if it does not leave it. -/
def memoryAccess (p : Payload) : Option Access :=
  if p.address.toNat < 0x1000 ∧ p.address.toNat + p.data.length ≤ 0x1000 then
    if p.command = .write then some (.write p.address.toNat p.data)
    else some (.read p.address.toNat p.data.length)
  else none

/-- The access of the array that an event asks for, on either path. -/
def Event.access : Event → Option Access
  | .bTransport p => memoryAccess p
  | .directRead _ address length => some (.read address.toNat length)
  | .directWrite _ address data => some (.write address.toNat data)
  | _ => none

/-- The bytes of an access, on either path. -/
def Output.data : Output → Option (List UInt8)
  | .transported p dmiAllowed => if dmiAllowed then some p.data else none
  | .direct data => some data
  | .granted _ => none

/-- The transaction reaches over the end of the memory, or of the register. -/
def Crosses (p : Payload) : Prop :=
  p.address.toNat < 0x1000 ∧ 0x1000 < p.address.toNat + p.data.length ∨
    0x1000 ≤ p.address.toNat ∧ 0x1004 < p.address.toNat + p.data.length

instance (p : Payload) : Decidable (Crosses p) := inferInstanceAs (Decidable (_ ∨ _))

/-! ## A routed transaction -/

section Routed

variable {p : Payload}

theorem tlmRoute_iff (a : UInt64) : tlmRoute a = true ↔ a.toNat < 0x1004 := by
  rw [tlmRoute, Bool.or_eq_true, Bool.and_eq_true, decide_eq_true_eq, decide_eq_true_eq,
    decide_eq_true_eq, UInt64.lt_iff_toNat_lt, UInt64.lt_iff_toNat_lt, UInt64.le_iff_toNat_le]
  simp only [memorySize, doneOffset, doneSize]
  change a.toNat < 0x1000 ∨ 0x1000 ≤ a.toNat ∧ a.toNat < 0x1004 ↔ a.toNat < 0x1004
  omega

/-- The sums of the range checks do not go around. -/
theorem toNat_end (h : tlmRoute p.address = true) :
    (p.address + p.dataLength.toUInt64).toNat = p.address.toNat + p.data.length := by
  rw [tlmRoute_iff] at h
  have hlen := p.length_lt
  rw [UInt64.toNat_add, UInt32.toNat_toUInt64, Payload.toNat_dataLength]
  exact Nat.mod_eq_of_lt (by omega)

/-- The register's window, in exact integers. -/
theorem inDone_iff (h : tlmRoute p.address = true) :
    (doneOffset ≤ p.address ∧ p.address + p.dataLength.toUInt64 ≤ doneOffset + doneSize) ↔
      0x1000 ≤ p.address.toNat ∧ p.address.toNat + p.data.length ≤ 0x1004 := by
  rw [UInt64.le_iff_toNat_le, UInt64.le_iff_toNat_le, toNat_end h]
  exact Iff.rfl

theorem outside_iff (h : tlmRoute p.address = true) :
    memorySize < p.address + p.dataLength.toUInt64 ↔ 0x1000 < p.address.toNat + p.data.length := by
  rw [UInt64.lt_iff_toNat_lt, toNat_end h]
  exact Iff.rfl

/-- What `b_transport` does to the memory and to the granted regions with a routed transaction. -/
inductive Served (t : Target) (p : Payload) : Outcome Target × Bool → Prop
  | access (acc : Access) (h : memoryAccess p = some acc) {t' : Target} {q : Payload}
      (hmem : t'.memory = (serve t.memory acc).1) (hgr : t'.granted = t.granted)
      (hdata : q.data = (serve t.memory acc).2) : Served t p (⟨t', q, acc.span⟩, true)
  | register (hlo : 0x1000 ≤ p.address.toNat) (hhi : p.address.toNat + p.data.length ≤ 0x1004)
      {t' : Target} {q : Payload} (hmem : t'.memory = t.memory) (hgr : t'.granted = t.granted) :
      Served t p (⟨t', q, ⟨0, 0⟩⟩, false)
  | crosses (h : Crosses p) {q : Payload} (hq : q.responseStatus = .addressError) :
      Served t p (⟨t, q, ⟨0, 0⟩⟩, false)

theorem markCpuDone_memory (t : Target) : t.markCpuDone.memory = t.memory := by
  rw [Target.markCpuDone, Target.update]
  split <;> rfl

theorem markCpuDone_granted (t : Target) : t.markCpuDone.granted = t.granted := by
  rw [Target.markCpuDone, Target.update]
  split <;> rfl

/-- **The three windows partition the routed transactions.** -/
theorem served (t : Target) (h : tlmRoute p.address = true) : Served t p (t.bTransport p) := by
  simp only [Target.bTransport, Target.handleDoneRegister, inDone_iff h, outside_iff h]
  by_cases hdone : 0x1000 ≤ p.address.toNat ∧ p.address.toNat + p.data.length ≤ 0x1004
  · rw [if_pos hdone]
    by_cases hw : p.command = .write
    · rw [if_pos hw]
      exact .register hdone.1 hdone.2 (markCpuDone_memory t) (markCpuDone_granted t)
    · rw [if_neg hw]
      exact .register hdone.1 hdone.2 rfl rfl
  · rw [if_neg hdone]
    by_cases hout : 0x1000 < p.address.toNat + p.data.length
    · simp only [hout, if_true]
      exact .crosses (by unfold Crosses; omega) rfl
    · have hin : p.address.toNat < 0x1000 ∧ p.address.toNat + p.data.length ≤ 0x1000 := by omega
      simp only [hout, if_false]
      by_cases hw : p.command = .write
      · have hacc : memoryAccess p = some (.write p.address.toNat p.data) := by
          rw [memoryAccess, if_pos hin, if_pos hw]
        simp only [hw, true_and, if_true]
        refine .access _ hacc ?_ ?_ rfl <;> split <;> rfl
      · have hacc : memoryAccess p = some (.read p.address.toNat p.data.length) := by
          rw [memoryAccess, if_pos hin, if_neg hw]
        simp only [hw, false_and, if_false]
        exact .access _ hacc rfl rfl rfl

theorem memoryAccess_eq_none (h : Crosses p ∨ 0x1000 ≤ p.address.toNat) :
    memoryAccess p = none := by
  rw [memoryAccess, if_neg]
  unfold Crosses at h
  omega

theorem memoryAccess_within {acc : Access} (h : memoryAccess p = some acc) :
    p.address.toNat < 0x1000 ∧ acc.span = ⟨p.address.toNat, p.data.length⟩ ∧
      acc.span.Within 0x1000 := by
  unfold memoryAccess at h
  split_ifs at h with hin hw <;> cases h <;>
    exact ⟨hin.1, rfl, Span.within_iff.2 (Or.inr hin.2)⟩

end Routed

/-! ## Granted regions -/

/-- The region that `get_direct_mem_ptr` grants: all of the memory. -/
def memoryRegion : Region := ⟨0, 0, memorySize - 1, true⟩

theorem getDirectMemPtr_of_lt {t : Target} {p : Payload} (h : p.address.toNat < 0x1000) :
    t.getDirectMemPtr p = ({ t with granted := memoryRegion :: t.granted }, some memoryRegion) := by
  have hlt : ¬ memorySize ≤ p.address := by
    rw [UInt64.le_iff_toNat_le, not_le]
    exact h
  rw [Target.getDirectMemPtr, if_neg hlt]
  rfl

theorem getDirectMemPtr_of_le {t : Target} {p : Payload} (h : 0x1000 ≤ p.address.toNat) :
    t.getDirectMemPtr p = (t, none) := by
  have hle : memorySize ≤ p.address := by
    rw [UInt64.le_iff_toNat_le]
    exact h
  rw [Target.getDirectMemPtr, if_pos hle]

/-- In the region an address is its own index, and the last one is that of the last byte. -/
theorem memoryRegion_covers {address : UInt64} {length : Nat}
    (h : memoryRegion.Covers address length) :
    memoryRegion.index address = address.toNat ∧ address.toNat + length ≤ 0x1000 := by
  refine ⟨?_, h.2.2⟩
  rw [Region.index, memoryRegion, UInt64.sub_zero, Nat.zero_add]

/-! ## Runs -/

/-- Only the whole memory has been granted, and the memory and the bytes of the accesses so far are
those of the array. -/
structure Inv (es : List Event) (t : Target) (tr : List Output) : Prop where
  granted : ∀ r ∈ t.granted, r = memoryRegion
  replay : (t.memory, tr.filterMap Output.data) =
    Machine.replay serve (fun _ => 0) (es.filterMap Event.access)

namespace Inv

variable {es : List Event} {e : Event} {t t' : Target} {tr o : List Output}

/-- A step that does not touch the array. -/
theorem silent (h : Inv es t tr) (hgr : ∀ r ∈ t'.granted, r = memoryRegion)
    (hmem : t'.memory = t.memory) (he : e.access = none) (ho : o.filterMap Output.data = []) :
    Inv (es ++ [e]) t' (tr ++ o) := by
  refine ⟨hgr, ?_⟩
  rw [hmem, List.filterMap_append, ho, List.append_nil, List.filterMap_append,
    List.filterMap_cons_none he, List.filterMap_nil, List.append_nil]
  exact h.replay

/-- A step that does one access. -/
theorem access (h : Inv es t tr) {acc : Access} (hgr : ∀ r ∈ t'.granted, r = memoryRegion)
    (hmem : t'.memory = (serve t.memory acc).1) (he : e.access = some acc)
    (ho : o.filterMap Output.data = [(serve t.memory acc).2]) : Inv (es ++ [e]) t' (tr ++ o) := by
  obtain ⟨hm, hd⟩ := Prod.ext_iff.1 h.replay
  refine ⟨hgr, ?_⟩
  have hcmd : [e].filterMap Event.access = [acc] := List.filterMap_cons_some he
  rw [List.filterMap_append, List.filterMap_append, hcmd, Machine.replay_concat, hmem, ho, ← hm,
    ← hd]

end Inv

theorem inv_step {es : List Event} {t : Target} {tr : List Output} {e : Event} {t' : Target}
    {o : List Output} (h : Inv es t tr) (hs : step t e = some (t', o)) :
    Inv (es ++ [e]) t' (tr ++ o) := by
  cases e with
  | bTransport p =>
    simp only [step] at hs
    split_ifs at hs with hr
    have hserved := served t hr
    generalize t.bTransport p = out at hs hserved
    cases hserved with
    | access acc hacc hmem hgr hdata =>
      cases hs
      exact h.access (by rw [hgr]; exact h.granted) hmem hacc (by rw [← hdata]; rfl)
    | register hlo hhi hmem hgr =>
      cases hs
      exact h.silent (by rw [hgr]; exact h.granted) hmem (memoryAccess_eq_none (Or.inr hlo)) rfl
    | crosses hc hq =>
      cases hs
      exact h.silent h.granted rfl (memoryAccess_eq_none (Or.inl hc)) rfl
  | getDirectMemPtr p =>
    simp only [step] at hs
    split_ifs at hs with hr
    rcases Nat.lt_or_ge p.address.toNat 0x1000 with hlt | hle
    · rw [getDirectMemPtr_of_lt hlt] at hs
      cases hs
      exact h.silent (List.forall_mem_cons.2 ⟨rfl, h.granted⟩) rfl rfl rfl
    · rw [getDirectMemPtr_of_le hle] at hs
      cases hs
      exact h.silent h.granted rfl rfl rfl
  | directRead region address length =>
    simp only [step] at hs
    split_ifs at hs with hc
    cases hs
    obtain ⟨hmem, hcov⟩ := hc
    rw [h.granted region hmem] at hcov ⊢
    rw [(memoryRegion_covers hcov).1]
    exact h.access h.granted rfl rfl rfl
  | directWrite region address data =>
    simp only [step] at hs
    split_ifs at hs with hc
    cases hs
    obtain ⟨hmem, hcov⟩ := hc
    rw [h.granted region hmem] at hcov ⊢
    rw [(memoryRegion_covers hcov).1]
    exact h.access h.granted rfl rfl rfl
  | reset =>
    cases hs
    exact h.silent h.granted rfl rfl rfl
  | markMemoryDone =>
    cases hs
    have hm : t.markMemoryDone.memory = t.memory ∧ t.markMemoryDone.granted = t.granted := by
      rw [Target.markMemoryDone, Target.update]
      split <;> exact ⟨rfl, rfl⟩
    exact h.silent (by rw [hm.2]; exact h.granted) hm.1 rfl rfl

theorem run_inv {es : List Event} {t : Target} {tr : List Output} (h : cpuTarget.Run es t tr) :
    Inv es t tr :=
  Machine.inv_run_history ⟨fun _ hr => absurd hr List.not_mem_nil, rfl⟩
    (fun _ _ _ _ _ _ hI hs => inv_step hI hs) h

/-- The two paths agree, after the events `es`. -/
structure Agree (es : List Event) (t : Target) (tr : List Output) : Prop where
  /-- Reads on either path return what was last written on either path. -/
  oneArray : (t.memory, tr.filterMap Output.data) =
    Machine.replay serve (fun _ => 0) (es.filterMap Event.access)
  transportInside : ∀ p : Payload, tlmRoute p.address = true →
    (t.bTransport p).1.touched.Within 0x1000
  directInside : ∀ r ∈ t.granted, ∀ address length, r.Covers address length →
    Span.Within ⟨r.index address, length⟩ 0x1000
  granted_iff : ∀ p : Payload, p.data.length = 1 →
    ((t.getDirectMemPtr p).2.isSome ↔
      tlmRoute p.address = true ∧ (t.bTransport p).1.touched = ⟨p.address.toNat, 1⟩)
  doneHidden : ∀ r ∈ t.granted, ∀ address, r.Covers address 1 → ¬ doneOffset ≤ address
  crossing : ∀ p : Payload, tlmRoute p.address = true → Crosses p →
    (t.bTransport p).1.payload.responseStatus ≠ .ok ∧ (t.bTransport p).1.state = t

theorem touched_within (t : Target) {p : Payload} (h : tlmRoute p.address = true) :
    (t.bTransport p).1.touched.Within 0x1000 := by
  have hserved := served t h
  generalize t.bTransport p = out at hserved ⊢
  cases hserved with
  | access acc hacc => exact (memoryAccess_within hacc).2.2
  | register | crosses => exact Span.within_iff.2 (Or.inl rfl)

/-- An address is granted exactly when a byte there is a memory access. -/
theorem isSome_getDirectMemPtr_iff (t : Target) {p : Payload} (hlen : p.data.length = 1) :
    (t.getDirectMemPtr p).2.isSome ↔
      tlmRoute p.address = true ∧ (t.bTransport p).1.touched = ⟨p.address.toNat, 1⟩ := by
  rcases Nat.lt_or_ge p.address.toNat 0x1000 with hlt | hle
  · have hr : tlmRoute p.address = true := (tlmRoute_iff _).2 (by omega)
    rw [getDirectMemPtr_of_lt hlt]
    refine iff_of_true rfl ⟨hr, ?_⟩
    have hserved := served t hr
    generalize t.bTransport p = out at hserved ⊢
    cases hserved with
    | access acc hacc => rw [(memoryAccess_within hacc).2.1, hlen]
    | register hlo => omega
    | crosses hc =>
      unfold Crosses at hc
      omega
  · rw [getDirectMemPtr_of_le hle]
    apply iff_of_false Bool.false_ne_true
    intro haccess
    obtain ⟨hr, htouched⟩ := haccess
    have hserved := served t hr
    generalize t.bTransport p = out at hserved htouched
    cases hserved with
    | access acc hacc => exact absurd (memoryAccess_within hacc).1 (by omega)
    | register | crosses => exact absurd (congrArg Span.len htouched) Nat.zero_ne_one

/-- **Both paths act on one array, and neither leaves it.** -/
theorem paths_agree {es : List Event} {t : Target} {tr : List Output} (h : cpuTarget.Run es t tr) :
    Agree es t tr := by
  have hinv := run_inv h
  refine ⟨hinv.replay, fun _ => touched_within t, ?_, fun _ => isSome_getDirectMemPtr_iff t, ?_, ?_⟩
  · intro r hr address length hc
    rw [hinv.granted r hr] at hc ⊢
    obtain ⟨hindex, hend⟩ := memoryRegion_covers hc
    rw [hindex]
    exact Span.within_iff.2 (Or.inr hend)
  · intro r hr address hc hdone
    rw [hinv.granted r hr] at hc
    have hend := (memoryRegion_covers hc).2
    have hlo : 0x1000 ≤ address.toNat := UInt64.le_iff_toNat_le.1 hdone
    omega
  · intro p hr hc
    have hserved := served t hr
    generalize t.bTransport p = out at hserved ⊢
    cases hserved with
    | access acc hacc =>
      rw [memoryAccess_eq_none (Or.inl hc)] at hacc
      cases hacc
    | register hlo hhi =>
      unfold Crosses at hc
      omega
    | crosses _ hq => exact ⟨by rw [hq]; decide, rfl⟩

/-- A CPU that switches between the paths, and two transactions over the ends of the windows. -/
theorem paths_agree_switching :
    let es : List Event :=
      [.bTransport ⟨.write, 0xFFF, [7], .incomplete, by simp, 1, false⟩,
        .getDirectMemPtr ⟨.read, 0x10, [0], .incomplete, by simp, 1, false⟩,
        .directRead memoryRegion 0xFFE 2, .directWrite memoryRegion 0x80 [9],
        .bTransport ⟨.read, 0x7F, [0, 0], .incomplete, by simp, 2, false⟩,
        .bTransport ⟨.read, 0xFFF, [0, 0], .incomplete, by simp, 2, false⟩,
        .bTransport ⟨.write, 0x1002, [1, 1, 1, 1], .incomplete, by simp, 4, false⟩]
    ∃ t tr, (cpuTarget.Run es t tr ∧ tr.filterMap Output.data = [[7], [0, 7], [9], [0, 9]]) ∧
      Agree es t tr := by
  refine ⟨_, _, ⟨rfl, rfl⟩, paths_agree rfl⟩

end RenodeSystemC.Dmi
