import RenodeSystemC.Lib.Tlm
import Mathlib.Data.List.Induction

/-!
# The shared `Memory`

`Memory` answers `b_transport` and `transport_dbg` for every initiator bound to its socket, over one
array. Both calls decide with `check_bounds`, whose two sums are taken modulo `2 ^ 64`.

What it is for is one linear array of bytes at the addresses `start_addr` up to
`start_addr + size`, as exact integers: `Linear` says how such an array serves a call.

**Theorem (`linear_iff`).** The calls of a run are all served that way if and only if none of them
is one for which a sum of `check_bounds` goes around (`Unwrapped`).
-/

namespace RenodeSystemC.MultiCore

open Bytes

/-! ## The module -/

/-- The members. Index `i` of `memory` is the byte `i` places after the start of the allocated
array, so that an access that leaves the array is visible as one. -/
structure Memory where
  memory : Bytes
  startAddress : UInt64
  memSize : UInt64

/-- The constructor: the array is zero-initialized, whatever lies behind it is not. -/
def Memory.new (heap : Bytes) (startAddr size : UInt64) : Memory :=
  ⟨fun i => if i < size.toNat then 0 else heap i, startAddr, size⟩

/-- `check_bounds`, with `mem_offset` where it returns `true`. -/
def Memory.checkBounds (m : Memory) (trans : Payload) : Option UInt64 :=
  if trans.address < m.startAddress ∨
      m.startAddress + m.memSize < trans.address + trans.dataLength.toUInt64 then none
  else some (trans.address - m.startAddress)

/-- The two `memcpy` branches that both calls share. -/
def Memory.copy (m : Memory) (memOffset : UInt64) (trans : Payload) : Outcome Memory :=
  match trans.command with
  | .read =>
    ⟨m, trans.setData (m.memory.load memOffset.toNat trans.data.length) (length_load _ _ _),
      ⟨memOffset.toNat, trans.data.length⟩⟩
  | .write =>
    ⟨{ m with memory := m.memory.store memOffset.toNat trans.data }, trans,
      ⟨memOffset.toNat, trans.data.length⟩⟩
  | .ignore => ⟨m, trans, ⟨memOffset.toNat, 0⟩⟩

/-- `b_transport`, with the delay it leaves behind. -/
def Memory.bTransport (m : Memory) (trans : Payload) (delay : ScTime) : Outcome Memory × ScTime :=
  match m.checkBounds trans with
  | none => (⟨m, trans.setResponseStatus .addressError, ⟨0, 0⟩⟩, delay)
  | some memOffset =>
    let out := m.copy memOffset trans
    ({ out with payload := out.payload.setResponseStatus .ok }, delay + ScTime.ofNs 1000)

/-- `transport_dbg`, with its return value. -/
def Memory.transportDbg (m : Memory) (trans : Payload) : Outcome Memory × UInt32 :=
  match m.checkBounds trans with
  | none => (⟨m, trans, ⟨0, 0⟩⟩, 0)
  | some memOffset => (m.copy memOffset trans, trans.dataLength)

/-! ## Calls from the initiators -/

/-- A call through the socket, with the index of the initiator. -/
inductive Call where
  | bTransport (id : Int32) (trans : Payload) (delay : ScTime)
  | transportDbg (id : Int32) (trans : Payload)
  deriving DecidableEq

def Call.trans : Call → Payload
  | .bTransport _ trans _ | .transportDbg _ trans => trans

/-- What a call returns. -/
inductive Reply where
  | bTransport (trans : Payload) (delay : ScTime)
  | transportDbg (trans : Payload) (count : UInt32)

def Reply.trans : Reply → Payload
  | .bTransport trans _ | .transportDbg trans _ => trans

/-- The call was accepted: the status is OK, respectively the whole length is returned. -/
def Reply.Accepted : Reply → Prop
  | .bTransport trans _ => trans.responseStatus = .ok
  | .transportDbg trans count => count = trans.dataLength

/-- The call was rejected: the status is an address error, respectively nothing is returned. -/
def Reply.Rejected : Reply → Prop
  | .bTransport trans _ => trans.responseStatus = .addressError
  | .transportDbg _ count => count = 0

/-- The memory after a call, the reply, and the bytes of the array it copied to or from. -/
def Memory.serve (m : Memory) : Call → Memory × Reply × Span
  | .bTransport _ p delay =>
    let (out, delay) := m.bTransport p delay
    (out.state, .bTransport out.payload delay, out.touched)
  | .transportDbg _ p =>
    let (out, count) := m.transportDbg p
    (out.state, .transportDbg out.payload count, out.touched)

/-- The memory after the calls of a list, in their order. -/
def Memory.serveAll (m : Memory) (cs : List Call) : Memory := cs.foldl (fun m c => (m.serve c).1) m

/-! ## The linear array -/

section Region

variable (startAddr size : UInt64)

/-- The exact-integer range of the payload lies in the region. -/
def InRegion (p : Payload) : Prop :=
  startAddr.toNat ≤ p.address.toNat ∧
    p.address.toNat + p.data.length ≤ startAddr.toNat + size.toNat

instance (p : Payload) : Decidable (InRegion startAddr size p) :=
  inferInstanceAs (Decidable (_ ∧ _))

/-- A write in the region replaces the addressed bytes; nothing else changes the array, which is
indexed by addresses. -/
def afterCall (a : Bytes) (c : Call) : Bytes :=
  if c.trans.command = .write ∧ InRegion startAddr size c.trans then
    a.store c.trans.address.toNat c.trans.data
  else a

/-- The byte last written at each address, zero where there is none. -/
def lastWritten (cs : List Call) : Bytes := cs.foldl (afterCall startAddr size) fun _ => 0

/-- The memory serves the call as the linear array with the bytes `a` does. -/
structure Linear (a : Bytes) (m : Memory) (c : Call) : Prop where
  accepted : (m.serve c).2.1.Accepted ↔ InRegion startAddr size c.trans
  rejected : ¬ InRegion startAddr size c.trans → (m.serve c).2.1.Rejected
  read : InRegion startAddr size c.trans → c.trans.command = .read →
    (m.serve c).2.1.trans.data = a.load c.trans.address.toNat c.trans.data.length
  write : (m.serve c).1.memory =
    if c.trans.command = .write ∧ InRegion startAddr size c.trans then
      m.memory.store (c.trans.address.toNat - startAddr.toNat) c.trans.data
    else m.memory
  untouched : ¬ InRegion startAddr size c.trans →
    (m.serve c).2.2.len = 0 ∧ (m.serve c).2.1.trans.data = c.trans.data

/-- No sum of `check_bounds` goes around: a call at or above the region's start either has its end
below `2 ^ 64`, or one that wraps to a place above the region's end; and where the region's own
end is `2 ^ 64`, the call reaches that end. -/
def Unwrapped (p : Payload) : Prop :=
  startAddr.toNat ≤ p.address.toNat →
    if startAddr.toNat + size.toNat < 2 ^ 64 then
      p.address.toNat + p.data.length < 2 ^ 64 ∨
        2 ^ 64 + (startAddr.toNat + size.toNat) < p.address.toNat + p.data.length
    else 2 ^ 64 ≤ p.address.toNat + p.data.length

instance (p : Payload) : Decidable (Unwrapped startAddr size p) := by
  unfold Unwrapped
  infer_instance

end Region

/-! ## Serving a call -/

variable {startAddr size : UInt64}

/-- `check_bounds`, in exact integers. -/
theorem checkBounds_eq_none_iff {m : Memory} {p : Payload} :
    m.checkBounds p = none ↔ p.address.toNat < m.startAddress.toNat ∨
      (m.startAddress.toNat + m.memSize.toNat) % 2 ^ 64 <
        (p.address.toNat + p.data.length) % 2 ^ 64 := by
  rw [Memory.checkBounds, ite_eq_left_iff, UInt64.lt_iff_toNat_lt, UInt64.lt_iff_toNat_lt,
    UInt64.toNat_add, UInt64.toNat_add, UInt32.toNat_toUInt64, Payload.toNat_dataLength]
  simp only [reduceCtorEq, imp_false, not_not]

/-- `check_bounds` decides as the linear array does if and only if no sum goes around. -/
theorem unwrapped_iff {p : Payload} (hfit : startAddr.toNat + size.toNat ≤ 2 ^ 64)
    (hlen : 1 ≤ p.data.length) :
    Unwrapped startAddr size p ↔
      (¬ (p.address.toNat < startAddr.toNat ∨ (startAddr.toNat + size.toNat) % 2 ^ 64 <
        (p.address.toNat + p.data.length) % 2 ^ 64) ↔ InRegion startAddr size p) := by
  have haddr := p.address.toNat_lt
  have hlt := p.length_lt
  rw [Unwrapped, InRegion, not_or, not_lt, not_lt]
  by_cases hs : startAddr.toNat ≤ p.address.toNat
  · simp only [hs, true_and, true_imp_iff]
    rcases hfit.lt_or_eq with hend | hend
    · rw [if_pos hend, Nat.mod_eq_of_lt hend]
      rcases Nat.lt_or_ge (p.address.toNat + p.data.length) (2 ^ 64) with hsum | hsum
      · rw [Nat.mod_eq_of_lt hsum]
        exact iff_of_true (Or.inl hsum) Iff.rfl
      · rw [Nat.mod_eq_sub_mod hsum, Nat.mod_eq_of_lt (by omega)]
        omega
    · rw [if_neg (by omega), hend, Nat.mod_self]
      rcases Nat.lt_or_ge (p.address.toNat + p.data.length) (2 ^ 64) with hsum | hsum
      · rw [Nat.mod_eq_of_lt hsum]
        omega
      · rw [Nat.mod_eq_sub_mod hsum, Nat.mod_eq_of_lt (by omega)]
        omega
  · simp only [hs, false_and, false_imp_iff]

/-- What a rejected call does. -/
theorem serve_of_none {m : Memory} {c : Call} (h : m.checkBounds c.trans = none) :
    (m.serve c).1 = m ∧ (m.serve c).2.1.Rejected ∧ (m.serve c).2.2.len = 0 ∧
      (m.serve c).2.1.trans.data = c.trans.data := by
  cases c with
  | bTransport id p delay =>
    rw [Call.trans] at h
    simp only [Memory.serve, Memory.bTransport, h, true_and]
    exact ⟨rfl, rfl⟩
  | transportDbg id p =>
    rw [Call.trans] at h
    simp only [Memory.serve, Memory.transportDbg, h, true_and]
    exact ⟨rfl, rfl⟩

theorem copy_data_length (m : Memory) (off : UInt64) (p : Payload) :
    (m.copy off p).payload.dataLength = p.dataLength := by
  unfold Memory.copy
  cases p.command with
  | read => simp [Payload.dataLength, Payload.setData]
  | write | ignore => rfl

/-- What an accepted call does. -/
theorem serve_of_some {m : Memory} {c : Call} {off : UInt64}
    (h : m.checkBounds c.trans = some off) :
    (m.serve c).1 = (m.copy off c.trans).state ∧ (m.serve c).2.1.Accepted ∧
      (m.serve c).2.1.trans.data = (m.copy off c.trans).payload.data := by
  cases c with
  | bTransport id p delay =>
    rw [Call.trans] at h ⊢
    simp only [Memory.serve, Memory.bTransport, h, true_and]
    exact ⟨rfl, rfl⟩
  | transportDbg id p =>
    rw [Call.trans] at h ⊢
    simp only [Memory.serve, Memory.transportDbg, h, true_and]
    exact ⟨(copy_data_length m off p).symm, rfl⟩

/-- With at least one byte asked for, a rejected call is not an accepted one. -/
theorem accepted_iff {m : Memory} {c : Call} (hlen : 1 ≤ c.trans.data.length) :
    (m.serve c).2.1.Accepted ↔ ¬ m.checkBounds c.trans = none := by
  constructor
  · intro hacc hnone
    cases c with
    | bTransport id p delay =>
      rw [Call.trans] at hnone
      simp [Memory.serve, Memory.bTransport, hnone, Reply.Accepted] at hacc
    | transportDbg id p =>
      rw [Call.trans] at hnone hlen
      simp only [Memory.serve, Memory.transportDbg, hnone, Reply.Accepted] at hacc
      rw [← p.toNat_dataLength, ← hacc] at hlen
      exact absurd hlen (by decide)
  · intro hsome
    obtain ⟨off, hoff⟩ := Option.ne_none_iff_exists'.1 hsome
    exact (serve_of_some hoff).2.1

theorem checkBounds_eq_some {m : Memory} {p : Payload} {off : UInt64}
    (h : m.checkBounds p = some off) : off.toNat = p.address.toNat - m.startAddress.toNat := by
  unfold Memory.checkBounds at h
  split_ifs at h with hout
  rw [not_or, UInt64.not_lt] at hout
  rw [← Option.some.inj h, UInt64.toNat_sub_of_le _ _ hout.1]

/-! ## The memory and the array -/

/-- The memory is the one constructed for the region, and its array holds the bytes `a`. -/
structure Memory.Holds (startAddr size : UInt64) (a : Bytes) (m : Memory) : Prop where
  startAddress : m.startAddress = startAddr
  memSize : m.memSize = size
  bytes : ∀ i < size.toNat, m.memory i = a (startAddr.toNat + i)

namespace Memory.Holds

variable {a : Bytes} {m : Memory}

theorem new (heap : Bytes) (startAddr size : UInt64) :
    (Memory.new heap startAddr size).Holds startAddr size fun _ => 0 :=
  ⟨rfl, rfl, fun _ hi => if_pos hi⟩

theorem checkBounds_iff (h : m.Holds startAddr size a) {p : Payload}
    (hfit : startAddr.toNat + size.toNat ≤ 2 ^ 64) (hlen : 1 ≤ p.data.length) :
    (¬ m.checkBounds p = none ↔ InRegion startAddr size p) ↔ Unwrapped startAddr size p := by
  rw [unwrapped_iff hfit hlen, checkBounds_eq_none_iff, h.startAddress, h.memSize]

/-- Reading a range of the region. -/
theorem load_eq (h : m.Holds startAddr size a) {p : Payload} (hp : InRegion startAddr size p) :
    m.memory.load (p.address.toNat - startAddr.toNat) p.data.length =
      a.load p.address.toNat p.data.length := by
  obtain ⟨hlow, hhigh⟩ := hp
  simp only [load, List.map_inj_left, List.mem_range]
  intro k hk
  rw [h.bytes _ (by omega)]
  congr 1
  omega

/-- Writing a range of the region. -/
theorem store (h : m.Holds startAddr size a) {p : Payload} (hp : InRegion startAddr size p) :
    { m with memory := m.memory.store (p.address.toNat - startAddr.toNat) p.data }.Holds
      startAddr size (a.store p.address.toNat p.data) := by
  obtain ⟨hlow, hhigh⟩ := hp
  refine ⟨h.startAddress, h.memSize, ?_⟩
  intro i hi
  show m.memory.store (p.address.toNat - startAddr.toNat) p.data i = _
  by_cases hmem : p.address.toNat ≤ startAddr.toNat + i ∧
      startAddr.toNat + i < p.address.toNat + p.data.length
  · rw [store_of_mem hmem.1 hmem.2, store_of_mem (by omega) (by omega)]
    congr 1
    omega
  · rw [store_of_notMem (by omega), store_of_notMem (by omega)]
    exact h.bytes i hi

/-- **One call.** It is served as the linear array does if and only if no sum goes around. -/
theorem linear_iff_unwrapped (h : m.Holds startAddr size a) {c : Call}
    (hfit : startAddr.toNat + size.toNat ≤ 2 ^ 64) (hlen : 1 ≤ c.trans.data.length) :
    Linear startAddr size a m c ↔ Unwrapped startAddr size c.trans := by
  rw [← h.checkBounds_iff hfit hlen]
  constructor
  · intro hlin
    rw [← accepted_iff hlen]
    exact hlin.accepted
  · intro hiff
    refine ⟨(accepted_iff hlen).trans hiff, ?_, ?_, ?_, ?_⟩
    · intro hout
      exact (serve_of_none (not_not.1 (mt hiff.1 hout))).2.1
    · intro hin hread
      obtain ⟨off, hoff⟩ := Option.ne_none_iff_exists'.1 (hiff.2 hin)
      rw [(serve_of_some hoff).2.2, ← h.load_eq hin, ← h.startAddress, ← checkBounds_eq_some hoff]
      simp [Memory.copy, hread, Payload.setData]
    · by_cases hin : InRegion startAddr size c.trans
      · obtain ⟨off, hoff⟩ := Option.ne_none_iff_exists'.1 (hiff.2 hin)
        rw [(serve_of_some hoff).1, ← h.startAddress, ← checkBounds_eq_some hoff]
        cases hcmd : c.trans.command <;> simp [Memory.copy, hcmd, h.startAddress, hin]
      · rw [(serve_of_none (not_not.1 (mt hiff.1 hin))).1, if_neg (fun hc => hin hc.2)]
    · intro hout
      exact (serve_of_none (not_not.1 (mt hiff.1 hout))).2.2

end Memory.Holds

/-- No call changes the region. -/
theorem serve_region (m : Memory) (c : Call) :
    (m.serve c).1.startAddress = m.startAddress ∧ (m.serve c).1.memSize = m.memSize := by
  cases hoff : m.checkBounds c.trans with
  | none =>
    rw [(serve_of_none hoff).1]
    exact ⟨rfl, rfl⟩
  | some off =>
    rw [(serve_of_some hoff).1]
    unfold Memory.copy
    cases c.trans.command <;> exact ⟨rfl, rfl⟩

/-- A call served as the array does leaves the array's bytes in the memory. -/
theorem Linear.holds {a : Bytes} {m : Memory} {c : Call} (hlin : Linear startAddr size a m c)
    (h : m.Holds startAddr size a) :
    (m.serve c).1.Holds startAddr size (afterCall startAddr size a c) := by
  have hregion := serve_region m c
  have hbytes : (m.serve c).1 = { m with memory := (m.serve c).1.memory } := by
    rw [← hregion.1, ← hregion.2]
  rw [hbytes, hlin.write, afterCall]
  split_ifs with hw
  · exact h.store hw.2
  · exact h

section Runs

variable {heap : Bytes}

/-- After calls that do not go around, the memory holds what was last written. -/
theorem holds_lastWritten (hfit : startAddr.toNat + size.toNat ≤ 2 ^ 64) {cs : List Call}
    (hlen : ∀ c ∈ cs, 1 ≤ c.trans.data.length) (hun : ∀ c ∈ cs, Unwrapped startAddr size c.trans) :
    ((Memory.new heap startAddr size).serveAll cs).Holds startAddr size
      (lastWritten startAddr size cs) := by
  induction cs using List.reverseRecOn with
  | nil => exact Memory.Holds.new heap startAddr size
  | append_singleton cs c ih =>
    simp only [List.forall_mem_append, List.forall_mem_singleton] at hlen hun
    have h := ih hlen.1 hun.1
    rw [Memory.serveAll, lastWritten, List.foldl_append, List.foldl_append]
    exact ((h.linear_iff_unwrapped hfit hlen.2).2 hun.2).holds h

/-- **The shared memory is a linear array exactly when no sum goes around.** The calls come from any
initiators, through either function, in any order. -/
theorem linear_iff (hfit : startAddr.toNat + size.toNat ≤ 2 ^ 64) {cs : List Call}
    (hlen : ∀ c ∈ cs, 1 ≤ c.trans.data.length) :
    (∀ pre c post, cs = pre ++ c :: post →
      Linear startAddr size (lastWritten startAddr size pre)
        ((Memory.new heap startAddr size).serveAll pre) c) ↔
      ∀ c ∈ cs, Unwrapped startAddr size c.trans := by
  constructor
  · intro hall
    -- the first call that goes around would already be served wrongly
    induction cs using List.reverseRecOn with
    | nil => simp
    | append_singleton cs c ih =>
      simp only [List.forall_mem_append, List.forall_mem_singleton] at hlen ⊢
      have hcs := ih hlen.1 fun pre c' post hcs => hall pre c' (post ++ [c]) (by simp [hcs])
      exact ⟨hcs, ((holds_lastWritten hfit hlen.1 hcs).linear_iff_unwrapped hfit hlen.2).1
        (hall cs c [] rfl)⟩
  · rintro hun pre c post rfl
    simp only [List.forall_mem_append, List.forall_mem_cons] at hlen hun
    exact ((holds_lastWritten hfit hlen.1 hun.1).linear_iff_unwrapped hfit hlen.2.1).2 hun.2.1

end Runs

/-- One initiator writes two bytes. -/
def sharedWrite : Call :=
  .bTransport 0 ⟨.write, 0x20003000, [7, 8], .incomplete, by decide, 2, false⟩ 0

/-- Another one reads around them, through the debug call. -/
def sharedRead : Call :=
  .transportDbg 1 ⟨.read, 0x20002fff, [1, 1, 1, 1], .incomplete, by decide, 4, false⟩

theorem linear_sharedRead :
    (((Memory.new (fun _ => 9) 0x20000000 0x20000).serveAll [sharedWrite]).serve
      sharedRead).2.1.trans.data = [0, 7, 8, 0] := by
  have hlin : Linear 0x20000000 0x20000 (lastWritten 0x20000000 0x20000 [sharedWrite])
      ((Memory.new (fun _ => 9) 0x20000000 0x20000).serveAll [sharedWrite]) sharedRead :=
    (linear_iff (by decide) (by decide)).2 (by decide) [sharedWrite] sharedRead [] rfl
  rw [hlin.read (by decide) rfl]
  decide

/-- **A range that goes around the address space is accepted.** -/
theorem wrappedRead_accepted :
    ¬ ∀ (heap : Bytes) (startAddr size : UInt64) (cs : List Call),
      startAddr.toNat + size.toNat ≤ 2 ^ 64 → (∀ c ∈ cs, 1 ≤ c.trans.data.length) →
        ∀ pre c post, cs = pre ++ c :: post →
          Linear startAddr size (lastWritten startAddr size pre)
            ((Memory.new heap startAddr size).serveAll pre) c := by
  intro h
  have hlin := h (fun _ => 0) 0x20000000 0x20000
    [.bTransport 0 ⟨.read, 0xffffffffffffffff, [0, 0], .incomplete, by decide, 2, false⟩ 0]
    (by decide) (by decide) [] _ [] rfl
  exact absurd (hlin.accepted.1 rfl) (by decide)

end RenodeSystemC.MultiCore
