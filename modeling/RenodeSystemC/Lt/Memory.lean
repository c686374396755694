import Mathlib.Data.Fin.VecNotation
import RenodeSystemC.Lib.Machine
import RenodeSystemC.Lt.SimpleBus

/-!
# The memories behind `SimpleBusLT`

`memory` is the array inside both kinds of targets. What it is for, together with the bus, is one
flat memory of `2 ^ 32` addresses, in which each port's window holds one target: `flatServe` says
how such a memory answers a call.

**Theorem (`flat_refines`).** Any calls through the bus, from any initiators, in any order, are
answered as the flat memory answers them, the delays included.

`check_address` refuses a range that ends exactly at the end of the array, and its verdict
overwrites the statuses that `operation` sets for a byte enable, a short streaming width and an
unsupported command.

**Theorem (`lastByte_untouched`).** No call ever reads or writes the last byte of a target.
-/

namespace RenodeSystemC.Lt

open Bytes

/-! ## `memory` -/

structure Memory where
  readDelay : ScTime
  writeDelay : ScTime
  memorySize : UInt64
  memory : Bytes
  previousWarning : Bool

/-- The constructor clears the array. -/
def Memory.new (readDelay writeDelay : ScTime) (memorySize : UInt64) : Memory :=
  ⟨readDelay, writeDelay, memorySize, fun _ => 0, false⟩

def Memory.checkAddress (m : Memory) (gp : Payload) : ResponseStatus :=
  if m.memorySize ≤ gp.address then .addressError
  else if m.memorySize ≤ gp.address + gp.dataLength.toUInt64 then .addressError
  else .ok

/-- The statuses that `operation` sets for what it does not support. -/
def unsupported (gp : Payload) : Payload :=
  if gp.byteEnable then gp.setResponseStatus .byteEnableError
  else if gp.streamingWidth ≠ gp.dataLength then gp.setResponseStatus .burstError
  else gp

/-- The `switch` on the command. -/
def Memory.execute (m : Memory) (responseStatus : ResponseStatus) (gp : Payload)
    (delayTime : ScTime) : Memory × Payload × ScTime :=
  match gp.command with
  | .ignore =>
    if m.previousWarning then (m, gp, delayTime)
    else ({ m with previousWarning := true }, gp.setResponseStatus .commandError, 0)
  | .write =>
    if responseStatus = .ok then
      ({ m with memory := m.memory.store gp.address.toNat gp.data }, gp, delayTime + m.writeDelay)
    else (m, gp, delayTime)
  | .read =>
    if responseStatus = .ok then
      (m, gp.setData (m.memory.load gp.address.toNat gp.data.length) (length_load ..),
        delayTime + m.readDelay)
    else (m, gp, delayTime)

/-- `operation`, with the payload and the delay it leaves behind. -/
def Memory.operation (m : Memory) (gp : Payload) (delayTime : ScTime) :
    Memory × Payload × ScTime :=
  let responseStatus := m.checkAddress gp
  let (m, gp, delayTime) := m.execute responseStatus (unsupported gp) delayTime
  (m, gp.setResponseStatus responseStatus, delayTime)

/-! ## The targets -/

inductive TargetKind where
  | atTarget1Phase
  | ltTarget
  deriving DecidableEq

/-- The members of `at_target_1_phase` and of `lt_target` that `b_transport` uses. -/
structure Target where
  kind : TargetKind
  acceptDelay : ScTime
  targetMemory : Memory

/-- The body of both `b_transport` functions. -/
def Target.operate (s : Target) (payload : Payload) (delayTime : ScTime) :
    Target × Payload × ScTime :=
  let (m, payload, memOpTime) := s.targetMemory.operation payload 0
  ({ s with targetMemory := m }, payload, delayTime + s.acceptDelay + memOpTime)

/-- `at_target_1_phase::b_transport`. -/
def atTarget1PhaseBTransport : BTransport Target := Target.operate

/-- `lt_target::custom_b_transport`. -/
def ltTargetCustomBTransport : BTransport Target := Target.operate

/-- The function registered with the target's socket. -/
def targetBTransport : BTransport Target := fun s =>
  match s.kind with
  | .atTarget1Phase => atTarget1PhaseBTransport s
  | .ltTarget => ltTargetCustomBTransport s

theorem targetBTransport_eq (s : Target) : targetBTransport s = s.operate := by
  cases h : s.kind <;> simp only [targetBTransport, h] <;> rfl

/-- The constructors of both targets. -/
def Target.new (kind : TargetKind) (memorySize : UInt64)
    (acceptDelay readResponseDelay writeResponseDelay : ScTime) : Target :=
  ⟨kind, acceptDelay, .new readResponseDelay writeResponseDelay memorySize⟩

/-! ## The bus and its targets -/

/-- A call of `b_transport` on one of the bus's target sockets. -/
structure BusCall where
  socketId : Int32
  trans : Payload
  t : ScTime
  deriving DecidableEq

/-- The status, the data and the delay a call comes back with. -/
structure BusReply where
  status : ResponseStatus
  data : List UInt8
  t : ScTime
  deriving DecidableEq

variable {n : Nat}

/-- The targets after a call, and its reply; `none` if an assertion fails. -/
def busServe (targets : Fin n → Target) (c : BusCall) : (Fin n → Target) × Option BusReply :=
  match initiatorBTransport targetBTransport targets c.trans c.t with
  | none => (targets, none)
  | some (targets, p, t) => (targets, some ⟨p.responseStatus, p.data, t⟩)

/-! ## The flat memory -/

/-- What the flat memory knows of the target in a window. -/
structure Slot where
  size : Nat
  acceptDelay : ScTime
  readDelay : ScTime
  writeDelay : ScTime

def Target.slot (s : Target) : Slot :=
  ⟨s.targetMemory.memorySize.toNat, s.acceptDelay, s.targetMemory.readDelay,
    s.targetMemory.writeDelay⟩

/-- The flat memory answers a call. The range may not reach the last byte of the slot. -/
def flatServe (slots : Fin n → Slot) (a : Bytes) (c : BusCall) : Bytes × Option BusReply :=
  let address := c.trans.address.toNat % 2 ^ 32
  let data := c.trans.data
  if h : address / 2 ^ 28 < n then
    let slot := slots ⟨address / 2 ^ 28, h⟩
    if address % 2 ^ 28 + data.length < slot.size then
      match c.trans.command with
      | .read =>
        (a, some ⟨.ok, a.load address data.length, c.t + slot.acceptDelay + slot.readDelay⟩)
      | .write => (a.store address data, some ⟨.ok, data, c.t + slot.acceptDelay + slot.writeDelay⟩)
      | .ignore => (a, some ⟨.ok, data, c.t + slot.acceptDelay⟩)
    else (a, some ⟨.addressError, data, c.t + slot.acceptDelay⟩)
  else (a, none)

/-- The bytes of the targets, at the bus addresses of their windows. -/
def flatten (targets : Fin n → Target) : Bytes := fun i =>
  if h : i / 2 ^ 28 < n then (targets ⟨i / 2 ^ 28, h⟩).targetMemory.memory (i % 2 ^ 28) else 0

/-! ## One operation -/

section Operation

variable {m : Memory} {gp : Payload}

theorem checkAddress_eq_ok_iff (hsize : m.memorySize.toNat ≤ 2 ^ 28) :
    m.checkAddress gp = .ok ↔ gp.address.toNat + gp.data.length < m.memorySize.toNat := by
  have hlen := gp.length_lt
  have hsum : gp.address.toNat < m.memorySize.toNat →
      (gp.address + gp.dataLength.toUInt64).toNat = gp.address.toNat + gp.data.length := by
    intro haddr
    rw [UInt64.toNat_add, UInt32.toNat_toUInt64, Payload.toNat_dataLength]
    omega
  unfold Memory.checkAddress
  by_cases haddr : m.memorySize ≤ gp.address
  · rw [if_pos haddr]
    rw [UInt64.le_iff_toNat_le] at haddr
    exact iff_of_false (by simp) (by omega)
  · rw [if_neg haddr]
    rw [UInt64.le_iff_toNat_le] at haddr
    split_ifs with hend
    · rw [UInt64.le_iff_toNat_le, hsum (by omega)] at hend
      exact iff_of_false (by simp) (by omega)
    · rw [UInt64.le_iff_toNat_le, hsum (by omega)] at hend
      exact iff_of_true rfl (by omega)

theorem checkAddress_eq_error (h : m.checkAddress gp ≠ .ok) :
    m.checkAddress gp = .addressError := by
  unfold Memory.checkAddress at h ⊢
  split_ifs at h ⊢ with h₁ h₂
  · rfl
  · rfl
  · exact absurd rfl h

@[simp] theorem unsupported_command (gp : Payload) : (unsupported gp).command = gp.command := by
  unfold unsupported
  split_ifs <;> rfl

@[simp] theorem unsupported_address (gp : Payload) : (unsupported gp).address = gp.address := by
  unfold unsupported
  split_ifs <;> rfl

@[simp] theorem unsupported_data (gp : Payload) : (unsupported gp).data = gp.data := by
  unfold unsupported
  split_ifs <;> rfl

/-- The verdict of `check_address` is the status, whatever was set before. -/
theorem operation_status (d : ScTime) :
    (m.operation gp d).2.1.responseStatus = m.checkAddress gp := rfl

theorem operation_write (d : ScTime) (hc : gp.command = .write) (hok : m.checkAddress gp = .ok) :
    (m.operation gp d).1 = { m with memory := m.memory.store gp.address.toNat gp.data } ∧
      (m.operation gp d).2.1.data = gp.data ∧ (m.operation gp d).2.2 = d + m.writeDelay := by
  simp [Memory.operation, Memory.execute, hc, hok, Payload.setResponseStatus]

theorem operation_read (d : ScTime) (hc : gp.command = .read) (hok : m.checkAddress gp = .ok) :
    (m.operation gp d).1 = m ∧
      (m.operation gp d).2.1.data = m.memory.load gp.address.toNat gp.data.length ∧
      (m.operation gp d).2.2 = d + m.readDelay := by
  simp [Memory.operation, Memory.execute, hc, hok, Payload.setResponseStatus, Payload.setData]

/-- An operation that is refused, or whose command is unsupported, changes no byte. -/
theorem operation_idle (hnot : gp.command = .ignore ∨ m.checkAddress gp ≠ .ok) :
    (m.operation gp 0).1.memory = m.memory ∧ (m.operation gp 0).2.1.data = gp.data ∧
      (m.operation gp 0).2.2 = 0 := by
  simp only [Memory.operation, Memory.execute, unsupported_command]
  cases hc : gp.command with
  | ignore =>
    dsimp only
    split_ifs
    · exact ⟨rfl, unsupported_data gp, rfl⟩
    · exact ⟨rfl, unsupported_data gp, rfl⟩
  | read | write =>
    have hok : m.checkAddress gp ≠ .ok := hnot.resolve_left (by simp [hc])
    simp only [hok, if_false]
    exact ⟨trivial, unsupported_data gp, trivial⟩

/-- What an operation leaves of the payload. -/
theorem operation_attributes (d : ScTime) :
    (m.operation gp d).2.1.command = gp.command ∧ (m.operation gp d).2.1.address = gp.address ∧
      (m.operation gp d).2.1.data.length = gp.data.length := by
  have hstatus (r : ResponseStatus) : ((unsupported gp).setResponseStatus r).command = gp.command ∧
      ((unsupported gp).setResponseStatus r).address = gp.address ∧
      ((unsupported gp).setResponseStatus r).data.length = gp.data.length :=
    ⟨unsupported_command gp, unsupported_address gp, congrArg _ (unsupported_data gp)⟩
  simp only [Memory.operation, Memory.execute]
  split
  · split_ifs <;> exact hstatus _
  · split_ifs <;> exact hstatus _
  · split_ifs
    · refine ⟨unsupported_command gp, unsupported_address gp, ?_⟩
      simp [Payload.setData, Payload.setResponseStatus]
    · exact hstatus _

/-- No operation changes the configuration. -/
theorem operation_config (m : Memory) (gp : Payload) (d : ScTime) :
    (m.operation gp d).1.memorySize = m.memorySize ∧
      (m.operation gp d).1.readDelay = m.readDelay ∧
      (m.operation gp d).1.writeDelay = m.writeDelay := by
  simp only [Memory.operation, Memory.execute]
  split <;> split_ifs <;> exact ⟨rfl, rfl, rfl⟩

end Operation

/-! ## One call -/

section Operate

variable {s : Target} {p : Payload} {t : ScTime}

/-- The slots of the targets stay what they are. -/
theorem operate_slot : (s.operate p t).1.slot = s.slot := by
  obtain ⟨hsize, hread, hwrite⟩ := operation_config s.targetMemory p 0
  unfold Target.slot Target.operate
  simp only [hsize, hread, hwrite]

theorem operate_attributes : (s.operate p t).2.1.command = p.command ∧
    (s.operate p t).2.1.address = p.address ∧ (s.operate p t).2.1.data.length = p.data.length :=
  operation_attributes 0

theorem operate_status : (s.operate p t).2.1.responseStatus = s.targetMemory.checkAddress p := rfl

theorem operate_write (hc : p.command = .write) (hok : s.targetMemory.checkAddress p = .ok) :
    (s.operate p t).1.targetMemory.memory =
        s.targetMemory.memory.store p.address.toNat p.data ∧
      (s.operate p t).2.1.data = p.data ∧
      (s.operate p t).2.2 = t + s.slot.acceptDelay + s.slot.writeDelay := by
  obtain ⟨hm, hdata, hdelay⟩ := operation_write 0 hc hok
  unfold Target.operate
  simp only [hm, hdata, hdelay, UInt64.zero_add]
  exact ⟨trivial, trivial, rfl⟩

theorem operate_read (hc : p.command = .read) (hok : s.targetMemory.checkAddress p = .ok) :
    (s.operate p t).1.targetMemory.memory = s.targetMemory.memory ∧
      (s.operate p t).2.1.data = s.targetMemory.memory.load p.address.toNat p.data.length ∧
      (s.operate p t).2.2 = t + s.slot.acceptDelay + s.slot.readDelay := by
  obtain ⟨hm, hdata, hdelay⟩ := operation_read 0 hc hok
  unfold Target.operate
  simp only [hm, hdata, hdelay, UInt64.zero_add]
  exact ⟨trivial, trivial, rfl⟩

theorem operate_idle (hnot : p.command = .ignore ∨ s.targetMemory.checkAddress p ≠ .ok) :
    (s.operate p t).1.targetMemory.memory = s.targetMemory.memory ∧
      (s.operate p t).2.1.data = p.data ∧ (s.operate p t).2.2 = t + s.slot.acceptDelay := by
  obtain ⟨hm, hdata, hdelay⟩ := operation_idle hnot
  unfold Target.operate
  simp only [hm, hdata, hdelay, UInt64.add_zero]
  exact ⟨trivial, trivial, rfl⟩

end Operate

section Flatten

variable {targets : Fin n → Target} {i : Fin n} {s : Target}

theorem flatten_apply {off : Nat} (hoff : off < 2 ^ 28) :
    flatten targets (i * 2 ^ 28 + off) = (targets i).targetMemory.memory off := by
  have hdiv : (i * 2 ^ 28 + off) / 2 ^ 28 = (i : Nat) := by omega
  have hmod : (i * 2 ^ 28 + off) % 2 ^ 28 = off := by omega
  unfold flatten
  rw [hmod, dif_pos (by rw [hdiv]; exact i.isLt)]
  simp only [hdiv]

/-- A target's bytes are all that the flat memory sees of it. -/
theorem flatten_update_of_eq (h : s.targetMemory.memory = (targets i).targetMemory.memory) :
    flatten (Function.update targets i s) = flatten targets := by
  funext k
  unfold flatten
  by_cases hk : k / 2 ^ 28 < n
  · rw [dif_pos hk, dif_pos hk]
    by_cases hi : (⟨k / 2 ^ 28, hk⟩ : Fin n) = i
    · rw [hi, Function.update_self, h]
    · rw [Function.update_of_ne hi]
  · rw [dif_neg hk, dif_neg hk]

theorem flatten_load {off len : Nat} (hfit : off + len ≤ 2 ^ 28) :
    (flatten targets).load (i * 2 ^ 28 + off) len =
      (targets i).targetMemory.memory.load off len := by
  simp only [load, List.map_inj_left, List.mem_range]
  intro k hk
  rw [Nat.add_assoc, flatten_apply (by omega)]

theorem flatten_store {off : Nat} {data : List UInt8} (hfit : off + data.length ≤ 2 ^ 28)
    (h : s.targetMemory.memory = (targets i).targetMemory.memory.store off data) :
    flatten (Function.update targets i s) = (flatten targets).store (i * 2 ^ 28 + off) data := by
  funext k
  by_cases hk : k / 2 ^ 28 < n
  · by_cases hi : k / 2 ^ 28 = i
    · obtain ⟨o, ho, rfl⟩ : ∃ o, o < 2 ^ 28 ∧ k = i * 2 ^ 28 + o := ⟨k % 2 ^ 28, by omega, by omega⟩
      rw [flatten_apply ho, Function.update_self, h]
      by_cases hmem : off ≤ o ∧ o < off + data.length
      · rw [store_of_mem hmem.1 hmem.2, store_of_mem (by omega) (by omega)]
        congr 1
        omega
      · rw [store_of_notMem (by omega), store_of_notMem (by omega), flatten_apply ho]
    · have hne : (⟨k / 2 ^ 28, hk⟩ : Fin n) ≠ i := fun heq => hi (congrArg Fin.val heq)
      rw [store_of_notMem (by omega)]
      unfold flatten
      rw [dif_pos hk, dif_pos hk, Function.update_of_ne hne]
  · have hi := i.isLt
    rw [store_of_notMem (by omega)]
    unfold flatten
    rw [dif_neg hk, dif_neg hk]

end Flatten

/-! ## The refinement -/

/-- The targets have the sizes and the delays of the slots. -/
def Fill (slots : Fin n → Slot) (targets : Fin n → Target) : Prop :=
  ∀ i, (targets i).slot = slots i

/-- The bus hands a call on: to which target, and with which address. -/
theorem initiatorBTransport_eq {targets : Fin n → Target} {p : Payload} {t : ScTime} {i : Fin n}
    (hi : p.address.toNat % 2 ^ 32 / 2 ^ 28 = i) :
    let q := p.setAddress (p.address &&& getAddressMask (decode p.address))
    initiatorBTransport targetBTransport targets p t =
      some (Function.update targets i ((targets i).operate q t).1, ((targets i).operate q t).2.1,
        ((targets i).operate q t).2.2) := by
  have hport : (decode p.address).toNat = i := (toNat_getPortId p.address).trans hi
  have hlt : (decode p.address).toNat < n := hport ▸ i.isLt
  have hfin : (⟨(decode p.address).toNat, hlt⟩ : Fin n) = i := Fin.ext hport
  simp only [initiatorBTransport, dif_pos hlt, targetBTransport_eq, hfin]

theorem initiatorBTransport_eq_none {targets : Fin n → Target} {p : Payload} {t : ScTime}
    (hn : ¬ p.address.toNat % 2 ^ 32 / 2 ^ 28 < n) :
    initiatorBTransport targetBTransport targets p t = none := by
  have hport : (decode p.address).toNat = p.address.toNat % 2 ^ 32 / 2 ^ 28 :=
    toNat_getPortId p.address
  unfold initiatorBTransport
  rw [dif_neg (by rw [hport]; exact hn)]

section Serve

variable {slots : Fin n → Slot} {targets : Fin n → Target}

theorem fill_busServe (h : Fill slots targets) (c : BusCall) :
    Fill slots (busServe targets c).1 := by
  intro j
  unfold busServe
  by_cases hn : c.trans.address.toNat % 2 ^ 32 / 2 ^ 28 < n
  · rw [initiatorBTransport_eq (i := ⟨_, hn⟩) rfl]
    by_cases hj : j = ⟨_, hn⟩
    · rw [hj]
      simp only [Function.update_self, operate_slot]
      exact h _
    · simp only [Function.update_of_ne hj]
      exact h j
  · rw [initiatorBTransport_eq_none hn]
    exact h j

/-- One call, on the targets and on the flat memory. -/
theorem flatServe_flatten (hsize : ∀ i, (slots i).size ≤ 2 ^ 28) (h : Fill slots targets)
    (c : BusCall) : flatServe slots (flatten targets) c =
      (flatten (busServe targets c).1, (busServe targets c).2) := by
  unfold flatServe busServe
  dsimp only
  by_cases hn : c.trans.address.toNat % 2 ^ 32 / 2 ^ 28 < n
  · rw [dif_pos hn, initiatorBTransport_eq (i := ⟨_, hn⟩) rfl]
    generalize hi : (⟨c.trans.address.toNat % 2 ^ 32 / 2 ^ 28, hn⟩ : Fin n) = i
    generalize hq : c.trans.setAddress
      (c.trans.address &&& getAddressMask (decode c.trans.address)) = q
    have hport : c.trans.address.toNat % 2 ^ 32 / 2 ^ 28 = (i : Nat) := congrArg Fin.val hi
    have hoff : q.address.toNat = c.trans.address.toNat % 2 ^ 28 := by
      rw [← hq]
      exact toNat_and_mask _ _
    have hcmd : q.command = c.trans.command := by rw [← hq]; rfl
    have hdata : q.data = c.trans.data := by rw [← hq]; rfl
    have hslot : (targets i).slot = slots i := h i
    have hsz : (targets i).targetMemory.memorySize.toNat = (slots i).size :=
      congrArg Slot.size hslot
    have haddr : c.trans.address.toNat % 2 ^ 32 = i * 2 ^ 28 + q.address.toNat := by omega
    have hok : (targets i).targetMemory.checkAddress q = .ok ↔
        c.trans.address.toNat % 2 ^ 32 % 2 ^ 28 + c.trans.data.length < (slots i).size := by
      have hle := hsize i
      rw [checkAddress_eq_ok_iff (by omega), hsz, hoff, hdata]
      omega
    have hfit := hsize i
    by_cases hlt :
        c.trans.address.toNat % 2 ^ 32 % 2 ^ 28 + c.trans.data.length < (slots i).size
    · rw [if_pos hlt, haddr]
      have hacc := hok.2 hlt
      cases hc : c.trans.command with
      | read =>
        obtain ⟨hm, hd, ht⟩ := operate_read (t := c.t) (hcmd.trans hc) hacc
        simp only [operate_status, hacc, hd, ht, flatten_update_of_eq hm, hslot, hdata]
        rw [flatten_load (by omega)]
      | write =>
        obtain ⟨hm, hd, ht⟩ := operate_write (t := c.t) (hcmd.trans hc) hacc
        rw [hdata] at hm hd
        simp only [operate_status, hacc, hd, ht, hslot]
        rw [flatten_store (by omega) hm]
      | ignore =>
        obtain ⟨hm, hd, ht⟩ := operate_idle (s := targets i) (t := c.t) (Or.inl (hcmd.trans hc))
        simp only [operate_status, hacc, hd, ht, flatten_update_of_eq hm, hslot, hdata]
    · have hrej : (targets i).targetMemory.checkAddress q ≠ .ok := mt hok.1 hlt
      rw [if_neg hlt]
      obtain ⟨hm, hd, ht⟩ := operate_idle (t := c.t) (Or.inr hrej)
      simp only [operate_status, checkAddress_eq_error hrej, hd, ht, flatten_update_of_eq hm, hslot,
        hdata]
  · rw [dif_neg hn, initiatorBTransport_eq_none hn]

end Serve

/-! ## Runs -/

/-- The targets as constructed. -/
def newTargets (kind : Fin n → TargetKind) (size : Fin n → UInt64)
    (accept read write : Fin n → ScTime) : Fin n → Target := fun i =>
  .new (kind i) (size i) (accept i) (read i) (write i)

/-- The targets of `top`. -/
def topTargets : Fin 2 → Target :=
  newTargets ![.atTarget1Phase, .ltTarget] (fun _ => 4 * 1024)
    ![ScTime.ofNs 20, ScTime.ofNs 10] ![ScTime.ofNs 100, ScTime.ofNs 50]
    ![ScTime.ofNs 60, ScTime.ofNs 30]

section Runs

variable (kind : Fin n → TargetKind) (size : Fin n → UInt64) (accept read write : Fin n → ScTime)

theorem flatten_newTargets : flatten (newTargets kind size accept read write) = fun _ => 0 := by
  funext k
  unfold flatten
  split_ifs
  · rfl
  · rfl

/-- **The bus and its targets are one flat memory.** -/
theorem flat_refines (hsize : ∀ i, (size i).toNat ≤ 2 ^ 28) (calls : List BusCall) :
    Machine.replay (flatServe fun i => ⟨(size i).toNat, accept i, read i, write i⟩) (fun _ => 0)
        calls =
      (flatten (Machine.replay busServe (newTargets kind size accept read write) calls).1,
        (Machine.replay busServe (newTargets kind size accept read write) calls).2) := by
  rw [← flatten_newTargets kind size accept read write]
  refine Machine.replay_view (I := Fill fun i => ⟨(size i).toNat, accept i, read i, write i⟩)
    ?_ calls (fun _ => rfl)
  intro targets c h
  exact ⟨fill_busServe h c, flatServe_flatten hsize h c⟩

/-- The targets keep filling their slots. -/
theorem fill_replay (calls : List BusCall) :
    Fill (fun i => ⟨(size i).toNat, accept i, read i, write i⟩)
      (Machine.replay busServe (newTargets kind size accept read write) calls).1 := by
  apply Machine.inv_replay (I := Fill _)
  · intro targets c h
    exact fill_busServe h c
  · exact fun _ => rfl

end Runs

/-- Two bytes are written through an alias of their address, and read back with a third. -/
def aliasCalls : List BusCall :=
  [⟨0, ⟨.write, 0x710000004, [5, 6], .incomplete, by decide, 2, false⟩, 0⟩,
    ⟨2, ⟨.read, 0x10000004, [1, 1, 1], .incomplete, by decide, 3, false⟩, 0⟩]

theorem flat_refines_aliasCalls :
    (Machine.replay busServe topTargets aliasCalls).2 =
      [some ⟨.ok, [5, 6], 40000⟩, some ⟨.ok, [5, 6, 0], 60000⟩] := by
  have h := flat_refines ![.atTarget1Phase, .ltTarget] (fun _ => 4 * 1024)
    ![ScTime.ofNs 20, ScTime.ofNs 10] ![ScTime.ofNs 100, ScTime.ofNs 50]
    ![ScTime.ofNs 60, ScTime.ofNs 30] (by decide) aliasCalls
  exact (congrArg Prod.snd h).symm.trans (by decide)

/-! ## The last byte -/

section LastByte

variable {slots : Fin n → Slot} {a : Bytes} {c : BusCall} {i : Fin n}

/-- The flat memory never changes the byte that a slot ends with. -/
theorem flatServe_lastByte (hsize : ∀ i, 0 < (slots i).size ∧ (slots i).size ≤ 2 ^ 28) :
    (flatServe slots a c).1 (i * 2 ^ 28 + ((slots i).size - 1)) =
      a (i * 2 ^ 28 + ((slots i).size - 1)) := by
  obtain ⟨hpos, hle⟩ := hsize i
  unfold flatServe
  dsimp only
  split_ifs with hn hlt
  · cases c.trans.command with
    | read | ignore => rfl
    | write =>
      apply store_of_notMem
      by_cases hi : (⟨c.trans.address.toNat % 2 ^ 32 / 2 ^ 28, hn⟩ : Fin n) = i
      · rw [hi] at hlt
        have hport := congrArg Fin.val hi
        dsimp only at hport
        omega
      · have hport : c.trans.address.toNat % 2 ^ 32 / 2 ^ 28 ≠ i := fun heq => hi (Fin.ext heq)
        have hlt' := (hsize ⟨c.trans.address.toNat % 2 ^ 32 / 2 ^ 28, hn⟩).2
        omega
  · rfl
  · rfl

/-- The flat memory accepts no range that reaches that byte. -/
theorem flatServe_accepted {r : BusReply} (h : (flatServe slots a c).2 = some r)
    (hok : r.status = .ok) (hi : c.trans.address.toNat % 2 ^ 32 / 2 ^ 28 = i) :
    c.trans.address.toNat % 2 ^ 28 + c.trans.data.length < (slots i).size := by
  unfold flatServe at h
  dsimp only at h
  split_ifs at h with hn hlt
  · have hfin : (⟨c.trans.address.toNat % 2 ^ 32 / 2 ^ 28, hn⟩ : Fin n) = i := Fin.ext hi
    rw [hfin] at hlt
    omega
  · cases h
    cases hok

end LastByte

/-- **The last byte of a target is out of reach.** It stays zero, and no accepted call has it in its
range. -/
theorem lastByte_untouched (kind : Fin n → TargetKind) (size : Fin n → UInt64)
    (accept read write : Fin n → ScTime)
    (hsize : ∀ i, 0 < (size i).toNat ∧ (size i).toNat ≤ 2 ^ 28) (calls : List BusCall) (i : Fin n) :
    ((Machine.replay busServe (newTargets kind size accept read write) calls).1
        i).targetMemory.memory ((size i).toNat - 1) = 0 ∧
      ∀ c r, (busServe (Machine.replay busServe (newTargets kind size accept read write) calls).1
          c).2 = some r → r.status = .ok → (decode c.trans.address).toNat = i →
        c.trans.address.toNat % 2 ^ 28 + c.trans.data.length ≤ (size i).toNat - 1 := by
  have hle : ∀ i, (size i).toNat ≤ 2 ^ 28 := fun i => (hsize i).2
  have hfill := fill_replay kind size accept read write calls
  obtain ⟨hpos, hend⟩ := hsize i
  constructor
  · have hlast : (size i).toNat - 1 < 2 ^ 28 := by omega
    rw [← flatten_apply hlast]
    refine (Machine.inv_replay (I := fun targets =>
      Fill (fun i => ⟨(size i).toNat, accept i, read i, write i⟩) targets ∧
        flatten targets (i * 2 ^ 28 + ((size i).toNat - 1)) = 0) ?_ calls ⟨fun _ => rfl, ?_⟩).2
    · intro targets c hI
      refine ⟨fill_busServe hI.1 c, ?_⟩
      have hflat : (flatServe _ (flatten targets) c).1 = flatten (busServe targets c).1 :=
        congrArg Prod.fst (flatServe_flatten hle hI.1 c)
      rw [← hI.2, ← hflat]
      exact flatServe_lastByte (i := i) hsize
    · rw [flatten_newTargets]
  · intro c r hr hok hport
    have hflat := congrArg Prod.snd (flatServe_flatten hle hfill c)
    dsimp only at hflat
    rw [← hflat] at hr
    have hlt := flatServe_accepted hr hok ((toNat_getPortId _).symm.trans hport)
    dsimp only at hlt
    omega

/-- Words before the end of the second target are written, and the last one is refused. -/
def lastCalls : List BusCall :=
  [⟨0, ⟨.write, 0x10000FF8, [1, 2, 3, 4], .incomplete, by decide, 4, false⟩, 0⟩,
    ⟨1, ⟨.write, 0x10000FFC, [5, 6, 7], .incomplete, by decide, 3, false⟩, 0⟩,
    ⟨2, ⟨.write, 0x10000FFC, [5, 6, 7, 8], .incomplete, by decide, 4, false⟩, 0⟩]

theorem lastByte_untouched_lastCalls :
    (Machine.replay busServe topTargets lastCalls).2.map (Option.map BusReply.status) =
        [some .ok, some .ok, some .addressError] ∧
      ((Machine.replay busServe topTargets lastCalls).1 1).targetMemory.memory 4095 = 0 ∧
      ∀ c r, (busServe (Machine.replay busServe topTargets lastCalls).1 c).2 = some r →
        r.status = .ok → (decode c.trans.address).toNat = 1 →
        c.trans.address.toNat % 2 ^ 28 + c.trans.data.length ≤ 4095 :=
  ⟨by decide, lastByte_untouched ![.atTarget1Phase, .ltTarget] (fun _ => 4 * 1024)
    ![ScTime.ofNs 20, ScTime.ofNs 10] ![ScTime.ofNs 100, ScTime.ofNs 50]
    ![ScTime.ofNs 60, ScTime.ofNs 30] (by decide) lastCalls 1⟩

end RenodeSystemC.Lt
