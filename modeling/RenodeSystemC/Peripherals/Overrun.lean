import RenodeSystemC.Peripherals.Device

/-!
# Stores behind the register object

Nothing bounds a store into `PeripheralRegisterInterface`: `b_transport` copies as many bytes as
the payload has, and `memory_index` counts on behind the array. What lies behind the object are the
members that the module declares after it, and two of them are the state of the timer, `start_time`
and `start_time_valid`. The compiler decides where, so a `Layout` is a parameter here, and so are
the other bytes behind the object. A store that changes one of those is not followed: there is no
step for it.

**Theorem (`run_of_inside`).** A run all of whose stores stay inside the register object is a run of
`device`, however the module is laid out.
-/

namespace RenodeSystemC.Peripherals

open Bytes

/-! ## The layout -/

/-- Where `start_time` and `start_time_valid` lie, from the start of the register object, and what
the bytes around them are. -/
structure Layout where
  startTime : Nat
  startTimeValid : Nat
  others : Peripheral → Bytes
  le_startTime : registerInterfaceSize ≤ startTime
  le_startTimeValid : startTime + 8 ≤ startTimeValid
  lt_size : startTimeValid + 1 < 2 ^ 32

namespace Layout

variable (l : Layout)

/-- The byte of a `bool`. -/
def boolByte (b : Bool) : UInt8 := if b then 1 else 0

/-- The bytes behind the register object. -/
def behind (s : Peripheral) : Bytes :=
  ((l.others s).store l.startTime (leBytes 8 s.startTime.toNat)).store l.startTimeValid
    [boolByte s.startTimeValid]

/-- The bytes of the module, from the start of the register object. -/
def image (s : Peripheral) : Bytes := fun i =>
  if i < registerInterfaceSize then s.registers i else l.behind s i

/-- The byte belongs to the register object or to the state of the timer. -/
def Held (i : Nat) : Prop :=
  i < registerInterfaceSize ∨ (l.startTime ≤ i ∧ i < l.startTime + 8) ∨ i = l.startTimeValid

instance (i : Nat) : Decidable (l.Held i) := inferInstanceAs (Decidable (_ ∨ _))

/-- The state of the timer after a store; the register object has its own. -/
def overwrite (off : Nat) (src : List UInt8) (s : Peripheral) : Peripheral :=
  let bytes := (l.image s).store off src
  { s with
    startTime := bytes.word64 l.startTime
    startTimeValid := bytes l.startTimeValid != 0 }

/-- The store does not go around the address space, leaves a `bool` in `start_time_valid` and
changes no byte that is not held. -/
def Followed (s : Peripheral) (off : Nat) (src : List UInt8) : Prop :=
  off + src.length ≤ 2 ^ 64 ∧ (l.image s).store off src l.startTimeValid ≤ 1 ∧
    ∀ k < src.length, ¬ l.Held (off + k) → src.getD k 0 = l.image s (off + k)

instance (s : Peripheral) (off : Nat) (src : List UInt8) : Decidable (l.Followed s off src) :=
  inferInstanceAs (Decidable (_ ∧ _))

end Layout

/-! ## The machine -/

/-- What an event stores from the start of the register object on: where, and the bytes. -/
def stored (d : Device) : DeviceEvent → Option (Nat × List UInt8)
  | .transport id _ p =>
    if p.command = .write ∧ ¬ Refused p then some (id.offset p.address, p.data) else none
  | .receive =>
    d.available.head?.map fun byte =>
      (memoryOffset + d.peripheral.memoryIndex.toNat, [byte ^^^ 0xFF])
  | .advance _ | .fire | .stream | .take | .arrive _ | .assertIrq | .delta => none

/-- The bytes behind the register object are overwritten first: everything else comes after. -/
def Layout.step (l : Layout) (d : Device) (e : DeviceEvent) : Option (Device × List DeviceOutput) :=
  match stored d e with
  | none => deviceStep d e
  | some (off, src) =>
    if l.Followed d.peripheral off src then
      deviceStep (d.set (l.overwrite off src d.peripheral)) e
    else none

/-- The peripheral after elaboration, laid out in memory. -/
def Layout.device (l : Layout) (garbage : Bytes) : Machine Device DeviceEvent DeviceOutput where
  init := ⟨0, .init garbage, []⟩
  step := l.step

/-- What the event stores stays inside the register object. -/
def Inside (d : Device) (e : DeviceEvent) : Prop :=
  ∀ w ∈ stored d e, w.1 + w.2.length ≤ registerInterfaceSize

instance (d : Device) (e : DeviceEvent) : Decidable (Inside d e) :=
  inferInstanceAs (Decidable (∀ w ∈ stored d e, w.1 + w.2.length ≤ registerInterfaceSize))

/-! ## Bytes of the members -/

namespace Layout

variable (l : Layout) (s : Peripheral) (off : Nat) (src : List UInt8)

theorem image_of_lt {i : Nat} (h : i < registerInterfaceSize) : l.image s i = s.registers i :=
  if_pos h

theorem image_of_ge {i : Nat} (h : registerInterfaceSize ≤ i) : l.image s i = l.behind s i :=
  if_neg (Nat.not_lt.2 h)

theorem behind_startTime {i : Nat} (h : i < l.startTimeValid) :
    l.behind s i = (l.others s).store l.startTime (leBytes 8 s.startTime.toNat) i :=
  store_of_notMem (Or.inl h)

@[simp] theorem word64_image : (l.image s).word64 l.startTime = s.startTime := by
  have hbytes : (l.image s).word64 l.startTime =
      ((l.others s).store l.startTime (leBytes 8 s.startTime.toNat)).word64 l.startTime := by
    apply word64_congr
    intro i hstart hend
    have hvalid := l.le_startTimeValid
    rw [l.image_of_ge s (l.le_startTime.trans hstart), l.behind_startTime s (by omega)]
  rw [hbytes, word64_store_leBytes]

@[simp] theorem image_startTimeValid :
    l.image s l.startTimeValid = boolByte s.startTimeValid := by
  have hstart := l.le_startTime
  have hvalid := l.le_startTimeValid
  rw [l.image_of_ge s (by omega)]
  apply (store_of_mem (Nat.le_refl _) (Nat.lt_succ_self _)).trans
  rw [Nat.sub_self]
  rfl

theorem boolByte_of_le {b : UInt8} (h : b ≤ 1) : boolByte (b != 0) = b := by
  have hb : b.toNat ≤ 1 := h
  rcases Nat.le_one_iff_eq_zero_or_eq_one.1 hb with hzero | hone
  · rw [← UInt8.toNat_inj.1 (show (0 : UInt8).toNat = b.toNat from hzero.symm)]
    rfl
  · rw [← UInt8.toNat_inj.1 (show (1 : UInt8).toNat = b.toNat from hone.symm)]
    rfl

theorem registers_overwrite : (l.overwrite off src s).registers = s.registers := by
  simp only [overwrite]

theorem cmdStartTimer_overwrite : (l.overwrite off src s).cmdStartTimer = s.cmdStartTimer := by
  rw [Peripheral.cmdStartTimer, registers_overwrite, Peripheral.cmdStartTimer]

/-- The members of the module are those whose bytes the store leaves. -/
theorem image_overwrite (h : l.Followed s off src) {i : Nat} (hi : l.Held i) :
    l.image ((l.overwrite off src s).storeRegisters off src) i = (l.image s).store off src i := by
  have hstart := l.le_startTime
  have hvalid := l.le_startTimeValid
  by_cases hlt : i < registerInterfaceSize
  · rw [l.image_of_lt _ hlt]
    show s.registers.store off src i = _
    unfold store
    rw [l.image_of_lt s hlt]
  · rcases (hi.resolve_left hlt) with hi | rfl
    · rw [l.image_of_ge _ (Nat.le_of_not_lt hlt), l.behind_startTime _ (by omega)]
      show Bytes.store _ l.startTime
        (leBytes 8 (((l.image s).store off src).word64 l.startTime).toNat) i = _
      rw [store_of_mem hi.1 (by rw [length_leBytes]; exact hi.2), leBytes_word64]
      rw [getD_load _ (show i - l.startTime < 8 by omega), Nat.add_sub_cancel' hi.1]
    · rw [image_startTimeValid]
      show boolByte ((l.image s).store off src l.startTimeValid != 0) = _
      exact boolByte_of_le h.2.1

/-- A store inside the register object leaves the state of the timer alone. -/
theorem overwrite_of_inside (h : off + src.length ≤ registerInterfaceSize) :
    l.overwrite off src s = s := by
  have hstart := l.le_startTime
  have hvalid := l.le_startTimeValid
  have htime : ((l.image s).store off src).word64 l.startTime = s.startTime := by
    rw [← l.word64_image s]
    apply word64_congr
    intro i hi _
    exact store_of_notMem (Or.inr (by omega))
  have hbool : ((l.image s).store off src l.startTimeValid != 0) = s.startTimeValid := by
    rw [store_of_notMem (Or.inr (by omega)), image_startTimeValid]
    cases s.startTimeValid <;> rfl
  rw [overwrite, htime, hbool]

theorem followed_of_inside (h : off + src.length ≤ registerInterfaceSize) :
    l.Followed s off src := by
  have hstart := l.le_startTime
  have hvalid := l.le_startTimeValid
  refine ⟨h.trans (by decide), ?_, ?_⟩
  · rw [store_of_notMem (Or.inr (by omega)), image_startTimeValid]
    cases s.startTimeValid <;> decide
  · intro k hk hout
    exact absurd (Or.inl (by omega)) hout

end Layout

/-! ## Steps inside the object -/

theorem step_of_inside (l : Layout) {d : Device} {e : DeviceEvent} (h : Inside d e) :
    l.step d e = deviceStep d e := by
  unfold Layout.step
  split
  · rfl
  · rename_i off src hstored
    have hinside := h (off, src) hstored
    rw [if_pos (l.followed_of_inside _ _ _ hinside), l.overwrite_of_inside _ _ _ hinside]
    rfl

/-- **Runs inside the object.** Nothing is seen of the layout. -/
theorem run_of_inside {l : Layout} {garbage : Bytes} {β : Type*}
    {obs : Device → DeviceEvent → Device → List β} {es : List DeviceEvent} {d : Device}
    {tr : List β}
    (hin : ((l.device garbage).observing obs).Allowed (fun d _ e => Inside d e) es)
    (h : ((l.device garbage).observing obs).Run es d tr) :
    ((device garbage).observing obs).Run es d tr := by
  refine Machine.Run.congr (M := (l.device garbage).observing obs)
    (N := (device garbage).observing obs) rfl ?_ hin h
  intro d tr e hG
  show (deviceStep d e).map _ = (l.step d e).map _
  rw [step_of_inside l hG]

end RenodeSystemC.Peripherals
