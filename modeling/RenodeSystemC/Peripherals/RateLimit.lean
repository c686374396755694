import Mathlib.Data.List.Chain
import RenodeSystemC.Peripherals.Device

/-!
# The rate of DMA transfers

`fifo_data_received_method` means to start at most one transfer per clock cycle: it keeps the start
of the last transfer in `previous_time_stamp`, and delays the next one by what is missing of a
period. The difference it looks at is unsigned, and the start of the last transfer may lie in the
future.

**Theorem (`rateLimit_iff`).** The transfers of a run start at least one period apart if and only if
every byte is handled at or after the start of the transfer before it (`InSlots`).
-/

namespace RenodeSystemC.Peripherals

/-! ## Starts and slots -/

/-- The transfers of a trace: when each byte was handled, and the delay of its transfer. -/
def transfers (tr : List DeviceOutput) : List (ScTime × ScTime) := tr.filterMap DeviceOutput.sent

/-- When each byte was handled. -/
def handled (tr : List DeviceOutput) : List Nat := (transfers tr).map fun x => x.1.toNat

/-- When each transfer starts: `s_k`. -/
def starts (tr : List DeviceOutput) : List Nat :=
  (transfers tr).map fun x => x.1.toNat + x.2.toNat

/-- At most one transfer starts per clock cycle. -/
def RateLimited (ss : List Nat) : Prop := ss.IsChain fun s s' => s + period ≤ s'

instance (ss : List Nat) : Decidable (RateLimited ss) :=
  inferInstanceAs (Decidable (ss.IsChain _))

/-- The slot of a byte that is handled at `t`, after one with the given slot: the earliest start
that keeps the rate. -/
def nextSlot (slot t : Nat) : Nat := max t (slot + period)

/-- Every byte is handled at or after the slot of the byte before it, where `slot` is the slot of
the last byte before the list. -/
def InSlotsFrom (slot : Nat) : List Nat → Prop
  | [] => True
  | t :: ts => slot ≤ t ∧ InSlotsFrom (nextSlot slot t) ts

/-- Every byte is handled at or after the slot of the byte before it; the first one follows a slot
at the time zero. -/
def InSlots (ts : List Nat) : Prop := InSlotsFrom 0 ts

instance decidableInSlotsFrom (slot : Nat) : ∀ ts : List Nat, Decidable (InSlotsFrom slot ts)
  | [] => inferInstanceAs (Decidable True)
  | t :: ts =>
    have := decidableInSlotsFrom (nextSlot slot t) ts
    inferInstanceAs (Decidable (_ ∧ _))

instance (ts : List Nat) : Decidable (InSlots ts) := decidableInSlotsFrom 0 ts

/-- The slot of the last byte. -/
def lastSlot (ts : List Nat) : Nat := ts.foldl nextSlot 0

theorem inSlots_concat (ts : List Nat) (t : Nat) :
    InSlots (ts ++ [t]) ↔ InSlots ts ∧ lastSlot ts ≤ t := by
  have key : ∀ slot, InSlotsFrom slot (ts ++ [t]) ↔
      InSlotsFrom slot ts ∧ ts.foldl nextSlot slot ≤ t := by
    induction ts with
    | nil => simp [InSlotsFrom]
    | cons t' ts ih =>
      intro slot
      simp only [List.cons_append, InSlotsFrom, List.foldl_cons, ih, and_assoc]
  exact key 0

theorem lastSlot_concat (ts : List Nat) (t : Nat) :
    lastSlot (ts ++ [t]) = nextSlot (lastSlot ts) t := by
  simp [lastSlot]

/-! ## One byte -/

theorem receiveByte_delay (now : ScTime) (byte : UInt8) (s : Peripheral) :
    (receiveByte now byte s).2.delay.toNat = period - (now - s.previousTimeStamp).toNat := by
  have hlt : now - s.previousTimeStamp < clockPeriod ↔
      (now - s.previousTimeStamp).toNat < period := by
    rw [UInt64.lt_iff_toNat_lt, toNat_clockPeriod]
  simp only [receiveByte]
  split_ifs with h
  · rw [UInt64.toNat_sub_of_le _ _ (UInt64.le_of_lt h), toNat_clockPeriod]
  · rw [hlt] at h
    show 0 = _
    omega

/-- Where the transfer of a byte starts, if the last one starts at `last`: in its slot, or, if the
last start is in the future, at once. -/
theorem receiveByte_start {now : ScTime} {s : Peripheral} {last : Nat} (byte : UInt8)
    (hlast : s.previousTimeStamp = UInt64.ofNat last) (hle : last ≤ now.toNat + period) :
    now.toNat + (receiveByte now byte s).2.delay.toNat =
      if last ≤ now.toNat then nextSlot last now.toNat else now.toNat := by
  have hnow := now.toNat_lt
  rw [receiveByte_delay, UInt64.toNat_sub, hlast, UInt64.toNat_ofNat', nextSlot]
  unfold period at *
  split_ifs with h
  · rw [Nat.mod_eq_of_lt (show last < 2 ^ 64 by omega)]
    omega
  · rcases Nat.lt_or_ge last (2 ^ 64) with hlt | hge
    · rw [Nat.mod_eq_of_lt hlt]
      omega
    · rw [Nat.mod_eq_sub_mod hge, Nat.mod_eq_of_lt (show last - 2 ^ 64 < 2 ^ 64 by omega)]
      omega

/-! ## Runs -/

/-- The start of the last transfer, the time zero if there is none. -/
def lastStart (tr : List DeviceOutput) : Nat := (starts tr).getLast?.getD 0

/-- What the handler keeps of the transfers so far. -/
structure RateInv (d : Device) (tr : List DeviceOutput) : Prop where
  iff : RateLimited (starts tr) ↔ InSlots (handled tr)
  slot : InSlots (handled tr) → lastStart tr = lastSlot (handled tr)
  stamp : d.peripheral.previousTimeStamp = UInt64.ofNat (lastStart tr)
  recent : lastStart tr ≤ d.now.toNat + period

/-- A step without a transfer. -/
theorem RateInv.keep {d d' : Device} {tr o : List DeviceOutput} (h : RateInv d tr)
    (hnow : d.now ≤ d'.now)
    (hs : d'.peripheral.previousTimeStamp = d.peripheral.previousTimeStamp)
    (ho : o.filterMap DeviceOutput.sent = []) : RateInv d' (tr ++ o) := by
  have htr : transfers (tr ++ o) = transfers tr := by
    rw [transfers, List.filterMap_append, ho, List.append_nil]
    rfl
  have hstarts : starts (tr ++ o) = starts tr := by rw [starts, htr, ← starts]
  have hhandled : handled (tr ++ o) = handled tr := by rw [handled, htr, ← handled]
  have hlast : lastStart (tr ++ o) = lastStart tr := by rw [lastStart, hstarts, ← lastStart]
  refine ⟨?_, ?_, ?_, ?_⟩
  · rw [hstarts, hhandled]
    exact h.iff
  · rw [hlast, hhandled]
    exact h.slot
  · rw [hs, hlast]
    exact h.stamp
  · rw [hlast]
    exact h.recent.trans (Nat.add_le_add_right (UInt64.le_iff_toNat_le.1 hnow) period)

/-- One more transfer keeps the rate if it starts a period after the last one. -/
theorem rateLimited_concat (ss : List Nat) (s : Nat) :
    RateLimited (ss ++ [s]) ↔ RateLimited ss ∧ (ss = [] ∨ ss.getLast?.getD 0 + period ≤ s) := by
  rw [RateLimited, List.isChain_append, ← RateLimited]
  apply and_congr_right
  intro _
  cases hlast : ss.getLast? with
  | none => simp [List.getLast?_eq_none_iff.1 hlast]
  | some x =>
    have hne : ss ≠ [] := by
      rintro rfl
      cases hlast
    simp [hne]

theorem RateInv.receive {d d' : Device} {tr o : List DeviceOutput} (h : RateInv d tr) (byte : UInt8)
    (hnow : d'.now = d.now)
    (hs : d'.peripheral.previousTimeStamp =
      (receiveByte d.now byte d.peripheral).1.previousTimeStamp)
    (ho : o.filterMap DeviceOutput.sent =
      [(d.now, (receiveByte d.now byte d.peripheral).2.delay)]) : RateInv d' (tr ++ o) := by
  have hstart := receiveByte_start byte h.stamp h.recent
  generalize hdelay : (receiveByte d.now byte d.peripheral).2.delay = delay at ho hstart
  have htr : transfers (tr ++ o) = transfers tr ++ [(d.now, delay)] := by
    rw [transfers, List.filterMap_append, ho]
    rfl
  have hstarts : starts (tr ++ o) = starts tr ++ [d.now.toNat + delay.toNat] := by
    rw [starts, htr, List.map_append, ← starts]
    rfl
  have hhandled : handled (tr ++ o) = handled tr ++ [d.now.toNat] := by
    rw [handled, htr, List.map_append, ← handled]
    rfl
  have hlast : lastStart (tr ++ o) = d.now.toNat + delay.toNat := by
    rw [lastStart, hstarts, List.getLast?_append]
    rfl
  have hfirst : starts tr = [] → lastStart tr = 0 := by
    intro hnil
    rw [lastStart, hnil]
    rfl
  refine ⟨?_, ?_, ?_, ?_⟩
  · rw [hstarts, hhandled, rateLimited_concat, inSlots_concat, h.iff, ← lastStart]
    apply and_congr_right
    intro hin
    rw [← h.slot hin]
    unfold nextSlot at hstart
    have hperiod : 0 < period := by decide
    split_ifs at hstart with hle
    · exact iff_of_true (Or.inr (by omega)) hle
    · refine iff_of_false ?_ hle
      rintro (hnil | hafter)
      · have := hfirst hnil
        omega
      · omega
  · rw [hhandled, hlast, inSlots_concat, lastSlot_concat]
    rintro ⟨hin, hle⟩
    rw [← h.slot hin] at hle ⊢
    rw [hstart, if_pos hle]
  · rw [hs, hlast, UInt64.ofNat_add, UInt64.ofNat_toNat, UInt64.ofNat_toNat, ← hdelay]
    rfl
  · rw [hlast, hnow]
    have hle := receiveByte_delay d.now byte d.peripheral
    rw [hdelay] at hle
    omega

theorem rateInv_run {garbage : Bytes} {es : List DeviceEvent} {d : Device} {tr : List DeviceOutput}
    (h : (device garbage).Run es d tr) : RateInv d tr := by
  refine Machine.inv_run (I := RateInv) ?_ ?_ h
  · exact ⟨iff_of_true List.IsChain.nil trivial, fun _ => rfl, rfl, Nat.zero_le _⟩
  · intro d tr e d' o hI hs
    cases clocks_step hs with
    | keep hnow hs ho => exact hI.keep hnow hs.previousTimeStamp ho
    | command s hlength hnow hs hs' ho =>
      refine hI.keep (UInt64.le_of_eq hnow.symm) ?_ ho
      rw [hs'.previousTimeStamp, previousTimeStamp_processCommand, hs.previousTimeStamp]
    | receive byte hnow hs ho => exact hI.receive byte hnow hs.previousTimeStamp ho

/-- **The rate is kept exactly by bytes that are handled in their slots.** -/
theorem rateLimit_iff {garbage : Bytes} {es : List DeviceEvent} {d : Device}
    {tr : List DeviceOutput} (h : (device garbage).Run es d tr) :
    RateLimited (starts tr) ↔ InSlots (handled tr) :=
  (rateInv_run h).iff

/-- Two bytes, the second one handled when the transfer of the first one starts. -/
def spaced : List DeviceEvent :=
  [.arrive [1, 2], .receive, .advance 1000, .receive]

theorem rateLimit_spaced :
    ∃ d tr, (device fun _ => 0).Run spaced d tr ∧ starts tr = [1000, 2000] ∧
      RateLimited (starts tr) :=
  have h : (device fun _ => 0).Run spaced _ _ := rfl
  ⟨_, _, h, by decide, (rateLimit_iff h).2 (by decide)⟩

/-- **Two bytes of one activation start too close together.** -/
theorem burst_exceeds_rate :
    ¬ ∀ es d tr, (device fun _ => 0).Run es d tr → RateLimited (starts tr) := by
  intro h
  have hrun : (device fun _ => 0).Run [.arrive [1, 2], .receive, .receive] _ _ := rfl
  exact absurd (h _ _ _ hrun) (by decide)

end RenodeSystemC.Peripherals
