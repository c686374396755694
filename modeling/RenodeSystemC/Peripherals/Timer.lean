import RenodeSystemC.Peripherals.Device

/-!
# The timer register

`update_timer` reports how many clock cycles have passed since `start_time`, rounded up and kept in
32 bits, and adds the time to the end of the reported cycle to the caller's delay (`TimerLaw`).
`start_time` may lie in the future, since starts carry the delay of the write that issued them, and
the timer rolls over and goes on being read.

**Theorem (`timerLaw_iff`).** In every reachable state with a started timer, reading it follows the
law if and only if the timer has started and has not yet rolled over.
-/

namespace RenodeSystemC.Peripherals

open Bytes

/-! ## The law -/

/-- How many cycles have begun since `start`, none before it. -/
def reportedCycles (start t : ScTime) : Nat := ⌈((t.toNat : ℚ) - start.toNat) / period⌉.toNat

/-- What reading the timer at the time `t` has to do. -/
structure TimerLaw (t : ScTime) (s : Peripheral) : Prop where
  value : (updateTimer (readingAt t s) s).1.registers.word32 timerOffset =
    UInt32.ofNat (reportedCycles s.startTime t)
  /-- The delay reaches to the end of the reported cycle. -/
  delay : ((updateTimer (readingAt t s) s).2.toNat : ℤ) =
    s.startTime.toNat + reportedCycles s.startTime t * period - t.toNat
  lt_period : s.startTime ≤ t → (updateTimer (readingAt t s) s).2.toNat < period

/-! ## The reading, in integers -/

/-- Division by the period, rounded up. -/
theorem ceil_div_period (n : Nat) : ⌈((n : ℚ) / period)⌉.toNat = (n + 999) / 1000 := by
  rw [Rat.ceil_natCast_div_natCast]
  unfold period
  omega

theorem readingAt_cycles (t : ScTime) (s : Peripheral) :
    (readingAt t s).cycles = UInt32.ofNat (((t - s.startTime).toNat + 999) / 1000) := by
  simp only [readingAt, toNat_clockPeriod, ceil_div_period]

theorem toNat_ofInt (x : ℤ) : ((UInt64.ofInt x).toNat : ℤ) = x % 2 ^ 64 := by
  rw [UInt64.ofInt, UInt64.toNat_ofNat']
  omega

/-- The remainder is the reported cycles, in ticks, less the time since the start: a difference that
goes around when the cycles do not fit the field. -/
theorem readingAt_remainder (t : ScTime) (s : Peripheral) :
    ((readingAt t s).remainder.toNat : ℤ) =
      (((readingAt t s).cycles.toNat : ℤ) * period - (t - s.startTime).toNat) % 2 ^ 64 := by
  have hperiod : (period : ℚ) ≠ 0 := by decide
  have hscale : ∀ c n : Nat, ((c : ℚ) - n / period) * period = ((c * period - n : ℤ) : ℚ) := by
    intro c n
    rw [sub_mul, div_mul_cancel₀ _ hperiod]
    push_cast
    rfl
  rw [← toNat_ofInt]
  simp only [readingAt, ScTime.scale, toNat_clockPeriod, hscale, round_intCast]

/-- The cycles reported by the law, in integers. -/
theorem reportedCycles_of_le {start t : ScTime} (h : start ≤ t) :
    reportedCycles start t = ((t - start).toNat + 999) / 1000 := by
  have hcast : (t.toNat : ℚ) - start.toNat = ((t - start).toNat : ℚ) := by
    rw [UInt64.toNat_sub_of_le _ _ h, Nat.cast_sub (UInt64.le_iff_toNat_le.1 h)]
  rw [reportedCycles, hcast, ceil_div_period]

theorem reportedCycles_of_lt {start t : ScTime} (h : t < start) : reportedCycles start t = 0 := by
  rw [reportedCycles, Int.toNat_eq_zero, Int.ceil_le]
  have hlt : (t.toNat : ℚ) < start.toNat := by exact_mod_cast UInt64.lt_iff_toNat_lt.1 h
  have hneg : (t.toNat : ℚ) - start.toNat ≤ 0 := by linarith
  exact div_nonpos_of_nonpos_of_nonneg hneg (Nat.cast_nonneg period)

/-! ## Reading the timer -/

/-- A remainder computed from the low 32 bits of the cycles is the true one while no bits are
lost. -/
theorem remainder_eq_iff {n c : Nat} (hn : n < 2 ^ 64) (hc : c = (n + 999) / 1000) :
    (((c % 2 ^ 32 : Nat) : ℤ) * 1000 - n) % 2 ^ 64 = c * 1000 - n ↔ n ≤ (2 ^ 32 - 1) * 1000 := by
  have hlow : n ≤ c * 1000 := by omega
  have hhigh : c * 1000 < n + 1000 := by omega
  clear hc
  rcases Nat.lt_or_ge c (2 ^ 32) with hlt | hge
  · rw [Nat.mod_eq_of_lt hlt, Int.emod_eq_of_lt (by omega) (by omega)]
    omega
  · have hsplit : c % 2 ^ 32 + 2 ^ 32 * (c / 2 ^ 32) = c := Nat.mod_add_div c (2 ^ 32)
    have hmod : c % 2 ^ 32 < 2 ^ 32 := Nat.mod_lt _ (by decide)
    have hdiv : 1 ≤ c / 2 ^ 32 := (Nat.one_le_div_iff (by decide)).2 hge
    generalize c % 2 ^ 32 = r at *
    generalize c / 2 ^ 32 = k at *
    refine iff_of_false ?_ (by omega)
    rw [← Int.add_emod_right, Int.emod_eq_of_lt (by omega) (by omega)]
    omega

section Reading

variable {t : ScTime} {s : Peripheral}

/-- What `update_timer` leaves in the field, and the delay it adds. -/
theorem updateTimer_reading (hv : s.startTimeValid = true) :
    (updateTimer (readingAt t s) s).1.registers.word32 timerOffset = (readingAt t s).cycles ∧
      (updateTimer (readingAt t s) s).2 = (readingAt t s).remainder := by
  rw [updateTimer, if_pos hv]
  exact ⟨word32_store_leBytes _ _ _, rfl⟩

/-- After the start the field is right, and the delay is right as long as the cycles fit in it. -/
theorem timerLaw_of_le (hv : s.startTimeValid = true) (hle : s.startTime ≤ t) :
    TimerLaw t s ↔ t.toNat - s.startTime.toNat ≤ (2 ^ 32 - 1) * period := by
  obtain ⟨hvalue, hdelay⟩ := updateTimer_reading (t := t) hv
  have htime := UInt64.toNat_sub_of_le _ _ hle
  have hle' := UInt64.le_iff_toNat_le.1 hle
  have hlt := t.toNat_lt
  have hrem := readingAt_remainder t s
  rw [readingAt_cycles, UInt32.toNat_ofNat', htime] at hrem
  have hreported := reportedCycles_of_le hle
  rw [htime] at hreported
  have hdelay_iff : ((updateTimer (readingAt t s) s).2.toNat : ℤ) =
      s.startTime.toNat + reportedCycles s.startTime t * period - t.toNat ↔
        t.toNat - s.startTime.toNat ≤ (2 ^ 32 - 1) * period := by
    rw [hdelay, hrem, hreported]
    refine Iff.trans ?_ (remainder_eq_iff (n := t.toNat - s.startTime.toNat) (by omega) rfl)
    have hright : (s.startTime.toNat : ℤ) +
        ((t.toNat - s.startTime.toNat + 999) / 1000 : Nat) * period - t.toNat =
        ((t.toNat - s.startTime.toNat + 999) / 1000 : Nat) * period -
          (t.toNat - s.startTime.toNat : Nat) := by
      omega
    rw [hright]
    exact Iff.rfl
  constructor
  · intro hlaw
    exact hdelay_iff.1 hlaw.delay
  · intro hfit
    have hd := hdelay_iff.2 hfit
    refine ⟨?_, hd, fun _ => ?_⟩
    · rw [hvalue, readingAt_cycles, htime, hreported]
    · rw [hreported] at hd
      unfold period at *
      omega

/-- Before the start the field is wrong. -/
theorem not_timerLaw_of_lt (hv : s.startTimeValid = true) (hlt : t < s.startTime)
    (hnear : s.startTime.toNat ≤ t.toNat + 2 ^ 30 * period) : ¬ TimerLaw t s := by
  intro hlaw
  have hvalue := hlaw.value
  rw [(updateTimer_reading hv).1, readingAt_cycles, reportedCycles_of_lt hlt,
    ← UInt32.toNat_inj, UInt32.toNat_ofNat', UInt64.toNat_sub] at hvalue
  have hstart := s.startTime.toNat_lt
  have hlt' := UInt64.lt_iff_toNat_lt.1 hlt
  unfold period at hnear
  rw [Nat.mod_eq_of_lt (show 2 ^ 64 - s.startTime.toNat + t.toNat < 2 ^ 64 by omega)] at hvalue
  change _ = 0 at hvalue
  omega

end Reading

/-! ## Reachable states -/

/-- A started timer starts no later than a transfer of the longest length takes from now. -/
def NearStart (d : Device) : Prop :=
  d.peripheral.startTimeValid = true →
    d.peripheral.startTime.toNat ≤ d.now.toNat + 2 ^ 30 * period

theorem transferDelay_le {length : Nat} (h : length < 2 ^ 32) :
    (transferDelay length).toNat ≤ 2 ^ 30 * period := by
  rw [toNat_transferDelay h]
  exact Nat.mul_le_mul_right _ (by omega)

/-- A start command sets the start to the end of its own transfer, or leaves an earlier one. -/
theorem nearStart_processCommand {now : ScTime} {s : Peripheral} {length : Nat}
    (hlength : length < 2 ^ 32)
    (h : s.startTimeValid = true → s.startTime.toNat ≤ now.toNat + 2 ^ 30 * period) :
    (processCommandRegisterFields now (transferDelay length) s).startTimeValid = true →
      (processCommandRegisterFields now (transferDelay length) s).startTime.toNat ≤
        now.toNat + 2 ^ 30 * period := by
  have hdelay := transferDelay_le hlength
  have hnew : (now + transferDelay length).toNat ≤ now.toNat + 2 ^ 30 * period := by
    rw [UInt64.toNat_add]
    exact (Nat.mod_le _ _).trans (by omega)
  unfold processCommandRegisterFields
  split_ifs with hcmd
  · intro _
    show (if s.startTimeValid then min s.startTime (now + transferDelay length)
      else now + transferDelay length).toNat ≤ _
    split_ifs with hv
    · rw [UInt64.toNat_min]
      exact (Nat.min_le_right _ _).trans hnew
    · exact hnew
  · exact h

theorem nearStart_run {garbage : Bytes} {es : List DeviceEvent} {d : Device}
    {tr : List DeviceOutput} (h : (device garbage).Run es d tr) : NearStart d := by
  refine Machine.inv_run (I := fun d _ => NearStart d) ?_ ?_ h
  · rintro ⟨⟩
  · intro d _ e d' o hI hs
    cases clocks_step hs with
    | keep hnow hs ho =>
      intro hv
      rw [hs.startTimeValid] at hv
      rw [hs.startTime]
      exact (hI hv).trans (Nat.add_le_add_right (UInt64.le_iff_toNat_le.1 hnow) _)
    | command s hlength hnow hs hs' ho =>
      intro hv
      rw [hs'.startTimeValid] at hv
      rw [hs'.startTime, hnow]
      refine nearStart_processCommand hlength ?_ hv
      rw [hs.startTime, hs.startTimeValid]
      exact hI
    | receive byte hnow hs ho =>
      intro hv
      rw [hs.startTimeValid] at hv
      rw [hs.startTime, hnow]
      exact hI hv

/-- **The timer follows its law exactly between its start and its first rollover.** -/
theorem timerLaw_iff {garbage : Bytes} {es : List DeviceEvent} {d : Device} {tr : List DeviceOutput}
    (h : (device garbage).Run es d tr) (hv : d.peripheral.startTimeValid = true) :
    TimerLaw d.now d.peripheral ↔
      d.peripheral.startTime ≤ d.now ∧
        d.now.toNat - d.peripheral.startTime.toNat ≤ (2 ^ 32 - 1) * period := by
  by_cases hle : d.peripheral.startTime ≤ d.now
  · rw [timerLaw_of_le hv hle, and_iff_right hle]
  · refine iff_of_false ?_ fun hc => hle hc.1
    exact not_timerLaw_of_lt hv (UInt64.not_le.1 hle) (nearStart_run h hv)

/-- The timer is started by a write of one byte at the time zero. -/
def started : List DeviceEvent :=
  [.transport .regif 0 ⟨.write, 0, [1], .incomplete, by decide, 1, false⟩]

theorem timerLaw_started :
    ∃ d tr, (device fun _ => 0).Run (started ++ [.advance 1500]) d tr ∧
      TimerLaw d.now d.peripheral :=
  have h : (device fun _ => 0).Run (started ++ [.advance 1500]) _ _ := rfl
  ⟨_, _, h, (timerLaw_iff h rfl).2 (by decide)⟩

/-- **A timer that has not started yet is read wrong.** -/
theorem futureStart_breaks :
    ¬ ∀ es d tr, (device fun _ => 0).Run es d tr → d.peripheral.startTimeValid = true →
      TimerLaw d.now d.peripheral := by
  intro h
  have hrun : (device fun _ => 0).Run started _ _ := rfl
  exact not_timerLaw_of_lt rfl (by decide) (by decide) (h _ _ _ hrun rfl)

end RenodeSystemC.Peripherals
