import Mathlib.Order.Bounds.Basic
import RenodeSystemC.Peripherals.Overrun

/-!
# The rollover of the timer

A register write that leaves `cmd_start_timer` set starts the timer at the end of its own transfer,
which may be earlier or later than a start already accepted; the timer keeps the earliest one.
`timer_done_event` is notified for the rollover of whatever start is the earliest so far, at
every command, and the thread behind it runs once.

**Theorem (`timer_rollover`).** In every run whose instants fit into `sc_time` and whose stores
stay inside the register object, the thread runs at most once, and when it does, `2 ^ 32` periods
after the earliest of the starts issued before; it does run once time goes past that instant, and
it always can. No command is ever left pending.

A longer write reaches `start_time_valid`, and makes a start out of the time that is in `start_time`
(`rollover_of_overrun`).
-/

namespace RenodeSystemC.Peripherals

open Bytes

/-! ## What is observed -/

inductive TimerEntry where
  /-- A start command, issued at one time for another. -/
  | start (issued instant : Nat)
  /-- `timer_done_thread` starts to run. -/
  | rollover (t : Nat)
  deriving DecidableEq

/-- The transaction writes a nonzero byte to `cmd_start_timer`. -/
def StartsTimer (id : TargetIndex) (p : Payload) : Prop :=
  p.command = .write ∧ ¬ Refused p ∧ id.offset p.address = cmdStartTimerOffset ∧ p.data.headD 0 ≠ 0

instance (id : TargetIndex) (p : Payload) : Decidable (StartsTimer id p) :=
  inferInstanceAs (Decidable (_ ∧ _))

def timerEntries (d : Device) (e : DeviceEvent) (_ : Device) : List TimerEntry :=
  match e with
  | .transport id _ p =>
    if StartsTimer id p then
      [.start d.now.toNat (d.now.toNat + (p.data.length + 3) / 4 * period)]
    else []
  | .fire => if d.peripheral.timerThread = .waiting then [.rollover d.now.toNat] else []
  | _ => []

/-- One peripheral, seen through its timer. -/
def timerDevice (l : Layout) (garbage : Bytes) : Machine Device DeviceEvent TimerEntry :=
  (l.device garbage).observing timerEntries

/-! ## What the timer is for -/

/-- How long the timer runs: the values of a 32-bit counter, one a period. -/
def rolloverTime : Nat := 2 ^ 32 * period

/-- The start instants of the commands issued before the time `t`. -/
def startsBefore (tr : List TimerEntry) (t : Nat) : Set Nat :=
  { instant | ∃ issued < t, .start issued instant ∈ tr }

def TimerEntry.rollover? : TimerEntry → Option Nat
  | .rollover t => some t
  | .start .. => none

/-- When the thread has run. -/
def rollovers (tr : List TimerEntry) : List Nat := tr.filterMap TimerEntry.rollover?

/-- The thread runs once, when the earliest start is one rollover back. -/
structure RollsOver (now : Nat) (tr : List TimerEntry) : Prop where
  once : (rollovers tr).length ≤ 1
  instant : ∀ t ∈ rollovers tr, ∃ first, IsLeast (startsBefore tr t) first ∧
    t = first + rolloverTime
  happens : ∀ issued instant, .start issued instant ∈ tr → instant + rolloverTime < now →
    (rollovers tr).length = 1

/-- Every start is so early that its rollover fits into `sc_time`. -/
def Fits (tr : List TimerEntry) : Prop :=
  ∀ issued instant, .start issued instant ∈ tr → instant + rolloverTime < 2 ^ 64

theorem Fits.left {tr o : List TimerEntry} (h : Fits (tr ++ o)) : Fits tr :=
  fun issued instant hmem => h issued instant (List.mem_append_left o hmem)

/-! ## Start commands -/

/-- A store leaves the command set only if it writes it. -/
theorem cmdStartTimer_storeRegisters {s : Peripheral} (hs : s.cmdStartTimer = false) (off : Nat)
    (src : List UInt8) :
    (s.storeRegisters off src).cmdStartTimer = true ↔
      off = cmdStartTimerOffset ∧ src.headD 0 ≠ 0 := by
  have hold : s.registers cmdStartTimerOffset = 0 := by simpa [Peripheral.cmdStartTimer] using hs
  have hread : (s.storeRegisters off src).cmdStartTimer =
      (s.registers.store off src cmdStartTimerOffset != 0) := rfl
  rw [hread, bne_iff_ne]
  by_cases hoff : off = cmdStartTimerOffset
  · subst hoff
    cases src with
    | nil =>
      have hnil : s.registers.store cmdStartTimerOffset [] cmdStartTimerOffset = 0 :=
        (store_of_notMem (Or.inr (Nat.le_refl _))).trans hold
      simp [hnil]
    | cons b src =>
      rw [store_of_mem (Nat.le_refl _) (by simp [cmdStartTimerOffset]), Nat.sub_self]
      simp
  · have hpos : cmdStartTimerOffset < off := by
      unfold cmdStartTimerOffset at hoff ⊢
      omega
    rw [store_of_notMem (Or.inl hpos), hold]
    simp [hoff]

/-- The command is acknowledged. -/
theorem cmdStartTimer_processCommand (now delay : ScTime) (s : Peripheral) :
    (processCommandRegisterFields now delay s).cmdStartTimer = false := by
  unfold processCommandRegisterFields
  split_ifs with hc
  · have hack : (startTimer now delay s).registers.store cmdStartTimerOffset [0]
        cmdStartTimerOffset = 0 := store_of_mem (Nat.le_refl _) (by decide)
    simp [Peripheral.cmdStartTimer, Peripheral.storeRegisters, hack]
  · exact Bool.eq_false_of_not_eq_true hc

/-- What a command does to the clocks of the timer, without wrap-around. -/
theorem startTimer_clocks {now delay : ScTime} {s : Peripheral} {instant : Nat}
    (hinstant : now.toNat + delay.toNat = instant) (hfit : instant + rolloverTime < 2 ^ 64)
    (hold : s.startTimeValid = true → s.startTime.toNat + rolloverTime < 2 ^ 64) :
    ∃ first done, (startTimer now delay s).startTime.toNat = first ∧
      first = (if s.startTimeValid then min s.startTime.toNat instant else instant) ∧
      (done : ScTime).toNat = first + rolloverTime ∧
      (startTimer now delay s).timerDoneEvent =
        if now ≤ done then notifyAt s.timerDoneEvent done else s.timerDoneEvent := by
  have hnew : (now + delay).toNat = instant := by
    rw [UInt64.toNat_add, hinstant]
    exact Nat.mod_eq_of_lt (by omega)
  have hfirst : (startTimer now delay s).startTime.toNat =
      if s.startTimeValid then min s.startTime.toNat instant else instant := by
    simp only [startTimer]
    split_ifs
    · rw [UInt64.toNat_min, hnew]
    · exact hnew
  refine ⟨_, (startTimer now delay s).startTime + 2 ^ 32 * clockPeriod, rfl, hfirst, ?_, rfl⟩
  have hticks : (2 ^ 32 * clockPeriod).toNat = rolloverTime := by decide
  rw [UInt64.toNat_add, hticks]
  apply Nat.mod_eq_of_lt
  rw [hfirst]
  split_ifs with hv
  · have := hold hv
    omega
  · exact hfit

/-! ## The invariant -/

/-- The start instants of all commands. -/
def allStarts (tr : List TimerEntry) : Set Nat := { instant | ∃ issued, .start issued instant ∈ tr }

/-- The thread has not run, and the event is notified for the rollover, if there is one. -/
structure Pending (d : Device) (tr : List TimerEntry) : Prop where
  waiting : d.peripheral.timerThread = .waiting
  notYet : rollovers tr = []
  event : if d.peripheral.startTimeValid then
      ∃ done, d.peripheral.timerDoneEvent = some done ∧ d.now ≤ done ∧
        done.toNat = d.peripheral.startTime.toNat + rolloverTime
    else d.peripheral.timerDoneEvent = none

/-- The thread has run, in time. -/
structure Done (d : Device) (tr : List TimerEntry) : Prop where
  started : d.peripheral.timerThread ≠ .waiting
  rollover : ∃ t first, rollovers tr = [t] ∧ t ≤ d.now.toNat ∧
    IsLeast (startsBefore tr t) first ∧ t = first + rolloverTime

structure TimerInv (d : Device) (tr : List TimerEntry) : Prop where
  acknowledged : d.peripheral.cmdStartTimer = false
  past : ∀ issued instant, .start issued instant ∈ tr → issued ≤ d.now.toNat ∧ issued ≤ instant
  earliest : if d.peripheral.startTimeValid then IsLeast (allStarts tr) d.peripheral.startTime.toNat
    else allStarts tr = ∅
  phase : Pending d tr ∨ Done d tr

/-- The members that the timer depends on stay, the event as long as it matters. -/
structure SameTimer (s s' : Peripheral) : Prop where
  startTime : s'.startTime = s.startTime
  startTimeValid : s'.startTimeValid = s.startTimeValid
  event : s.timerThread = .waiting → s'.timerDoneEvent = s.timerDoneEvent
  waiting : s'.timerThread = .waiting ↔ s.timerThread = .waiting

section Steps

variable {d d' : Device} {tr : List TimerEntry}

/-- Nothing that the timer depends on changes, but time may go on up to the notification. -/
theorem TimerInv.keep (h : TimerInv d tr) (hack : d'.peripheral.cmdStartTimer = false)
    (hs : SameTimer d.peripheral d'.peripheral) (hnow : d.now ≤ d'.now)
    (hwait : ∀ done, d.peripheral.timerDoneEvent = some done → d.now ≤ done → d'.now ≤ done) :
    TimerInv d' tr := by
  have hle := UInt64.le_iff_toNat_le.1 hnow
  refine ⟨hack, ?_, ?_, ?_⟩
  · intro issued instant hmem
    obtain ⟨hpast, horder⟩ := h.past issued instant hmem
    exact ⟨hpast.trans hle, horder⟩
  · rw [hs.startTimeValid, hs.startTime]
    exact h.earliest
  · rcases h.phase with hp | hd
    · refine Or.inl ⟨hs.waiting.2 hp.waiting, hp.notYet, ?_⟩
      have hevent := hp.event
      rw [hs.startTimeValid, hs.startTime, hs.event hp.waiting]
      split_ifs at hevent ⊢
      · obtain ⟨done, hdone, hbefore, htime⟩ := hevent
        exact ⟨done, hdone, hwait done hdone hbefore, htime⟩
      · exact hevent
    · obtain ⟨t, first, hroll, ht, hfirst⟩ := hd.rollover
      exact Or.inr ⟨fun hw => hd.started (hs.waiting.1 hw), t, first, hroll, ht.trans hle, hfirst⟩

/-- The same, when no time passes. -/
theorem TimerInv.stay (h : TimerInv d tr) (hack : d'.peripheral.cmdStartTimer = false)
    (hs : SameTimer d.peripheral d'.peripheral) (hnow : d'.now = d.now) : TimerInv d' tr := by
  apply h.keep hack hs (UInt64.le_of_eq hnow.symm)
  intro done _ hle
  rwa [hnow]

theorem rollovers_start (tr : List TimerEntry) (issued instant : Nat) :
    rollovers (tr ++ [.start issued instant]) = rollovers tr := by
  simp [rollovers, TimerEntry.rollover?]

theorem rollovers_rollover (tr : List TimerEntry) (t : Nat) :
    rollovers (tr ++ [.rollover t]) = rollovers tr ++ [t] := by
  simp [rollovers, TimerEntry.rollover?]

theorem allStarts_start (tr : List TimerEntry) (issued instant : Nat) :
    allStarts (tr ++ [.start issued instant]) = insert instant (allStarts tr) := by
  ext x
  simp only [allStarts, List.mem_append, List.mem_singleton, TimerEntry.start.injEq,
    Set.mem_ofPred_eq, Set.mem_insert_iff]
  constructor
  · intro hx
    obtain ⟨i, hmem | ⟨-, rfl⟩⟩ := hx
    · exact Or.inr ⟨i, hmem⟩
    · exact Or.inl rfl
  · intro hx
    rcases hx with rfl | ⟨i, hmem⟩
    · exact ⟨issued, Or.inr ⟨rfl, rfl⟩⟩
    · exact ⟨i, Or.inl hmem⟩

/-- A command issued at `t` or later is none of those before `t`. -/
theorem startsBefore_start (tr : List TimerEntry) {issued instant t : Nat} (h : t ≤ issued) :
    startsBefore (tr ++ [.start issued instant]) t = startsBefore tr t := by
  ext x
  simp only [startsBefore, List.mem_append, List.mem_singleton, TimerEntry.start.injEq,
    Set.mem_ofPred_eq]
  constructor
  · intro hx
    obtain ⟨i, hi, hmem | ⟨rfl, -⟩⟩ := hx
    · exact ⟨i, hi, hmem⟩
    · omega
  · intro hx
    obtain ⟨i, hi, hmem⟩ := hx
    exact ⟨i, hi, Or.inl hmem⟩

/-- **A start command.** The earliest start stays the earliest, and the event is moved with it. -/
theorem TimerInv.start (h : TimerInv d tr) {delay : ScTime} {instant : Nat}
    (hinstant : d.now.toNat + delay.toNat = instant)
    (hfit : Fits (tr ++ [.start d.now.toNat instant])) (hnow : d'.now = d.now)
    (hack : d'.peripheral.cmdStartTimer = false)
    (hs : SameTimer (startTimer d.now delay d.peripheral) d'.peripheral) :
    TimerInv d' (tr ++ [.start d.now.toNat instant]) := by
  have hlast : instant + rolloverTime < 2 ^ 64 :=
    hfit _ _ (List.mem_append_right _ List.mem_cons_self)
  have hearliest := h.earliest
  have hold : d.peripheral.startTimeValid = true →
      d.peripheral.startTime.toNat + rolloverTime < 2 ^ 64 := by
    intro hv
    rw [if_pos hv] at hearliest
    obtain ⟨issued, hmem⟩ := hearliest.1
    exact hfit _ _ (List.mem_append_left _ hmem)
  obtain ⟨first, done, hstart, hfirst, hdone, hevent⟩ := startTimer_clocks hinstant hlast hold
  have hvalid : d'.peripheral.startTimeValid = true := hs.startTimeValid
  have hstart' : d'.peripheral.startTime.toNat = first := by rw [hs.startTime, hstart]
  refine ⟨hack, ?_, ?_, ?_⟩
  · intro i x hmem
    rw [hnow]
    rcases List.mem_append.1 hmem with hmem | hmem
    · exact h.past i x hmem
    · cases List.mem_singleton.1 hmem
      exact ⟨Nat.le_refl _, by omega⟩
  · rw [if_pos hvalid, hstart', allStarts_start, hfirst]
    split_ifs at hearliest ⊢
    · rw [min_comm]
      exact hearliest.insert instant
    · rw [hearliest, insert_empty_eq]
      exact isLeast_singleton
  · rcases h.phase with hp | hd
    · refine Or.inl ⟨hs.waiting.2 hp.waiting, by rw [rollovers_start, hp.notYet], ?_⟩
      have hpending := hp.event
      have hnowDone : d.now ≤ done := by
        rw [UInt64.le_iff_toNat_le, hdone, hfirst]
        split_ifs at hpending ⊢
        · obtain ⟨old, -, hle, htime⟩ := hpending
          rw [UInt64.le_iff_toNat_le, htime] at hle
          omega
        · omega
      rw [if_pos hvalid, hs.event hp.waiting, hevent, if_pos hnowDone, hstart', hnow]
      refine ⟨done, ?_, hnowDone, hdone⟩
      split_ifs at hpending hfirst
      · -- The new notification is the earlier one: it belongs to the earlier start.
        obtain ⟨old, hsome, -, htime⟩ := hpending
        have hle : first ≤ d.peripheral.startTime.toNat := by
          rw [hfirst]
          exact Nat.min_le_left _ _
        have hmin : min old done = done := by
          rw [← UInt64.toNat_inj, UInt64.toNat_min, hdone, htime]
          exact Nat.min_eq_right (Nat.add_le_add_right hle _)
        rw [hsome, notifyAt, hmin]
      · rw [hpending, notifyAt]
    · obtain ⟨t, least, hroll, ht, hleast, heq⟩ := hd.rollover
      refine Or.inr ⟨fun hw => hd.started (hs.waiting.1 hw), t, least, ?_, by rwa [hnow], ?_, heq⟩
      · rw [rollovers_start, hroll]
      · rwa [startsBefore_start tr ht]

/-- **The rollover.** The event fires while the thread waits. -/
theorem TimerInv.rollover (h : TimerInv d tr) (hw : d.peripheral.timerThread = .waiting)
    (hfire : d.peripheral.timerDoneEvent = some d.now) (hnow : d'.now = d.now)
    (hack : d'.peripheral.cmdStartTimer = false)
    (hstart : d'.peripheral.startTime = d.peripheral.startTime)
    (hvalid : d'.peripheral.startTimeValid = d.peripheral.startTimeValid)
    (hthread : d'.peripheral.timerThread ≠ .waiting) :
    TimerInv d' (tr ++ [.rollover d.now.toNat]) := by
  have hstarts : ∀ i x, .start i x ∈ tr ++ [.rollover d.now.toNat] ↔ TimerEntry.start i x ∈ tr := by
    intro i x
    simp
  have hp : Pending d tr := h.phase.resolve_right fun hd => hd.started hw
  have hevent := hp.event
  have hearliest := h.earliest
  refine ⟨hack, ?_, ?_, Or.inr ⟨hthread, ?_⟩⟩
  · intro i x hmem
    rw [hnow]
    exact h.past i x ((hstarts i x).1 hmem)
  · simp only [allStarts, hstarts, hvalid, hstart]
    exact hearliest
  · split_ifs at hevent hearliest
    · obtain ⟨done, hsome, -, htime⟩ := hevent
      cases hsome.symm.trans hfire
      refine ⟨d.now.toNat, _, by rw [rollovers_rollover, hp.notYet, List.nil_append],
        by rw [hnow], ⟨?_, ?_⟩, htime⟩
      · obtain ⟨issued, hmem⟩ := hearliest.1
        have horder := (h.past issued _ hmem).2
        have hpos : 0 < rolloverTime := by decide
        exact ⟨issued, by omega, (hstarts _ _).2 hmem⟩
      · intro x hx
        obtain ⟨issued, -, hmem⟩ := hx
        exact hearliest.2 ⟨issued, (hstarts _ _).1 hmem⟩
    · rw [hevent] at hfire
      cases hfire

/-- Registers behind the command may change. -/
theorem TimerInv.acknowledged_store (h : TimerInv d tr) {off : Nat} {src : List UInt8}
    (hoff : off ≠ cmdStartTimerOffset) :
    (d.peripheral.storeRegisters off src).cmdStartTimer = false := by
  rw [Bool.eq_false_iff, Ne, cmdStartTimer_storeRegisters h.acknowledged]
  exact fun hset => hoff hset.1

/-- The event fires: the thread runs if it still waits, and nobody hears the event otherwise. -/
theorem TimerInv.fire (h : TimerInv d tr) (hfire : d.peripheral.timerDoneEvent = some d.now) :
    TimerInv (d.set (timerDone d.peripheral))
      (tr ++ timerEntries d .fire (d.set (timerDone d.peripheral))) := by
  by_cases hw : d.peripheral.timerThread = .waiting
  · have htimer : timerDone d.peripheral =
        { d.peripheral.storeRegisters timerDoneOffset [1] with
          timerDoneEvent := none, timerThread := .streaming ⟨0, by decide⟩ } := by
      rw [timerDone, hw]
    have hstored : (d.peripheral.storeRegisters timerDoneOffset [1]).cmdStartTimer = false :=
      h.acknowledged_store (by decide)
    rw [timerEntries, if_pos hw, Device.set, htimer]
    refine h.rollover hw hfire rfl hstored rfl rfl ?_
    intro hwaiting
    cases hwaiting
  · have htimer : timerDone d.peripheral = { d.peripheral with timerDoneEvent := none } := by
      unfold timerDone
      split
      · rename_i hw'
        exact absurd hw' hw
      · rfl
    rw [timerEntries, if_neg hw, List.append_nil, Device.set, htimer]
    exact h.stay h.acknowledged ⟨rfl, rfl, fun hw' => absurd hw' hw, Iff.rfl⟩ rfl

end Steps

/-! ## Runs -/

/-- A write through either socket: the bytes arrive, and the command they may give is carried
out. -/
theorem TimerInv.write {d d' : Device} {tr : List TimerEntry} (h : TimerInv d tr)
    {id : TargetIndex} {p : Payload} (hp : ¬ Refused p) (hc : p.command = .write)
    (hfit : Fits (tr ++ if StartsTimer id p then
      [.start d.now.toNat (d.now.toNat + (p.data.length + 3) / 4 * period)] else []))
    {s : Peripheral} (hs : s = d.peripheral.storeRegisters (id.offset p.address) p.data)
    (hnow : d'.now = d.now)
    (hack : d'.peripheral.cmdStartTimer = false)
    (hs' : SameTimer (processCommandRegisterFields d.now (transferDelay p.data.length) s)
      d'.peripheral) :
    TimerInv d' (tr ++ if StartsTimer id p then
      [.start d.now.toNat (d.now.toNat + (p.data.length + 3) / 4 * period)] else []) := by
  have hcmd : s.cmdStartTimer = true ↔ StartsTimer id p := by
    rw [hs, cmdStartTimer_storeRegisters h.acknowledged]
    exact ⟨fun hoff => ⟨hc, hp, hoff⟩, fun hstarts => hstarts.2.2⟩
  subst hs
  by_cases hstarts : StartsTimer id p
  · rw [if_pos hstarts] at hfit ⊢
    rw [processCommandRegisterFields, if_pos (hcmd.2 hstarts)] at hs'
    exact h.start (congrArg _ (toNat_transferDelay p.length_lt)) hfit hnow hack
      ⟨hs'.startTime, hs'.startTimeValid, hs'.event, hs'.waiting⟩
  · rw [if_neg hstarts, List.append_nil]
    rw [processCommandRegisterFields, if_neg fun htrue => hstarts (hcmd.1 htrue)] at hs'
    exact h.stay hack ⟨hs'.startTime, hs'.startTimeValid, hs'.event, hs'.waiting⟩ hnow

theorem timerInv_step {d d' : Device} {e : DeviceEvent} {out : List DeviceOutput}
    {tr : List TimerEntry} (h : TimerInv d tr) (hfit : Fits (tr ++ timerEntries d e d'))
    (hs : deviceStep d e = some (d', out)) : TimerInv d' (tr ++ timerEntries d e d') := by
  have hnone : timerEntries d e d' = [] → TimerInv d' tr →
      TimerInv d' (tr ++ timerEntries d e d') := by
    intro hnil hinv
    rwa [hnil, List.append_nil]
  cases deviceStepped hs with
  | @transport id delay delay' p out ht =>
    cases ht with
    | refused hp =>
      refine hnone (if_neg fun hstarts => hstarts.2.1 hp) ?_
      exact h.stay h.acknowledged ⟨rfl, rfl, fun _ => rfl, Iff.rfl⟩ rfl
    | read hp hc =>
      refine hnone (if_neg fun hstarts => ?_) ?_
      · rw [hstarts.1] at hc
        cases hc
      · refine h.stay ?_ ?_ rfl
        · show (updateTimer _ _).1.cmdStartTimer = false
          unfold updateTimer
          split_ifs
          · exact h.acknowledged_store (by decide)
          · exact h.acknowledged
        · obtain ⟨registers, heq⟩ := updateTimer_eq d.peripheral (readingAt d.now d.peripheral)
          rw [Device.set, heq]
          exact ⟨rfl, rfl, fun _ => rfl, Iff.rfl⟩
    | writeRegisters hp hc =>
      exact h.write hp hc hfit rfl rfl (cmdStartTimer_processCommand _ _ _)
        ⟨rfl, rfl, fun _ => rfl, Iff.rfl⟩
    | writeMemory hp hc =>
      exact h.write hp hc hfit rfl rfl (cmdStartTimer_processCommand _ _ _)
        ⟨rfl, rfl, fun _ => rfl, Iff.rfl⟩
    | ignore hp hc =>
      refine hnone (if_neg fun hstarts => ?_) ?_
      · rw [hstarts.1] at hc
        cases hc
      · exact h.stay h.acknowledged ⟨rfl, rfl, fun _ => rfl, Iff.rfl⟩ rfl
  | @advance t ht hdone =>
    apply hnone rfl
    refine h.keep h.acknowledged ⟨rfl, rfl, fun _ => rfl, Iff.rfl⟩ ht ?_
    intro done hsome _
    rw [hsome] at hdone
    exact of_decide_eq_true hdone
  | fire hfire => exact h.fire hfire
  | stream hstream =>
    apply hnone rfl
    obtain ⟨i, fifo, hthread, rfl⟩ := streamByte_eq hstream
    refine h.stay h.acknowledged ⟨rfl, rfl, fun _ => rfl, ?_⟩ rfl
    refine iff_of_false ?_ ?_
    · show TimerThread.after i ≠ .waiting
      unfold TimerThread.after
      split_ifs <;> simp
    · simp [hthread]
  | receive =>
    apply hnone rfl
    refine h.stay (h.acknowledged_store ?_) ⟨rfl, rfl, fun _ => rfl, Iff.rfl⟩ rfl
    unfold memoryOffset cmdStartTimerOffset
    omega
  | take | arrive | assertIrq | delta =>
    apply hnone rfl
    exact h.stay h.acknowledged ⟨rfl, rfl, fun _ => rfl, Iff.rfl⟩ rfl

theorem timerInv_run {garbage : Bytes} {es : List DeviceEvent} {d : Device} {tr : List TimerEntry}
    (h : ((device garbage).observing timerEntries).Run es d tr) (hfit : Fits tr) :
    TimerInv d tr := by
  refine Machine.inv_run (M := (device garbage).observing timerEntries)
    (I := fun d tr => Fits tr → TimerInv d tr) ?_ ?_ h hfit
  · intro _
    refine ⟨rfl, ?_, ?_, Or.inl ⟨rfl, rfl, rfl⟩⟩
    · intro issued instant hmem
      cases hmem
    · apply Set.eq_empty_of_forall_notMem
      intro x hx
      obtain ⟨issued, hmem⟩ := hx
      cases hmem
  · intro d tr e d' o hI hs hfit
    obtain ⟨⟨out, hstep⟩, rfl⟩ := Machine.observing_step hs
    exact timerInv_step (hI hfit.left) hfit hstep

theorem TimerInv.rollsOver {d : Device} {tr : List TimerEntry} (h : TimerInv d tr) :
    RollsOver d.now.toNat tr := by
  rcases h.phase with hp | hd
  · refine ⟨by rw [hp.notYet]; exact Nat.zero_le _, ?_, ?_⟩
    · rw [hp.notYet]
      exact List.forall_mem_nil _
    · intro issued instant hmem hpast
      have hevent := hp.event
      have hearliest := h.earliest
      split_ifs at hevent hearliest
      · obtain ⟨done, -, hle, htime⟩ := hevent
        have hfirst := hearliest.2 ⟨issued, hmem⟩
        rw [UInt64.le_iff_toNat_le, htime] at hle
        omega
      · have : instant ∈ allStarts tr := ⟨issued, hmem⟩
        rw [hearliest] at this
        exact this.elim
  · obtain ⟨t, first, hroll, ht, hleast, heq⟩ := hd.rollover
    refine ⟨by rw [hroll]; exact Nat.le_refl _, ?_, fun _ _ _ _ => by rw [hroll]; rfl⟩
    intro t' ht'
    rw [hroll] at ht'
    cases List.mem_singleton.1 ht'
    exact ⟨first, hleast, heq⟩

/-- The event fires at the time of its notification. -/
theorem run_fire (l : Layout) (garbage : Bytes) {d : Device} {done : ScTime}
    (hsome : d.peripheral.timerDoneEvent = some done) (hle : d.now ≤ done)
    (hw : d.peripheral.timerThread = .waiting) :
    ∃ d', d'.now = done ∧
      (timerDevice l garbage).runFrom d [.advance done, .fire] =
        some (d', [.rollover done.toNat]) := by
  have hadvance : (l.device garbage).step d (.advance done) = some ({ d with now := done }, []) :=
    if_pos ⟨hle, by rw [hsome]; exact decide_eq_true (UInt64.le_refl done)⟩
  have hfire : (l.device garbage).step { d with now := done } .fire =
      some (({ d with now := done } : Device).set (timerDone d.peripheral), []) := if_pos hsome
  have hentry : timerEntries { d with now := done } .fire
      (({ d with now := done } : Device).set (timerDone d.peripheral)) =
        [.rollover done.toNat] := if_pos hw
  refine ⟨({ d with now := done } : Device).set (timerDone d.peripheral), rfl, ?_⟩
  have hrun : (timerDevice l garbage).runFrom d [.advance done, .fire] = some (_, _) :=
    Machine.runFrom_cons (Machine.step_observing hadvance)
      (Machine.runFrom_cons (Machine.step_observing hfire) Machine.runFrom_nil)
  rw [hentry, List.append_nil] at hrun
  exact hrun

/-- A timer that was started rolls over: it has, or time goes on to the notification. -/
theorem TimerInv.canRollOver (l : Layout) (garbage : Bytes) {d : Device} {tr : List TimerEntry}
    (h : TimerInv d tr) (hstarted : allStarts tr ≠ ∅) :
    ∃ es d' o, (timerDevice l garbage).runFrom d es = some (d', o) ∧
      (rollovers (tr ++ o)).length = 1 := by
  rcases h.phase with hp | hd
  · have hevent := hp.event
    have hearliest := h.earliest
    split_ifs at hevent hearliest
    · obtain ⟨done, hsome, hle, -⟩ := hevent
      obtain ⟨d', -, hrun⟩ := run_fire l garbage hsome hle hp.waiting
      refine ⟨_, d', _, hrun, ?_⟩
      rw [rollovers_rollover, hp.notYet]
      rfl
    · exact absurd hearliest hstarted
  · obtain ⟨t, first, hroll, -⟩ := hd.rollover
    exact ⟨[], d, [], rfl, by rw [List.append_nil, hroll]; rfl⟩

/-- **The rollover instant.** The timer thread runs once, one rollover after the earliest of the
starts issued before; it can always come to that; and every start command has been acknowledged. -/
theorem timer_rollover {l : Layout} {garbage : Bytes} {es : List DeviceEvent} {d : Device}
    {tr : List TimerEntry} (h : (timerDevice l garbage).Run es d tr)
    (hin : (timerDevice l garbage).Allowed (fun d _ e => Inside d e) es) (hfit : Fits tr) :
    RollsOver d.now.toNat tr ∧
      (allStarts tr ≠ ∅ → ∃ es' d' tr', (timerDevice l garbage).Run (es ++ es') d' tr' ∧
        (rollovers tr').length = 1) ∧
      d.peripheral.cmdStartTimer = false := by
  have hinv := timerInv_run (run_of_inside hin h) hfit
  refine ⟨hinv.rollsOver, ?_, hinv.acknowledged⟩
  intro hstarted
  obtain ⟨es', d', o, hrun, hroll⟩ := hinv.canRollOver l garbage hstarted
  exact ⟨es', d', _, Machine.runFrom_append h hrun, hroll⟩

/-- A write from the start of the register object. -/
def writeAll (data : List UInt8) (h : data.length < 2 ^ 32) : Payload where
  command := .write
  address := 0
  data := data
  responseStatus := .incomplete
  length_lt := h

theorem not_refused_writeAll (data : List UInt8) (h : data.length < 2 ^ 32) :
    ¬ Refused (writeAll data h) := by
  intro hrefused
  rcases hrefused with hwidth | henable
  · exact UInt32.lt_irrefl _ hwidth
  · cases henable

/-- A write of so many bytes, the first of them to `cmd_start_timer`. -/
def startWrite (n : Nat) (h : n < 2 ^ 32) : DeviceEvent :=
  .transport .regif 0
    (writeAll (List.replicate n 1) (Nat.lt_of_le_of_lt (Nat.le_of_eq List.length_replicate) h))

/-- A long write, overtaken by a short one, and another start when the timer rolls over. -/
def overtaken : List DeviceEvent :=
  [startWrite 40 (by decide), .advance 2000, startWrite 4 (by decide), .advance 4294967299000,
    startWrite 4 (by decide), .fire]

/-- The state of the timer right behind the register object, with zeros around it. -/
def closeLayout : Layout where
  startTime := 112
  startTimeValid := 120
  others _ _ := 0
  le_startTime := Nat.le_refl _
  le_startTimeValid := Nat.le_refl _
  lt_size := by decide

theorem timer_rollover_overtaken :
    ∃ d tr, (timerDevice closeLayout fun _ => 0).Run overtaken d tr ∧
      rollovers tr = [3000 + rolloverTime] ∧ RollsOver d.now.toNat tr := by
  have hrun : (timerDevice closeLayout fun _ => 0).Run overtaken _ [.start 0 10000,
    .start 2000 3000, .start 4294967299000 4294967300000, .rollover 4294967299000] := rfl
  refine ⟨_, _, hrun, by decide, (timer_rollover hrun (by decide) ?_).1⟩
  intro issued instant hmem
  unfold rolloverTime period
  simp only [List.mem_cons, TimerEntry.start.injEq, reduceCtorEq, List.not_mem_nil,
    or_false] at hmem
  omega

/-! ## A longer write -/

/-- A start command works on the state of the timer that its own bytes leave. -/
theorem step_start (l : Layout) (garbage : Bytes) {d : Device} {p : Payload}
    (hstarts : StartsTimer .regif p) (hack : d.peripheral.cmdStartTimer = false)
    (hfollowed : l.Followed d.peripheral 0 p.data) :
    ∃ d', (timerDevice l garbage).step d (.transport .regif 0 p) =
        some (d', [.start d.now.toNat (d.now.toNat + (p.data.length + 3) / 4 * period)]) ∧
      d'.now = d.now ∧
      SameTimer (startTimer d.now (transferDelay p.data.length)
        (l.overwrite 0 p.data d.peripheral)) d'.peripheral := by
  obtain ⟨hc, hp, hoff, hdata⟩ := hstarts
  have hstored : stored d (.transport .regif 0 p) = some (0, p.data) := by
    rw [stored, if_pos ⟨hc, hp⟩, hoff]
    rfl
  have hack' := (l.cmdStartTimer_overwrite d.peripheral 0 p.data).trans hack
  have hstep : (l.device garbage).step d (.transport .regif 0 p) =
      deviceStep (d.set (l.overwrite 0 p.data d.peripheral)) (.transport .regif 0 p) := by
    show l.step d (.transport .regif 0 p) = _
    simp only [Layout.step, hstored, if_pos hfollowed]
  generalize l.overwrite 0 p.data d.peripheral = s at hack' hstep ⊢
  have hset : ((d.set s).peripheral.storeRegisters (TargetIndex.regif.offset p.address)
      p.data).cmdStartTimer = true := (cmdStartTimer_storeRegisters hack' _ _).2 ⟨hoff, hdata⟩
  have hwritten : deviceStep (d.set s) (.transport .regif 0 p) =
      some (d.set ((startTimer d.now (transferDelay p.data.length)
        (s.storeRegisters (TargetIndex.regif.offset p.address) p.data)).storeRegisters
          cmdStartTimerOffset [0]), [.reply .regif (p.setResponseStatus .ok)
            (transferDelay p.data.length)]) := by
    rw [deviceStep, bTransport_writeRegisters _ _ _ _ hp hc, processCommandRegisterFields,
      if_pos hset]
    rfl
  have hseen : ((l.device garbage).observing timerEntries).step d (.transport .regif 0 p) = _ :=
    Machine.step_observing (hstep.trans hwritten)
  rw [timerEntries, if_pos ⟨hc, hp, hoff, hdata⟩] at hseen
  exact ⟨_, hseen, rfl, rfl, rfl, fun _ => rfl, Iff.rfl⟩

section LongWrite

variable (l : Layout) (garbage : Bytes)

/-- The bytes of a new module, with `start_time_valid` and `cmd_start_timer` set. -/
def allSet : Bytes :=
  ((l.image (.init garbage)).store l.startTimeValid [1]).store cmdStartTimerOffset [1]

/-- Everything up to `start_time_valid` is written back. -/
def overrun : Payload :=
  writeAll ((allSet l garbage).load 0 (l.startTimeValid + 1)) ((length_load ..).trans_lt l.lt_size)

theorem allSet_of_ne {i : Nat} (hzero : i ≠ 0) (hvalid : i ≠ l.startTimeValid) :
    allSet l garbage i = l.image (.init garbage) i := by
  rw [allSet, store_of_notMem, store_of_notMem]
  · simp only [List.length_singleton]
    omega
  · simp only [cmdStartTimerOffset, List.length_singleton]
    omega

theorem allSet_startTimeValid : allSet l garbage l.startTimeValid = 1 := by
  have hstart := l.le_startTime
  have hvalid := l.le_startTimeValid
  rw [allSet, store_of_notMem, store_of_mem (Nat.le_refl _) (Nat.lt_succ_self _), Nat.sub_self]
  · rfl
  · simp only [cmdStartTimerOffset, List.length_singleton]
    omega

theorem getD_overrun {i : Nat} (hi : i < l.startTimeValid + 1) :
    (overrun l garbage).data.getD i 0 = allSet l garbage i := by
  show ((allSet l garbage).load 0 (l.startTimeValid + 1)).getD i 0 = _
  rw [getD_load _ hi, Nat.zero_add]

theorem length_overrun : (overrun l garbage).data.length = l.startTimeValid + 1 := length_load ..

theorem store_overrun (b : Bytes) {i : Nat} (hi : i < l.startTimeValid + 1) :
    b.store 0 (overrun l garbage).data i = allSet l garbage i := by
  rw [store_of_mem (Nat.zero_le _) (by rw [length_overrun]; omega), Nat.sub_zero,
    getD_overrun _ _ hi]

theorem startsTimer_overrun : StartsTimer .regif (overrun l garbage) := by
  refine ⟨rfl, not_refused_writeAll _ _, rfl, ?_⟩
  have hfirst := getD_overrun l garbage (Nat.succ_pos l.startTimeValid)
  have hset : allSet l garbage 0 = 1 := store_of_mem (Nat.le_refl _) (by decide)
  rw [hset] at hfirst
  rw [List.headD_eq_head?_getD, List.head?_eq_getElem?, ← List.getD_eq_getElem?_getD, hfirst]
  decide

theorem followed_overrun : l.Followed (.init garbage) 0 (overrun l garbage).data := by
  have hsize := l.lt_size
  refine ⟨?_, ?_, ?_⟩
  · rw [length_overrun]
    omega
  · rw [store_overrun l garbage _ (Nat.lt_succ_self _), allSet_startTimeValid]
    exact UInt8.le_refl 1
  · intro k hk hout
    rw [length_overrun] at hk
    rw [Nat.zero_add] at hout ⊢
    have hzero : k ≠ 0 := by
      rintro rfl
      exact hout (Or.inl (by decide))
    have hvalid : k ≠ l.startTimeValid := fun heq => hout (Or.inr (Or.inr heq))
    rw [getD_overrun l garbage hk, allSet_of_ne l garbage hzero hvalid]

/-- The write makes a start out of the time that is in `start_time`. -/
theorem overwrite_overrun : l.overwrite 0 (overrun l garbage).data (.init garbage) =
    { Peripheral.init garbage with startTime := 0, startTimeValid := true } := by
  have hstart := l.le_startTime
  have hvalid := l.le_startTimeValid
  have hpos : 0 < registerInterfaceSize := by decide
  have htime :
      ((l.image (.init garbage)).store 0 (overrun l garbage).data).word64 l.startTime = 0 := by
    refine Eq.trans ?_ (l.word64_image (.init garbage))
    apply word64_congr
    intro i hi hend
    rw [store_overrun l garbage _ (by omega), allSet_of_ne l garbage (by omega) (by omega)]
  have hbool : (l.image (.init garbage)).store 0 (overrun l garbage).data l.startTimeValid = 1 := by
    rw [store_overrun l garbage _ (Nat.lt_succ_self _), allSet_startTimeValid]
  simp only [Layout.overwrite, htime, hbool]
  rfl

/-- The start instant that the write gives by its length. -/
def overrunInstant : Nat := ((overrun l garbage).data.length + 3) / 4 * period

theorem overrunInstant_mem : period ≤ overrunInstant l garbage ∧
    overrunInstant l garbage ≤ 2 ^ 30 * period := by
  have hsize := l.lt_size
  unfold overrunInstant period
  rw [length_overrun]
  omega

/-- The timer is started at the time 0, and not where the write says. -/
theorem step_overrun :
    ∃ d, (timerDevice l garbage).step (timerDevice l garbage).init
        (.transport .regif 0 (overrun l garbage)) =
          some (d, [.start 0 (overrunInstant l garbage)]) ∧
      d.now = 0 ∧ d.peripheral.timerThread = .waiting ∧
      d.peripheral.timerDoneEvent = some (2 ^ 32 * clockPeriod) := by
  obtain ⟨d, hstep, hnow, htimer⟩ := step_start l garbage (d := (timerDevice l garbage).init)
    (startsTimer_overrun l garbage) rfl (followed_overrun l garbage)
  have hinit : (timerDevice l garbage).init.peripheral = .init garbage := rfl
  rw [hinit, overwrite_overrun] at htimer
  refine ⟨d, ?_, hnow, htimer.waiting.2 rfl, (htimer.event rfl).trans ?_⟩
  · have hzero : (timerDevice l garbage).init.now.toNat = 0 := rfl
    rw [hstep, overrunInstant, hzero, Nat.zero_add]
  · have hmin (t : ScTime) : min 0 t = 0 := by
      rw [← UInt64.toNat_inj, UInt64.toNat_min]
      exact Nat.zero_min _
    simp only [startTimer, if_true, hmin]
    rfl

end LongWrite

/-- **A longer write moves the rollover**, wherever the state of the timer lies. -/
theorem rollover_of_overrun :
    ¬ ∃ (l : Layout) (garbage : Bytes), ∀ es d tr, (timerDevice l garbage).Run es d tr → Fits tr →
      RollsOver d.now.toNat tr := by
  intro h
  obtain ⟨l, garbage, hall⟩ := h
  obtain ⟨d, hstep, hnow, hw, hevent⟩ := step_overrun l garbage
  obtain ⟨d', hnow', hrun⟩ := run_fire l garbage hevent (by rw [hnow]; decide) hw
  obtain ⟨hle, hfit⟩ := overrunInstant_mem l garbage
  have hticks : (2 ^ 32 * clockPeriod).toNat = rolloverTime := by decide
  have hpos : 0 < period := by decide
  have hrolls := hall _ d' _ (Machine.runFrom_cons hstep hrun) ?_
  · obtain ⟨first, hfirst, heq⟩ := hrolls.instant rolloverTime (by
      rw [hticks]
      exact List.mem_singleton_self _)
    obtain ⟨issued, -, hmem⟩ := hfirst.1
    simp at hmem
    omega
  · intro issued instant hmem
    simp at hmem
    unfold rolloverTime
    unfold period at hfit ⊢
    omega

end RenodeSystemC.Peripherals
