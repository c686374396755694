import RenodeSystemC.Lib.Tlm
import RenodeSystemC.Lib.Machine

/-!
# Two versions of `port_interrupter`

An interrupter raises `irq_out`, waits for its interval, and raises it again, for ever; a write
transaction lowers it. There are two versions, one behind a TLM socket and one native, and both
take the interval as a constructor argument. They differ in what they wait for (`Variant.interval`)
and in what they leave in the payload (`Variant.answer`).

A run is a timed history: transactions at any time, the scheduler's choice of when the thread runs
among them, the ends of delta cycles, and the advance of time, which never goes past the end of a
wait and not before the port is up to date. Time is an exact number of picoseconds.

A history determines the waveform that `irq_out` ought to have (`required`): the level goes up at
every multiple of the interval, down with each write, and is seen at the ends of the delta cycles.

**Theorem (`alike_iff`).** Constructed with the interval `n`, the two versions drive that waveform
if and only if `n` is one second. With any longer interval, already the levels after one clearing
write in the first second differ (`earlyClear`).
-/

namespace RenodeSystemC.Interrupts

/-! ## State -/

/-- `SC_SEC`, in picoseconds. -/
def second : Nat := 1000000000000

/-- Where `interrupt_loop` is. -/
inductive LoopPc where
  /-- Before `irq_out.write(true)`. -/
  | runnable
  /-- In `wait`, until the given time. -/
  | waiting (wake : Nat)
  deriving DecidableEq, Repr

structure System where
  now : Nat
  irqOut : Signal Bool
  loop : LoopPc

inductive Event where
  /-- A transaction addressed to the interrupter. -/
  | transport (p : Payload)
  /-- The scheduler comes to `interrupt_loop`, which runs if it is runnable. -/
  | runLoop
  /-- The delta cycle ends. -/
  | delta
  /-- Time goes on to `t`. -/
  | advance (t : Nat)
  deriving DecidableEq

inductive Output where
  /-- `irq_out.write(true)`, by the thread. -/
  | raised (t : Nat)
  /-- `irq_out.write(false)`, by a transaction. -/
  | lowered (t : Nat)
  /-- The level after an update. -/
  | level (t : Nat) (b : Bool)
  /-- A transaction has been answered. -/
  | replied (p : Payload)
  deriving DecidableEq

/-! ## The two versions -/

/-- What the versions differ in. -/
structure Variant where
  /-- The argument of the thread's `wait`. -/
  interval : Nat
  /-- What the transport function makes of the payload. -/
  answer : Payload → Payload

/-- The native version: `irq_interval` is stored, and the thread waits one second. `b_transport`
leaves the payload alone. -/
def Native.portInterrupter (_irqInterval : Nat) : Variant where
  interval := 1 * second
  answer := id

/-- The version behind a socket. -/
def Socket.portInterrupter (irqIntervalS : Nat) : Variant where
  interval := irqIntervalS * second
  answer := fun p => p.setResponseStatus (if p.command = .write then .ok else .genericError)

/-- The transport function of both versions. -/
def Variant.transport (v : Variant) (sys : System) (p : Payload) : System × List Output :=
  if p.command = .write then
    ({ sys with irqOut := sys.irqOut.write fun _ => false },
      [.lowered sys.now, .replied (v.answer p)])
  else (sys, [.replied (v.answer p)])

/-- One round of `interrupt_loop`. -/
def Variant.interruptLoop (v : Variant) (sys : System) : System × List Output :=
  ({ sys with
      irqOut := sys.irqOut.write fun _ => true
      loop := .waiting (sys.now + v.interval) }, [.raised sys.now])

def Variant.step (v : Variant) (sys : System) : Event → Option (System × List Output)
  | .transport p => some (v.transport sys p)
  | .runLoop =>
    match sys.loop with
    | .runnable => some (v.interruptLoop sys)
    | .waiting _ => some (sys, [])
  | .delta =>
    match sys.loop with
    | .runnable => none
    | .waiting _ =>
      some ({ sys with irqOut := sys.irqOut.update }, [.level sys.now sys.irqOut.next])
  | .advance t =>
    match sys.loop with
    | .runnable => none
    | .waiting wake =>
      if sys.now < t ∧ t ≤ wake ∧ sys.irqOut.current = sys.irqOut.next then
        some ({ sys with now := t, loop := if t = wake then .runnable else .waiting wake }, [])
      else none

/-- The interrupter after elaboration: the thread runs in the first evaluation phase. -/
def Variant.machine (v : Variant) : Machine System Event Output where
  init := ⟨0, ⟨false, false⟩, .runnable⟩
  step := v.step

/-! ## Waveforms -/

/-- The level of `irq_out`, when a delta cycle ends. -/
def Output.atLevel : Output → Option (Nat × Bool)
  | .level t b => some (t, b)
  | _ => none

/-- The waveform of `irq_out`. -/
def levels (tr : List Output) : List (Nat × Bool) := tr.filterMap Output.atLevel

def Output.raisedAt : Output → Option Nat
  | .raised t => some t
  | _ => none

/-- The times at which the thread has raised the interrupt. -/
def raises (tr : List Output) : List Nat := tr.filterMap Output.raisedAt

/-- The level that was written last. -/
def written (tr : List Output) : Bool :=
  tr.foldl (fun level x =>
    match x with
    | .raised _ => true
    | .lowered _ => false
    | _ => level) false

/-- Raised at every multiple of the period, lowered by each write, and otherwise unchanged. -/
structure Periodic (period : Nat) (sys : System) (tr : List Output) : Prop where
  raised : sys.loop ≠ .runnable → raises tr = (List.range (sys.now / period + 1)).map (· * period)
  level : sys.irqOut.next = written tr

/-- What an interrupter is for. -/
structure Required where
  now : Nat
  /-- The next multiple of the period. -/
  due : Nat
  level : Bool

/-- The level goes up at every multiple of the period, where the scheduler comes to the thread, and
down with each write. -/
def Required.step (period : Nat) (r : Required) : Event → Required × List (Nat × Bool)
  | .transport p => ({ r with level := if p.command = .write then false else r.level }, [])
  | .runLoop =>
    if r.now = r.due then ({ r with level := true, due := r.due + period }, []) else (r, [])
  | .delta => (r, [(r.now, r.level)])
  | .advance t => ({ r with now := t }, [])

def Required.replay (period : Nat) (es : List Event) : Required × List (List (Nat × Bool)) :=
  Machine.replay (Required.step period) ⟨0, 0, false⟩ es

/-- The waveform that a history ought to give. -/
def required (period : Nat) (es : List Event) : List (Nat × Bool) :=
  (Required.replay period es).2.flatten

/-- In every run the level is the required one, at the end of every delta cycle. -/
def Drives (period : Nat) (v : Variant) : Prop :=
  ∀ es s tr, v.machine.Run es s tr → levels tr = required period es

/-- Both versions, constructed with the interval `n`, drive the waveform with that interval, and so
the same one in every history that both take. -/
structure Alike (n : Nat) : Prop where
  native : Drives (n * second) (Native.portInterrupter n)
  socket : Drives (n * second) (Socket.portInterrupter n)
  same : ∀ es s tr s' tr', (Native.portInterrupter n).machine.Run es s tr →
    (Socket.portInterrupter n).machine.Run es s' tr' → levels tr = levels tr'

/-! ## The waveform of one version -/

section Traces

variable (tr o : List Output)

theorem raises_append : raises (tr ++ o) = raises tr ++ raises o := List.filterMap_append

theorem levels_append : levels (tr ++ o) = levels tr ++ levels o := List.filterMap_append

end Traces

/-- The thread is on time. -/
structure OnTime (period : Nat) (sys : System) (tr : List Output) : Prop where
  runnable : sys.loop = .runnable → sys.now % period = 0 ∧
    raises tr = (List.range (sys.now / period)).map (· * period)
  waiting : ∀ wake, sys.loop = .waiting wake → wake = (sys.now / period + 1) * period ∧
    raises tr = (List.range (sys.now / period + 1)).map (· * period)
  level : sys.irqOut.next = written tr

theorem OnTime.periodic {period : Nat} {sys : System} {tr : List Output}
    (h : OnTime period sys tr) : Periodic period sys tr := by
  refine ⟨?_, h.level⟩
  intro hl
  cases hloop : sys.loop with
  | runnable => exact absurd hloop hl
  | waiting wake => exact (h.waiting wake hloop).2

/-- A step that leaves the thread and the time alone. -/
theorem OnTime.frame {period : Nat} {sys sys' : System} {tr o : List Output}
    (h : OnTime period sys tr) (hnow : sys'.now = sys.now) (hloop : sys'.loop = sys.loop)
    (ho : raises o = []) (hlevel : sys'.irqOut.next = written (tr ++ o)) :
    OnTime period sys' (tr ++ o) := by
  have hraises : raises (tr ++ o) = raises tr := by rw [raises_append, ho, List.append_nil]
  refine ⟨?_, ?_, hlevel⟩
  · rw [hloop, hnow, hraises]
    exact h.runnable
  · rw [hloop, hnow, hraises]
    exact h.waiting

/-- The thread comes to its next wait. -/
theorem OnTime.interruptLoop {v : Variant} {sys : System} {tr : List Output}
    (h : OnTime v.interval sys tr) (hl : sys.loop = .runnable) :
    OnTime v.interval (v.interruptLoop sys).1 (tr ++ (v.interruptLoop sys).2) := by
  obtain ⟨hmod, hraises⟩ := h.runnable hl
  have hnow : sys.now / v.interval * v.interval = sys.now :=
    Nat.div_mul_cancel (Nat.dvd_of_mod_eq_zero hmod)
  refine ⟨?_, ?_, ?_⟩
  · intro heq
    cases heq
  · intro wake heq
    cases heq
    refine ⟨?_, ?_⟩
    · show sys.now + v.interval = (sys.now / v.interval + 1) * v.interval
      rw [Nat.succ_mul, hnow]
    · rw [raises_append, hraises, List.range_succ, List.map_append]
      show (List.range (sys.now / v.interval)).map _ ++ [sys.now] =
        (List.range (sys.now / v.interval)).map _ ++ [sys.now / v.interval * v.interval]
      rw [hnow]
  · simp [Variant.interruptLoop, written]

/-- Time goes on, at most to the end of the wait. -/
theorem OnTime.advance {period : Nat} {sys : System} {tr : List Output} {t wake : Nat}
    (hperiod : 0 < period) (h : OnTime period sys tr) (hl : sys.loop = .waiting wake)
    (hlt : sys.now < t) (hle : t ≤ wake) :
    OnTime period
      { sys with now := t, loop := if t = wake then .runnable else .waiting wake } tr := by
  obtain ⟨hwake, hraises⟩ := h.waiting wake hl
  by_cases ht : t = wake
  · have hdiv : t / period = sys.now / period + 1 := by
      rw [ht, hwake, Nat.mul_div_cancel _ hperiod]
    simp only [ht, if_true]
    rw [← ht]
    refine ⟨fun _ => ⟨?_, ?_⟩, ?_, h.level⟩
    · show t % period = 0
      rw [ht, hwake, Nat.mul_mod_left]
    · show _ = (List.range (t / period)).map _
      rw [hdiv, hraises]
    · intro wake' heq
      cases heq
  · have hdiv : t / period = sys.now / period := by
      refine le_antisymm ?_ (Nat.div_le_div_right hlt.le)
      rw [← Nat.lt_succ_iff, Nat.div_lt_iff_lt_mul hperiod, Nat.succ_eq_add_one, ← hwake]
      exact lt_of_le_of_ne hle ht
    simp only [ht, if_false]
    refine ⟨?_, ?_, h.level⟩
    · intro heq
      cases heq
    · intro wake' heq
      cases heq
      show wake = (t / period + 1) * period ∧ _ = (List.range (t / period + 1)).map _
      rw [hdiv]
      exact ⟨hwake, hraises⟩

theorem onTime_step {v : Variant} {sys sys' : System} {tr o : List Output} {e : Event}
    (hv : 0 < v.interval) (h : OnTime v.interval sys tr) (hs : v.step sys e = some (sys', o)) :
    OnTime v.interval sys' (tr ++ o) := by
  cases e with
  | transport p =>
    simp only [Variant.step, Variant.transport, Option.some.injEq] at hs
    split_ifs at hs with hp
    · cases hs
      exact h.frame rfl rfl rfl (by simp [written])
    · cases hs
      exact h.frame rfl rfl rfl (by simpa [written] using h.level)
  | runLoop =>
    simp only [Variant.step] at hs
    split at hs
    · rename_i hl
      cases hs
      exact h.interruptLoop hl
    · cases hs
      rw [List.append_nil]
      exact h
  | delta =>
    simp only [Variant.step] at hs
    split at hs
    · cases hs
    · cases hs
      exact h.frame rfl rfl rfl (by simpa [written, Signal.update] using h.level)
  | advance t =>
    simp only [Variant.step] at hs
    split at hs
    · cases hs
    · rename_i wake hl
      by_cases hadv : sys.now < t ∧ t ≤ wake ∧ sys.irqOut.current = sys.irqOut.next
      · rw [if_pos hadv] at hs
        cases hs
        rw [List.append_nil]
        exact h.advance hv hl hadv.1 hadv.2.1
      · rw [if_neg hadv] at hs
        cases hs

/-- **Every version is periodic**, with the interval it waits for. -/
theorem periodic_run {v : Variant} (hv : 0 < v.interval) {es : List Event} {sys : System}
    {tr : List Output} (h : v.machine.Run es sys tr) : Periodic v.interval sys tr := by
  refine (Machine.inv_run (I := OnTime v.interval) ?_ ?_ h).periodic
  · refine ⟨fun _ => ⟨Nat.zero_mod _, ?_⟩, ?_, rfl⟩
    · show [] = (List.range (0 / v.interval)).map _
      rw [Nat.zero_div]
      rfl
    · intro wake heq
      cases heq
  · intro sys tr e sys' o hI hs
    exact onTime_step hv hI hs

/-! ## Levels -/

/-- The state keeps up with what is required. -/
structure KeepsUp (sys : System) (r : Required) : Prop where
  now : r.now = sys.now
  level : r.level = sys.irqOut.next
  runnable : sys.loop = .runnable → r.due = sys.now
  waiting : ∀ wake, sys.loop = .waiting wake → r.due = wake ∧ sys.now < wake

theorem keepsUp_step {v : Variant} {sys sys' : System} {r : Required} {o : List Output} {e : Event}
    (hv : 0 < v.interval) (h : KeepsUp sys r) (hs : v.step sys e = some (sys', o)) :
    KeepsUp sys' (r.step v.interval e).1 ∧ levels o = (r.step v.interval e).2 := by
  obtain ⟨hnow, hlevel, hrunnable, hwaiting⟩ := h
  cases e with
  | transport p =>
    simp only [Variant.step, Variant.transport, Option.some.injEq] at hs
    split_ifs at hs with hp
    · cases hs
      exact ⟨⟨hnow, if_pos hp, hrunnable, hwaiting⟩, rfl⟩
    · cases hs
      exact ⟨⟨hnow, (if_neg hp).trans hlevel, hrunnable, hwaiting⟩, rfl⟩
  | runLoop =>
    simp only [Variant.step] at hs
    split at hs
    · rename_i hl
      cases hs
      have hdue : r.now = r.due := hnow.trans (hrunnable hl).symm
      rw [Required.step, if_pos hdue]
      refine ⟨⟨hnow, rfl, ?_, ?_⟩, rfl⟩
      · intro heq
        cases heq
      · intro wake heq
        cases heq
        exact ⟨congrArg (· + v.interval) (hrunnable hl), Nat.lt_add_of_pos_right hv⟩
    · rename_i wake hl
      cases hs
      obtain ⟨hdue, hlt⟩ := hwaiting wake hl
      rw [Required.step, if_neg (by omega)]
      exact ⟨⟨hnow, hlevel, hrunnable, hwaiting⟩, rfl⟩
  | delta =>
    simp only [Variant.step] at hs
    split at hs
    · cases hs
    · cases hs
      refine ⟨⟨hnow, hlevel, hrunnable, hwaiting⟩, ?_⟩
      rw [Required.step, hnow, hlevel]
      rfl
  | advance t =>
    simp only [Variant.step] at hs
    split at hs
    · cases hs
    · rename_i wake hl
      obtain ⟨hdue, -⟩ := hwaiting wake hl
      split_ifs at hs with hadv ht
      · cases hs
        refine ⟨⟨rfl, hlevel, fun _ => hdue.trans ht.symm, ?_⟩, rfl⟩
        intro wake' heq
        cases heq
      · cases hs
        refine ⟨⟨rfl, hlevel, ?_, ?_⟩, rfl⟩
        · intro heq
          cases heq
        · intro wake' heq
          cases heq
          exact ⟨hdue, lt_of_le_of_ne hadv.2.1 ht⟩

/-- **Every version drives the waveform of the interval it waits for.** -/
theorem drives (v : Variant) (hv : 0 < v.interval) : Drives v.interval v := by
  intro es s tr h
  have key := Machine.inv_run_history (M := v.machine)
    (I := fun es s tr => KeepsUp s (Required.replay v.interval es).1 ∧
      levels tr = required v.interval es) ?_ ?_ h
  · exact key.2
  · refine ⟨⟨rfl, rfl, fun _ => rfl, ?_⟩, rfl⟩
    intro wake heq
    cases heq
  · intro es s tr e s' o hI hs
    obtain ⟨hkeeps, hlevels⟩ := hI
    obtain ⟨hkeeps', ho⟩ := keepsUp_step hv hkeeps hs
    rw [required, Required.replay, Machine.replay_concat]
    refine ⟨hkeeps', ?_⟩
    rw [levels_append, hlevels, ho, List.flatten_append, List.flatten_singleton]
    rfl

/-! ## Comparing versions -/

/-- A clearing write. -/
def clear : Payload where
  command := .write
  address := 0
  data := [0]
  responseStatus := .incomplete
  length_lt := Payload.byteLength_lt
  streamingWidth := 1
  byteEnable := false

/-- A clearing write half a second after the start. -/
def earlyClear : List Event :=
  [.runLoop, .delta, .advance (second / 2), .transport clear, .delta, .advance second, .runLoop,
    .delta]

section EarlyClear

variable {v : Variant}

theorem second_half : 0 < second / 2 ∧ second / 2 < second := by decide

/-- A version that waits one second is high again then. -/
theorem levels_earlyClear_of_eq (hv : v.interval = second) : ∃ s tr, v.machine.Run earlyClear s tr ∧
    levels tr = [(0, true), (second / 2, false), (second, true)] := by
  obtain ⟨hpos, hlt⟩ := second_half
  refine ⟨⟨second, ⟨true, true⟩, .waiting (second + second)⟩,
    [.raised 0, .level 0 true, .lowered (second / 2), .replied (v.answer clear),
      .level (second / 2) false, .raised second, .level second true], ?_, rfl⟩
  simp [Machine.Run, Machine.runFrom, Variant.machine, Variant.step, Variant.interruptLoop,
    Variant.transport, clear, earlyClear, Signal.write, Signal.update, hv, hpos, hlt, hlt.le,
    hlt.ne]

/-- A version that waits longer is still low. -/
theorem levels_earlyClear_of_lt (hv : second < v.interval) : ∃ s tr, v.machine.Run earlyClear s tr ∧
    levels tr = [(0, true), (second / 2, false), (second, false)] := by
  obtain ⟨hpos, hlt⟩ := second_half
  have hhalf : second / 2 < v.interval := hlt.trans hv
  refine ⟨⟨second, ⟨false, false⟩, .waiting v.interval⟩,
    [.raised 0, .level 0 true, .lowered (second / 2), .replied (v.answer clear),
      .level (second / 2) false, .level second false], ?_, rfl⟩
  simp [Machine.Run, Machine.runFrom, Variant.machine, Variant.step, Variant.interruptLoop,
    Variant.transport, clear, earlyClear, Signal.write, Signal.update, hpos, hlt, hhalf.le,
    hhalf.ne, hv.le, hv.ne]

end EarlyClear

/-- With an interval of more than a second, the versions differ after one early clearing write. -/
theorem differ_earlyClear {n : Nat} (hn : 2 ≤ n) : ∃ s tr s' tr',
    (Native.portInterrupter n).machine.Run earlyClear s tr ∧
      (Socket.portInterrupter n).machine.Run earlyClear s' tr' ∧ levels tr ≠ levels tr' := by
  have hlonger : second < (Socket.portInterrupter n).interval := by
    show second < n * second
    have htwo : 2 * second ≤ n * second := Nat.mul_le_mul_right _ hn
    have hpos : 0 < second := by decide
    omega
  obtain ⟨s, tr, hrun, hhigh⟩ := levels_earlyClear_of_eq (v := Native.portInterrupter n) rfl
  obtain ⟨s', tr', hrun', hlow⟩ := levels_earlyClear_of_lt hlonger
  refine ⟨s, tr, s', tr', hrun, hrun', ?_⟩
  rw [hhigh, hlow]
  simp

/-- **The versions are alike exactly for the interval of one second.** -/
theorem alike_iff {n : Nat} (hn : 1 ≤ n) : Alike n ↔ n = 1 := by
  constructor
  · intro h
    by_contra hne
    obtain ⟨s, tr, s', tr', hrun, hrun', hdiffer⟩ := differ_earlyClear (n := n) (by omega)
    exact hdiffer (h.same _ _ _ _ _ hrun hrun')
  · intro hn
    subst hn
    have hnative := drives (Native.portInterrupter 1) (by decide)
    have hsocket := drives (Socket.portInterrupter 1) (by decide)
    refine ⟨hnative, hsocket, ?_⟩
    intro es s tr s' tr' h h'
    exact (hnative _ _ _ h).trans (hsocket _ _ _ h').symm

theorem alike_oneSecond : Alike 1 := (alike_iff (le_refl 1)).2 rfl

/-- **The second interrupter of the example differs from its counterpart**: one second after the
start, and half a second after a clearing write, its output is high, and that of the other one is
low. -/
theorem not_alike_threeSeconds : ¬ ∀ n, 1 ≤ n → Alike n := by
  intro h
  obtain ⟨s, tr, s', tr', hrun, hrun', hdiffer⟩ := differ_earlyClear (Nat.le_succ 2)
  exact hdiffer ((h 3 (by decide)).same _ _ _ _ _ hrun hrun')

end RenodeSystemC.Interrupts
