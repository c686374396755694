import RenodeSystemC.CortexM.SignalsPeripheral

/-!
# Software holding the core in reset

Two processes write `out_core_reset_in`: `handle_write`, with the level software asks for, and
`on_system_reset_request`, which raises the port for one delta cycle. The signal behind the port is
one that accepts more than one writer, and the last write of a delta cycle wins; a signal with the
default policy of `sc_signal` reports the second writer as an error.

The port belongs to software if a reset request never takes it away (`ResetKept`): from the reply
to a nonzero write until a zero is written the port is high, and a delta cycle that ends with no
pulse under way leaves it at the level that software wrote last.

**Theorem (`resetKept_iff`).** That is so in every state of a run in which no pulse ends while the
level last written by software is high, unless software writes the port once more in the same delta
cycle. Every other run breaks it, by the end of that delta cycle at the latest.
-/

namespace RenodeSystemC.CortexM

/-! ## What software asked for -/

/-- A nonzero write to `CoreResetIn`. -/
def holdsReset (p : Payload) : Bool :=
  p.command != .read && p.address == 1001 && newSignalState p

/-- The level that software wrote last, low if there is none. -/
def softwareLevel (tr : List Output) : Bool :=
  tr.foldl (fun level x =>
    match x with
    | .wroteReset level' => level'
    | .replied _ => level) false

/-- A nonzero write has completed, and no zero has been written since. -/
def softwareHolds (tr : List Output) : Bool :=
  tr.foldl (fun held x =>
    match x with
    | .wroteReset level => held && level
    | .replied p => held || holdsReset p) false

/-- The core reset is as software left it. -/
structure ResetKept (sys : System) (tr : List Output) : Prop where
  held : softwareHolds tr = true → sys.outputs.current.coreResetIn = true
  /-- At the end of a delta cycle, between pulses, the port is updated to the level software
  wrote. -/
  settled : sys.runnable = false → sys.pulse = .waitEdge →
    sys.outputs.update.current.coreResetIn = softwareLevel tr

/-- `handle_write` has still to write the port in this delta cycle. -/
def System.writesReset (sys : System) : Bool :=
  sys.call.any fun c =>
    c.phase == .yielded && (c.payload.command != .read && c.payload.address == 1001)

/-- If the thread is about to end its pulse, software does not hold the port, or writes it next. -/
def PulseEndsLow (sys : System) (tr : List Output) : Event → Prop
  | .runPulse => sys.pulse = .resumed → softwareLevel tr = false ∨ sys.writesReset = true
  | _ => True

instance (sys : System) (tr : List Output) (e : Event) : Decidable (PulseEndsLow sys tr e) := by
  unfold PulseEndsLow
  split <;> infer_instance

section Traces

variable (tr : List Output)

@[simp] theorem softwareLevel_wroteReset (level : Bool) :
    softwareLevel (tr ++ [.wroteReset level]) = level := by
  simp [softwareLevel]

@[simp] theorem softwareHolds_wroteReset (level : Bool) :
    softwareHolds (tr ++ [.wroteReset level]) = (softwareHolds tr && level) := by
  simp [softwareHolds]

@[simp] theorem softwareLevel_reply (sys : System) (p : Payload) :
    softwareLevel (tr ++ (sys.reply p).2) = softwareLevel tr := by
  simp [softwareLevel, System.reply]

@[simp] theorem softwareHolds_reply (sys : System) (p : Payload) :
    softwareHolds (tr ++ (sys.reply p).2) = (softwareHolds tr || holdsReset p) := by
  simp [softwareHolds, System.reply, holdsReset, newSignalState, firstByte,
    Payload.setResponseStatus]

end Traces

section Writes

variable {sys : System}

/-- A call that has not come to the write, or is past it. -/
theorem writesReset_of_phase {p : Payload} {phase : Phase} (hc : sys.call = some ⟨p, phase⟩)
    (hphase : phase ≠ .yielded) : sys.writesReset = false := by
  simp [System.writesReset, hc, hphase]

theorem writesReset_of_none (hc : sys.call = none) : sys.writesReset = false := by
  simp [System.writesReset, hc]

/-- Only a call that is runnable writes. -/
theorem writesReset_of_runnable (h : sys.runnable = false) : sys.writesReset = false := by
  cases hc : sys.call with
  | none => exact writesReset_of_none hc
  | some c =>
    apply writesReset_of_phase hc
    intro hphase
    simp [System.runnable, hc, hphase, Phase.runnable] at h

end Writes

/-! ## The invariant -/

/-- What a nonzero write that is being served has achieved so far. -/
def CallInv (sys : System) (tr : List Output) : Prop :=
  ∀ p phase, sys.call = some ⟨p, phase⟩ → holdsReset p = true →
    match phase with
    | .yielding | .yielded => True
    | .committing => softwareLevel tr = true
    | .committed | .settling | .settled =>
      softwareLevel tr = true ∧ sys.outputs.current.coreResetIn = true

/-- The invariant of the runs in which every pulse ends low. Before a write by software that has
still to come in the delta cycle, the port may have anything written to it. -/
structure ResetInv (sys : System) (tr : List Output) : Prop where
  next : sys.writesReset = false → softwareLevel tr = true → sys.outputs.next.coreResetIn = true
  idle : sys.writesReset = false → sys.pulse = .waitEdge ∨ sys.pulse = .woken →
    sys.outputs.next.coreResetIn = softwareLevel tr
  held : softwareHolds tr = true → softwareLevel tr = true ∧ sys.outputs.current.coreResetIn = true
  call : CallInv sys tr

theorem ResetInv.resetKept {sys : System} {tr : List Output} (h : ResetInv sys tr) :
    ResetKept sys tr :=
  ⟨fun hheld => (h.held hheld).2,
    fun hr hp => h.idle (writesReset_of_runnable hr) (Or.inl hp)⟩

/-- A step that neither writes the port nor moves the thread, and after which software has asked for
the same, keeps the invariant. -/
theorem ResetInv.frame {sys sys' : System} {tr tr' : List Output} (h : ResetInv sys tr)
    (hout : sys'.outputs.current.coreResetIn = sys.outputs.current.coreResetIn ∧
      sys'.outputs.next.coreResetIn = sys.outputs.next.coreResetIn)
    (hpulse : sys'.pulse = sys.pulse)
    (hwrites : sys'.writesReset = false → sys.writesReset = false)
    (htr : softwareLevel tr' = softwareLevel tr ∧ softwareHolds tr' = softwareHolds tr)
    (hcall : CallInv sys' tr') : ResetInv sys' tr' := by
  refine ⟨?_, ?_, ?_, hcall⟩
  · rw [hout.2, htr.1]
    exact fun hw => h.next (hwrites hw)
  · rw [hpulse, hout.2, htr.1]
    exact fun hw => h.idle (hwrites hw)
  · rw [htr.1, htr.2, hout.1]
    exact h.held

/-- The end of a delta cycle moves a call on, and shows it the level that was written. -/
theorem callInv_endDelta {sys : System} {tr : List Output} (h : ResetInv sys tr)
    (hr : sys.runnable = false) : CallInv sys.endDelta tr := by
  intro p phase hc hp
  simp only [System.endDelta, Option.map_eq_some_iff] at hc
  obtain ⟨⟨q, phase₀⟩, hc₀, heq⟩ := hc
  cases heq
  have hcall := h.call q phase₀ hc₀ hp
  have hnext := h.next (writesReset_of_runnable hr)
  cases phase₀ with
  | yielding => trivial
  | committing => exact ⟨hcall, hnext hcall⟩
  | settling => exact ⟨hcall.1, hnext hcall.1⟩
  | yielded | committed | settled => simp [System.runnable, hc₀, Phase.runnable] at hr

/-- The end of a delta cycle shows the port the level that was written last. -/
theorem resetInv_endDelta {sys : System} {tr : List Output} (h : ResetInv sys tr)
    (hr : sys.runnable = false) : ResetInv sys.endDelta tr := by
  have hwrites := writesReset_of_runnable hr
  refine ⟨fun _ => h.next hwrites, ?_, ?_, callInv_endDelta h hr⟩
  · intro _ hp
    apply h.idle hwrites
    cases hpulse : sys.pulse with
    | waitEdge | woken => simp
    | waitZero | resumed => simp [System.endDelta, PulsePc.afterDelta, hpulse] at hp
  · intro hheld
    obtain ⟨hlevel, -⟩ := h.held hheld
    exact ⟨hlevel, h.next hwrites hlevel⟩

/-- Software writes the port: it has asked for that level from now on. -/
theorem ResetInv.writeReset {sys sys' : System} {tr : List Output} (h : ResetInv sys tr)
    {p : Payload} {level : Bool} (hlevel : newSignalState p = level)
    (hcall : sys'.call = some ⟨p, .committing⟩)
    (hcurrent : sys'.outputs.current = sys.outputs.current)
    (hnext : sys'.outputs.next.coreResetIn = level) :
    ResetInv sys' (tr ++ [.wroteReset level]) := by
  refine ⟨?_, ?_, ?_, ?_⟩
  · rw [softwareLevel_wroteReset, hnext]
    exact fun _ => id
  · rw [softwareLevel_wroteReset, hnext]
    exact fun _ _ => rfl
  · simp only [softwareHolds_wroteReset, softwareLevel_wroteReset, Bool.and_eq_true, hcurrent]
    intro hholds
    obtain ⟨hheld, hlevel⟩ := hholds
    exact ⟨hlevel, (h.held hheld).2⟩
  · intro q phase heq hq
    cases hcall.symm.trans heq
    simp only [holdsReset, Bool.and_eq_true] at hq
    simpa [← hlevel] using hq.2

/-- A call returns: a nonzero write of the port has reached it by then. -/
theorem ResetInv.reply {sys : System} {tr : List Output} (h : ResetInv sys tr) {p : Payload}
    (hc : sys.call = some ⟨p, .settled⟩) : ResetInv (sys.reply p).1 (tr ++ (sys.reply p).2) := by
  have hwrites : sys.writesReset = false := writesReset_of_phase hc (by decide)
  refine ⟨?_, ?_, ?_, ?_⟩
  · rw [softwareLevel_reply]
    exact fun _ => h.next hwrites
  · rw [softwareLevel_reply]
    exact fun _ => h.idle hwrites
  · simp only [softwareHolds_reply, softwareLevel_reply, Bool.or_eq_true]
    intro hholds
    rcases hholds with hheld | hp
    · exact h.held hheld
    · exact h.call p .settled hc hp
  · intro p' phase heq
    cases heq

theorem resetInv_step {sys sys' : System} {tr o : List Output} {e : Event} (h : ResetInv sys tr)
    (hG : PulseEndsLow sys tr e) (hs : Stepped sys e sys' o) : ResetInv sys' (tr ++ o) := by
  cases hs with
  | request p hc =>
    rw [List.append_nil]
    refine h.frame ⟨rfl, rfl⟩ rfl (fun _ => writesReset_of_none hc) ⟨rfl, rfl⟩ ?_
    rintro q phase ⟨⟩ -
    trivial
  | drive input level =>
    rw [List.append_nil]
    exact h.frame ⟨rfl, rfl⟩ rfl id ⟨rfl, rfl⟩ h.call
  | @read p q hc hp hq =>
    have hread : holdsReset q = false := by simp [holdsReset, hq, hp]
    have hwrites : sys.writesReset = false := by simp [System.writesReset, hc, hp]
    refine h.frame ⟨rfl, rfl⟩ rfl (fun _ => hwrites) ⟨by simp, by simp [hread]⟩ ?_
    intro p' phase heq
    cases heq
  | writeReset => exact h.writeReset rfl rfl rfl rfl
  | @writeOther p f phase hc ha hf =>
    rw [List.append_nil]
    have hwrites : sys.writesReset = false := by simp [System.writesReset, hc, ha]
    refine h.frame ⟨rfl, hf _⟩ rfl (fun _ => hwrites) ⟨rfl, rfl⟩ ?_
    intro q phase' heq hq
    cases heq
    simp [holdsReset, ha] at hq
  | abort =>
    rw [List.append_nil]
    exact h.frame ⟨rfl, rfl⟩ rfl id ⟨rfl, rfl⟩ h.call
  | @commit p hc =>
    rw [List.append_nil]
    have hwrites : sys.writesReset = false := writesReset_of_phase hc (by decide)
    refine h.frame ⟨rfl, rfl⟩ rfl (fun _ => hwrites) ⟨rfl, rfl⟩ ?_
    intro q phase heq hq
    cases heq
    exact h.call p .committed hc hq
  | reply hc => exact h.reply hc
  | rise hp =>
    rw [List.append_nil]
    refine ⟨fun _ _ => rfl, ?_, h.held, h.call⟩
    intro _ hidle
    rcases hidle with hp' | hp' <;> cases hp'
  | fall hp =>
    rw [List.append_nil]
    have hlow : sys.writesReset = false → softwareLevel tr = false := fun hw =>
      (hG hp).resolve_right fun hwrites => Bool.false_ne_true (hw.symm.trans hwrites)
    refine ⟨fun hw hlevel => ?_, fun hw _ => (hlow hw).symm, h.held, h.call⟩
    rw [hlow hw] at hlevel
    cases hlevel
  | delta hr =>
    rw [List.append_nil]
    exact resetInv_endDelta h hr

/-! ## Runs -/

theorem resetInv_init (ndebug : Bool) : ResetInv (signalsPeripheral ndebug).init [] := by
  refine ⟨?_, fun _ _ => rfl, ?_, ?_⟩
  · intro _ heq
    cases heq
  · intro heq
    cases heq
  · intro p phase heq
    cases heq

/-- A pulse has taken the port away in this delta cycle, and nobody will give it back. -/
structure Taken (sys : System) (tr : List Output) : Prop where
  running : sys.runnable = true
  pulse : sys.pulse = .waitEdge
  low : sys.outputs.next.coreResetIn = false
  level : softwareLevel tr = true
  noWrite : sys.writesReset = false

/-- What has been taken away is missing when the delta cycle ends. -/
theorem taken_of_resetKept {sys : System} {tr : List Output} (h : ResetKept sys tr)
    (hpulse : sys.pulse = .waitEdge) (hlow : sys.outputs.next.coreResetIn = false)
    (hlevel : softwareLevel tr = true) (hwrites : sys.writesReset = false) : Taken sys tr := by
  refine ⟨?_, hpulse, hlow, hlevel, hwrites⟩
  by_contra hr
  have hsettled := h.settled (Bool.eq_false_of_not_eq_true hr) hpulse
  rw [hlevel] at hsettled
  exact Bool.false_ne_true (hlow.symm.trans hsettled)

/-- A pulse that ends while software holds the port takes it away. -/
theorem taken_of_fall {ndebug : Bool} {sys sys' : System} {tr o : List Output} {e : Event}
    (hG : ¬ PulseEndsLow sys tr e) (hs : step ndebug sys e = some (sys', o))
    (hkept : ResetKept sys' (tr ++ o)) : Taken sys' (tr ++ o) := by
  cases stepped hs with
  | rise hp => exact absurd (fun hp' => absurd (hp.symm.trans hp') (by decide)) hG
  | fall hp =>
    rw [List.append_nil] at hkept ⊢
    simp only [PulseEndsLow, Classical.not_imp, not_or, Bool.not_eq_false, Bool.not_eq_true] at hG
    obtain ⟨-, hlevel, hwrites⟩ := hG
    exact taken_of_resetKept hkept rfl rfl hlevel hwrites
  | _ => exact absurd trivial hG

/-- Nobody gives the port back in the delta cycle. -/
theorem taken_step {ndebug : Bool} {sys sys' : System} {tr o : List Output} {e : Event}
    (h : Taken sys tr) (hs : step ndebug sys e = some (sys', o))
    (hkept : ResetKept sys' (tr ++ o)) : Taken sys' (tr ++ o) := by
  have hwrites := h.noWrite
  cases stepped hs with
  | request p hc =>
    rw [List.append_nil] at hkept ⊢
    exact taken_of_resetKept hkept h.pulse h.low h.level (writesReset_of_phase rfl (by decide))
  | drive input level =>
    rw [List.append_nil] at hkept ⊢
    exact taken_of_resetKept hkept h.pulse h.low h.level hwrites
  | read =>
    refine taken_of_resetKept hkept h.pulse h.low ?_ (writesReset_of_none rfl)
    rw [softwareLevel_reply]
    exact h.level
  | writeReset hc hp ha => simp [System.writesReset, hc, hp, ha] at hwrites
  | @writeOther p f phase hc ha hf =>
    rw [List.append_nil] at hkept ⊢
    apply taken_of_resetKept hkept h.pulse ((hf _).trans h.low) h.level
    simp [System.writesReset, System.setPhase, ha]
  | abort =>
    rw [List.append_nil] at hkept ⊢
    exact taken_of_resetKept hkept h.pulse h.low h.level hwrites
  | commit hc =>
    rw [List.append_nil] at hkept ⊢
    exact taken_of_resetKept hkept h.pulse h.low h.level (writesReset_of_phase rfl (by decide))
  | reply hc =>
    refine taken_of_resetKept hkept h.pulse h.low ?_ (writesReset_of_none rfl)
    rw [softwareLevel_reply]
    exact h.level
  | rise hp | fall hp => cases hp.symm.trans h.pulse
  | delta hr => cases hr.symm.trans h.running

/-- In every state of the run the core reset is as software left it. -/
def KeptThroughout (ndebug : Bool) (es : List Event) : Prop :=
  ∀ pre sys tr, pre <+: es → (signalsPeripheral ndebug).Run pre sys tr → ResetKept sys tr

/-- **Software keeps the core reset exactly as long as no pulse ends with it held**, apart from a
pulse after which software writes the port in the same delta cycle. -/
theorem resetKept_iff {ndebug : Bool} {es : List Event} {sys : System} {tr : List Output}
    (h : (signalsPeripheral ndebug).Run es sys tr) :
    ((signalsPeripheral ndebug).Allowed PulseEndsLow es → KeptThroughout ndebug es) ∧
      (sys.runnable = false → KeptThroughout ndebug es →
        (signalsPeripheral ndebug).Allowed PulseEndsLow es) := by
  constructor
  · intro hG pre s t hpre hrun
    have hinv : ResetInv s t := Machine.inv_run_of_allowed (resetInv_init ndebug)
      (fun _ _ _ _ _ hI hg hs => resetInv_step hI hg (stepped hs))
      (Machine.allowed_of_prefix hpre hG) hrun
    exact hinv.resetKept
  · intro hend hkept
    refine Machine.allowed_of_forall_prefix (D := Taken) ?_ ?_ h hkept ?_
    · exact fun _ _ _ _ _ hg hs => taken_of_fall hg hs
    · exact fun _ _ _ _ _ hD hs => taken_step hD hs
    · exact fun hD => Bool.false_ne_true (hend.symm.trans hD.running)

/-- Software writes one byte at `CoreResetIn`. -/
def resetWrite (level : UInt8) : Payload :=
  ⟨.write, 1001, [level], .incomplete, by simp, 1, false⟩

/-- A transaction from its request to its reply. -/
def served (p : Payload) : List Event :=
  [.request p, .delta, .runCall, .delta, .runCall, .delta, .runCall]

/-- A rising edge and the pulse it causes. -/
def resetPulse : List Event :=
  [.drive .systemResetRequest true, .delta, .runPulse, .delta, .runPulse, .delta]

/-- Software asserts the reset, releases it, sees a reset request, and asserts it again. -/
def releasedBetween : List Event :=
  served (resetWrite 1) ++ served (resetWrite 0) ++ resetPulse ++ served (resetWrite 1)

theorem resetKept_releasedBetween :
    ∃ sys tr, (signalsPeripheral false).Run releasedBetween sys tr ∧ softwareHolds tr = true ∧
      KeptThroughout false releasedBetween :=
  have h : (signalsPeripheral false).Run releasedBetween _ _ := rfl
  ⟨_, _, h, by decide, (resetKept_iff h).1 (by decide)⟩

/-- **A reset request releases the core.** -/
theorem resetPulse_releases :
    ¬ ∀ es sys tr, (signalsPeripheral false).Run es sys tr → ResetKept sys tr := by
  intro h
  have hrun : (signalsPeripheral false).Run (served (resetWrite 1) ++ resetPulse) _ _ := rfl
  exact absurd ((h _ _ _ hrun).held (by decide)) (by decide)

end RenodeSystemC.CortexM
