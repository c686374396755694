import RenodeSystemC.Signals.HmpSystem

/-!
# Triggers and the writer thread of `hmp_signals`

A control write that leaves a nonzero trigger word sets its core's pending flag and schedules the
shared event. The writer waits for the event at the top of every round, whether or not a flag is
set, so a trigger is served only if a round still reaches its core.

* `retrigger_strands`: a core triggered again during its own bus write is forgotten when the
  event fires before the write returns.
* `no_stranded_trigger`: that is the only way. If the event never fires while the writer is in
  the bus write of a core and that core, or one visited before it, has been triggered again, then
  no trigger is ever stranded.

The invariant `Accounted` says who will see a set flag: the scheduled event, a round that has not
started to visit cores, or a round that has not come to this core yet.
-/

namespace RenodeSystemC.Hmp

open Signals Bytes

/-- No flag is set while the writer is blocked on the event and no notification is
scheduled. -/
def NoStrandedTrigger (sys : System) : Prop :=
  sys.writer = .waitEvent → sys.signals.systemBusWriteEvent = false →
    ∀ core, sys.signals.systemBusWritePending core = false

/-! ## A stranded trigger -/

/-- A write of 1 to the trigger register. -/
def triggerWrite : Payload where
  command := .write
  address := 0x114
  data := [1, 0, 0, 0]
  responseStatus := .incomplete
  length_lt := Payload.wordLength_lt

/-- The RISC-V core is triggered, and triggered again while the bus write for it is in progress;
the delta cycle ends before the call returns. -/
def retrigger : List Event :=
  [.runWriter, .transport .riscV triggerWrite, .delta, .runWriter, .delta, .runWriter,
    .transport .riscV triggerWrite, .delta, .busReturn]

/-- **A trigger can be stranded.** -/
theorem retrigger_strands :
    ¬ ∀ es sys tr, hmp.Run es sys tr → NoStrandedTrigger sys := by
  intro h
  have hrun : hmp.Run retrigger _ _ := rfl
  exact absurd (h _ _ _ hrun rfl rfl .riscV) (by decide)

/-! ## Who will see a flag -/

/-- The event does not fire while the writer is in the bus write of a core and that core, or one
visited before it, is pending again. -/
def ServedStayQuiet (sys : System) (e : Event) : Prop :=
  e = .delta → sys.signals.systemBusWriteEvent = true → ∀ core, sys.writer = .inTransport core →
    ∀ c, c.index ≤ core.index → sys.signals.systemBusWritePending c = false

instance (sys : System) (e : Event) : Decidable (ServedStayQuiet sys e) :=
  inferInstanceAs (Decidable (_ → _))

/-- A writer in this place will visit `c` before it waits for the event again. -/
def WriterPc.WillVisit (c : Core) : WriterPc → Prop
  | .woken | .waitZero | .resumed => True
  | .inTransport core => core.index < c.index
  | .start | .waitEvent => False

/-- Every set flag is seen by the scheduled event or by the current round. -/
def Accounted (sys : System) : Prop :=
  ∀ c, sys.signals.systemBusWritePending c = true →
    sys.signals.systemBusWriteEvent = true ∨ sys.writer.WillVisit c

theorem Accounted.noStrandedTrigger {sys : System} (h : Accounted sys) : NoStrandedTrigger sys := by
  intro hw he core
  by_contra hp
  rcases h core (by simpa using hp) with h | h
  · rw [he] at h; cases h
  · rw [hw] at h; exact h

/-- A transaction that sets a flag schedules the event. -/
theorem pending_bTransport (core : Core) (s : HmpSignals) (p : Payload) (c : Core)
    (h : (bTransport core s p).state.systemBusWritePending c = true) :
    (bTransport core s p).state.systemBusWriteEvent = true ∨
      s.systemBusWritePending c = true ∧
        (bTransport core s p).state.systemBusWriteEvent = s.systemBusWriteEvent := by
  have hs := served core s p
  generalize bTransport core s p = r at hs h
  cases hs with
  | addressError | commandError | readMemory => exact Or.inr ⟨h, rfl⟩
  | writeMemory => exact Or.inr ⟨h, rfl⟩
  | readControl =>
    right
    revert h
    unfold HmpSignals.sampleResetRequest
    split_ifs <;> exact fun h => ⟨h, rfl⟩
  | writeControl =>
    simp only [applyControlWrite] at h ⊢
    split_ifs at h ⊢ with hq
    · exact Or.inl rfl
    · exact Or.inr ⟨h, rfl⟩

/-- What the `for` loop leaves pending is either ahead of the core it stopped at, or was behind it
when the loop was entered. -/
theorem servePending_accounted (cores : List Core) (sys : System)
    (hsorted : cores.Pairwise fun a b => a.index < b.index)
    (h : ∀ c, sys.signals.systemBusWritePending c = true →
      sys.signals.systemBusWriteEvent = true ∨ c ∈ cores) :
    Accounted (servePending cores sys).1 := by
  induction cores with
  | nil =>
    intro c hc
    exact Or.inl ((h c hc).resolve_right List.not_mem_nil)
  | cons core cores ih =>
    rw [List.pairwise_cons] at hsorted
    unfold servePending
    split_ifs with hp
    · intro c hc
      have hne : c ≠ core := by
        rintro rfl
        simp at hc
      simp only [Function.update_of_ne hne] at hc
      refine (h c hc).imp_right fun hmem => ?_
      exact hsorted.1 c ((List.mem_cons.1 hmem).resolve_left hne)
    · refine ih hsorted.2 fun c hc => (h c hc).imp_right fun hmem => ?_
      apply (List.mem_cons.1 hmem).resolve_left
      rintro rfl
      exact hp hc

theorem accounted_step {sys sys' : System} {e : Event} {o : List Output} (h : Accounted sys)
    (hG : ServedStayQuiet sys e) (hs : step sys e = some (sys', o)) : Accounted sys' := by
  cases e with
  | transport core p =>
    cases hs
    intro c hc
    rcases pending_bTransport core sys.signals p c hc with he | ⟨hc', he⟩
    · exact Or.inl he
    · exact (h c hc').imp_left fun hev => he.trans hev
  | resetRequest level => cases hs; exact h
  | runWriter =>
    simp only [step] at hs
    split at hs
    · -- The thread reaches its first wait: a set flag has its event scheduled.
      rename_i hw
      cases hs
      intro c hc
      have := h c hc
      rw [hw] at this
      exact this
    · cases hs; exact fun c _ => Or.inr trivial
    · have hacc := servePending_accounted [.riscV, .arm] sys (by decide)
        (fun c _ => Or.inr (by cases c <;> simp))
      rw [Option.some.injEq] at hs
      rw [hs] at hacc
      exact hacc
    · cases hs
  | busReturn =>
    simp only [step] at hs
    split at hs
    · rename_i core hw
      have hacc := servePending_accounted core.after sys (by cases core <;> decide)
        (fun c hc => (h c hc).imp_right fun hv => by
          rw [hw] at hv
          revert hv
          cases core <;> cases c <;> simp [WriterPc.WillVisit, Core.index, Core.after])
      rw [Option.some.injEq] at hs
      rw [hs] at hacc
      exact hacc
    · cases hs
  | delta =>
    simp only [step] at hs
    split_ifs at hs with hrun
    cases hs
    intro c hc
    right
    -- The notification is spent here; the guard covers the one place where nobody hears it.
    have hc' := h c hc
    cases hw : sys.writer with
    | start | woken | resumed => rw [hw] at hrun; exact absurd rfl hrun
    | waitEvent =>
      rw [hw] at hc'
      have he := hc'.resolve_right id
      simp [WriterPc.afterDelta, he, WriterPc.WillVisit]
    | waitZero => trivial
    | inTransport core =>
      rw [hw] at hc'
      refine hc'.elim (fun he => ?_) id
      by_contra hlt
      have hquiet := hG rfl he core hw c (Nat.le_of_not_lt hlt)
      rw [show sys.signals.systemBusWritePending c = true from hc] at hquiet
      cases hquiet

/-- **No stranded trigger**, in every run where the event never fires during a bus write while a
core that this round has already visited is pending again. -/
theorem no_stranded_trigger {es : List Event} {sys : System} {tr : List Output}
    (h : hmp.Run es sys tr) (hG : hmp.AllSteps ServedStayQuiet hmp.init es) :
    NoStrandedTrigger sys := by
  have hacc : Accounted sys := Machine.inv_run_of_allSteps (M := hmp)
    (I := fun sys _ => Accounted sys)
    (fun _ hc => by cases hc) (fun _ _ _ _ _ hI hg hs => accounted_step hI hg hs) hG h
  exact hacc.noStrandedTrigger

/-- The Arm core is triggered during the RISC-V bus write; the same round serves it. -/
def triggerBoth : List Event :=
  [.runWriter, .transport .riscV triggerWrite, .delta, .runWriter, .delta, .runWriter,
    .transport .arm triggerWrite, .delta, .busReturn, .busReturn]

theorem no_stranded_trigger_triggerBoth :
    ∃ sys tr, hmp.Run triggerBoth sys tr ∧ hmp.AllSteps ServedStayQuiet hmp.init triggerBoth ∧
      sys.writer = .waitEvent ∧ NoStrandedTrigger sys :=
  have h : hmp.Run triggerBoth _ _ := rfl
  have hG : hmp.AllSteps ServedStayQuiet hmp.init triggerBoth := by decide
  ⟨_, _, h, hG, rfl, no_stranded_trigger h hG⟩

/-- **The guard leaves out only runs that strand a trigger.** From any state where it fails, the
writer ends up blocked with the flag set, without any further trigger. -/
theorem strands_of_not_quiet {sys : System} {e : Event} (h : ¬ ServedStayQuiet sys e) :
    ∃ k sys' tr, hmp.runFrom sys (e :: List.replicate k .busReturn) = some (sys', tr) ∧
      ¬ NoStrandedTrigger sys' := by
  simp only [ServedStayQuiet, not_forall, Bool.not_eq_false] at h
  obtain ⟨rfl, he, core, hw, c, hle, hp⟩ := h
  obtain ⟨s, writer⟩ := sys
  subst hw
  -- After the delta cycle the event is spent and the flag still set; no later visit clears it.
  have hstrand : ∀ s' : HmpSignals, s'.systemBusWriteEvent = false →
      s'.systemBusWritePending c = true → ¬ NoStrandedTrigger ⟨s', .waitEvent⟩ :=
    fun s' he' hp' hno => by rw [hno rfl he' c] at hp'; cases hp'
  cases core with
  | arm => exact ⟨1, ⟨s.afterDelta, .waitEvent⟩, [], rfl, hstrand _ rfl hp⟩
  | riscV =>
    have hc : c = .riscV := by cases c <;> simp_all [Core.index]
    subst hc
    by_cases ha : s.systemBusWritePending .arm = true
    · let s' := { s.afterDelta with
        systemBusWritePending := Function.update s.systemBusWritePending .arm false }
      refine ⟨2, ⟨s', .waitEvent⟩, [.busWrite .arm (busPayload .arm)], ?_, hstrand s' rfl ?_⟩
      · simp [Machine.runFrom, hmp, step, WriterPc.runnable, WriterPc.afterDelta, Core.after,
          servePending, HmpSignals.afterDelta, ha, s', List.replicate]
      · simpa [s'] using hp
    · refine ⟨1, ⟨s.afterDelta, .waitEvent⟩, [], ?_, hstrand _ rfl hp⟩
      simp [Machine.runFrom, hmp, step, WriterPc.runnable, WriterPc.afterDelta, Core.after,
        servePending, HmpSignals.afterDelta, ha]

end RenodeSystemC.Hmp
