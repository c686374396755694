import RenodeSystemC.CortexM.SignalsPeripheral
import RenodeSystemC.Lib.Waveform

/-!
# One reset pulse per reset request

`on_system_reset_request` waits for a rising edge of `in_system_reset_request`, and while it shapes
the pulse, for one delta cycle, it hears no edge. An edge needs a low level before it, so the next
one cannot come in that cycle.

**Theorem (`reset_pulses`).** Without software writes to `CoreResetIn`, the waveform of
`out_core_reset_in` is the pulse train `pulses` of the waveform of `in_system_reset_request`, and
the thread listens whenever that rises.

The invariant `PulseInv` says, for each place of the thread, which part of the pulse is still to
come.
-/

namespace RenodeSystemC.CortexM

/-! ## Waveforms -/

/-- The levels of `in_system_reset_request` and `out_core_reset_in` at the start of each delta
cycle, after the first. -/
def levels (_ : System) (e : Event) (sys : System) : List (Bool × Bool) :=
  match e with
  | .delta => [(sys.inputs.current .systemResetRequest, sys.outputs.current.coreResetIn)]
  | _ => []

/-- The peripheral, seen through the two ports. -/
def resetPorts (ndebug : Bool) : Machine System Event (Bool × Bool) :=
  (signalsPeripheral ndebug).observing levels

/-- The waveform of `in_system_reset_request`. Both ports are low in the first cycle. -/
def requests (tr : List (Bool × Bool)) : List Bool := false :: tr.map Prod.fst

/-- The waveform of `out_core_reset_in`. -/
def resets (tr : List (Bool × Bool)) : List Bool := false :: tr.map Prod.snd

/-- The payload does not write `CoreResetIn`. -/
def LeavesReset (p : Payload) : Prop := p.command = .read ∨ p.address ≠ 1001

instance (p : Payload) : Decidable (LeavesReset p) := inferInstanceAs (Decidable (_ ∨ _))

/-- Software does not write `CoreResetIn`. -/
def Event.LeavesReset : Event → Prop
  | .request p => CortexM.LeavesReset p
  | _ => True

instance : DecidablePred Event.LeavesReset
  | .request p => inferInstanceAs (Decidable (CortexM.LeavesReset p))
  | .drive _ _ | .runCall | .runPulse | .delta => inferInstanceAs (Decidable True)

/-! ## The invariant -/

/-- The edge that the thread has been woken by has not reached the port yet. -/
def PulsePc.pending : PulsePc → Bool
  | .waitEdge | .resumed => false
  | .woken | .waitZero => true

/-- The level the thread has written last. -/
def PulsePc.level : PulsePc → Bool
  | .waitEdge | .woken => false
  | .waitZero | .resumed => true

structure PulseInv (sys : System) (tr : List (Bool × Bool)) : Prop where
  /-- The reset has followed every edge but the one that is pending. -/
  pulses : false :: false :: edges (requests tr) = resets tr ++ [sys.pulse.pending]
  request : ∃ w, requests tr = w ++ [sys.inputs.current .systemResetRequest]
  high : sys.pulse.pending = true → sys.inputs.current .systemResetRequest = true
  next : sys.outputs.next.coreResetIn = sys.pulse.level
  call : ∀ p phase, sys.call = some ⟨p, phase⟩ → LeavesReset p

section Steps

variable {sys sys' : System} {tr : List (Bool × Bool)}

/-- Nothing that the pulse depends on changes. -/
theorem PulseInv.frame (h : PulseInv sys tr) (hin : sys'.inputs.current = sys.inputs.current)
    (hout : sys'.outputs.next.coreResetIn = sys.outputs.next.coreResetIn)
    (hpulse : sys'.pulse = sys.pulse)
    (hcall : ∀ p phase, sys'.call = some ⟨p, phase⟩ → LeavesReset p) : PulseInv sys' tr := by
  refine ⟨?_, ?_, ?_, ?_, hcall⟩
  · rw [hpulse]
    exact h.pulses
  · rw [hin]
    exact h.request
  · rw [hpulse, hin]
    exact h.high
  · rw [hpulse, hout]
    exact h.next

/-- **The thread listens when the request rises.** -/
theorem PulseInv.listens (h : PulseInv sys tr) (hr : sys.runnable = false)
    (hrises : sys.rises = true) : sys.pulse = .waitEdge := by
  simp only [System.rises, Bool.and_eq_true, Bool.not_eq_true'] at hrises
  have hhigh := h.high
  cases hpulse : sys.pulse with
  | waitEdge => rfl
  | waitZero =>
    rw [hpulse, hrises.2] at hhigh
    exact absurd (hhigh rfl) Bool.false_ne_true
  | woken | resumed => simp [System.runnable, hpulse, PulsePc.runnable] at hr

/-- The end of a delta cycle: one more level of each port. -/
theorem pulseInv_endDelta (h : PulseInv sys tr) (hr : sys.runnable = false) :
    PulseInv sys.endDelta (tr ++ levels sys .delta sys.endDelta) := by
  obtain ⟨w, hw⟩ := h.request
  have hlistens := h.listens hr
  generalize ha : sys.inputs.current .systemResetRequest = a at hw hlistens
  generalize hb : sys.inputs.next .systemResetRequest = b
  have hrises : sys.rises = (!a && b) := by rw [System.rises, ha, hb, Bool.and_comm]
  have hrequests : requests (tr ++ levels sys .delta sys.endDelta) = w ++ [a] ++ [b] := by
    rw [← hw, ← hb]
    simp [requests, levels, System.endDelta, Signal.update]
  have hresets : resets (tr ++ levels sys .delta sys.endDelta) =
      resets tr ++ [sys.outputs.next.coreResetIn] := by
    simp [resets, levels, System.endDelta, Signal.update]
  -- Between the cycles the thread waits for an edge or for the end of its pulse.
  have hpc : sys.pulse.level = sys.pulse.pending ∧
      (sys.pulse.afterDelta sys.rises).pending = (!a && b) ∧
      (sys.pulse.afterDelta sys.rises).level = sys.pulse.level := by
    rw [← hrises]
    cases hpulse : sys.pulse with
    | waitEdge => cases sys.rises <;> exact ⟨rfl, rfl, rfl⟩
    | waitZero =>
      have hquiet : sys.rises = false := by
        by_contra hrise
        rw [hpulse] at hlistens
        cases hlistens (Bool.eq_true_of_not_eq_false hrise)
      rw [hquiet]
      exact ⟨rfl, rfl, rfl⟩
    | woken | resumed => simp [System.runnable, hpulse, PulsePc.runnable] at hr
  refine ⟨?_, ⟨w ++ [a], ?_⟩, ?_, ?_, ?_⟩
  · have hpulses := h.pulses
    rw [hw] at hpulses
    rw [hrequests, edges_concat, hresets, h.next, hpc.1, ← hpulses]
    show _ = _ ++ [(sys.pulse.afterDelta sys.rises).pending]
    rw [hpc.2.1]
    rfl
  · rw [hrequests, ← hb]
    rfl
  · show (sys.pulse.afterDelta sys.rises).pending = true →
      sys.inputs.next .systemResetRequest = true
    rw [hpc.2.1, hb, Bool.and_eq_true]
    exact And.right
  · show sys.outputs.next.coreResetIn = (sys.pulse.afterDelta sys.rises).level
    rw [hpc.2.2, h.next]
  · intro p phase hc
    simp only [System.endDelta, Option.map_eq_some_iff] at hc
    obtain ⟨⟨q, phase₀⟩, hc₀, heq⟩ := hc
    cases heq
    exact h.call _ phase₀ hc₀

theorem pulseInv_step {e : Event} {o : List Output} (h : PulseInv sys tr) (hG : e.LeavesReset)
    (hs : Stepped sys e sys' o) : PulseInv sys' (tr ++ levels sys e sys') := by
  have hcall : ∀ {p phase} phase', sys.call = some ⟨p, phase⟩ → ∀ q phase₁,
      some (Call.mk p phase') = some ⟨q, phase₁⟩ → LeavesReset q := by
    intro p phase phase' hc q phase₁ heq
    cases heq
    exact h.call p phase hc
  have hsilent : levels sys e sys' = [] → PulseInv sys' tr →
      PulseInv sys' (tr ++ levels sys e sys') := by
    intro hnil hinv
    rwa [hnil, List.append_nil]
  cases hs with
  | request p hc =>
    apply hsilent rfl
    refine h.frame rfl rfl rfl ?_
    intro q phase heq
    cases heq
    exact hG
  | drive input level =>
    apply hsilent rfl
    exact h.frame rfl rfl rfl h.call
  | read hc =>
    apply hsilent rfl
    refine h.frame rfl rfl rfl ?_
    intro q phase heq
    cases heq
  | writeReset hc hp ha =>
    rcases h.call _ _ hc with hread | haddr
    · exact absurd hread hp
    · exact absurd ha haddr
  | writeOther hc ha hf =>
    apply hsilent rfl
    exact h.frame rfl (hf _) rfl (hcall _ hc)
  | abort =>
    apply hsilent rfl
    exact h.frame rfl rfl rfl h.call
  | commit hc =>
    apply hsilent rfl
    exact h.frame rfl rfl rfl (hcall _ hc)
  | reply hc =>
    apply hsilent rfl
    refine h.frame rfl rfl rfl ?_
    intro q phase heq
    cases heq
  | rise hp =>
    apply hsilent rfl
    have hpulses := h.pulses
    have hhigh := h.high
    rw [hp] at hpulses hhigh
    exact ⟨hpulses, h.request, hhigh, rfl, h.call⟩
  | fall hp =>
    apply hsilent rfl
    have hpulses := h.pulses
    rw [hp] at hpulses
    exact ⟨hpulses, h.request, fun hpending => absurd hpending Bool.false_ne_true, rfl,
      h.call⟩
  | delta hr => exact pulseInv_endDelta h hr

end Steps

/-! ## Runs -/

theorem pulseInv_run {ndebug : Bool} {es : List Event} {sys : System} {tr : List (Bool × Bool)}
    (h : (resetPorts ndebug).Run es sys tr) (hsw : ∀ e ∈ es, e.LeavesReset) : PulseInv sys tr := by
  refine Machine.inv_run_of_allSteps (M := resetPorts ndebug) (G := fun _ e => e.LeavesReset)
    (I := PulseInv) ?_ ?_ (Machine.allSteps_of_forall _ fun e he _ => hsw e he) h
  · refine ⟨rfl, ⟨[], rfl⟩, ?_, rfl, ?_⟩
    · intro hpending
      cases hpending
    · intro p phase heq
      cases heq
  · intro sys tr e sys' o hI hG hs
    obtain ⟨⟨out, hstep⟩, rfl⟩ := Machine.observing_step hs
    exact pulseInv_step hI hG (stepped hstep)

/-- What the two waveforms have to do with each other. -/
structure OnePulsePerRequest (requests resets : List Bool) : Prop where
  /-- High exactly in the cycle after the one in which an edge is seen. -/
  high : ∀ k, k + 2 < resets.length →
    resets.getD (k + 2) false = (!requests.getD k false && requests.getD (k + 1) false)
  low : resets.getD 0 false = false ∧ resets.getD 1 false = false
  /-- No longer than one cycle. -/
  width : ∀ k, resets.getD k false = true → resets.getD (k + 1) false = false
  /-- One pulse for each edge, but for an edge into the last cycle, which is just being seen. -/
  count : rises resets = rises requests.dropLast

theorem onePulsePerRequest_pulses (w : List Bool) : OnePulsePerRequest w (pulses w) := by
  refine ⟨?_, ?_, ?_, rises_pulses w⟩
  · intro k hk
    rw [length_pulses] at hk
    exact getD_pulses (by omega)
  · rw [pulses]
    cases edges w <;> exact ⟨rfl, rfl⟩
  · intro k hhigh
    by_cases hk : k + 1 < (pulses w).length
    · have hchain := List.isChain_iff_getElem.1 (isChain_pulses w) k hk
      rw [List.getD_eq_getElem _ _ (Nat.lt_of_succ_lt hk)] at hhigh
      rw [List.getD_eq_getElem _ _ hk]
      exact hchain hhigh
    · exact List.getD_eq_default _ _ (by omega)

/-- **One reset pulse per reset request.** -/
theorem reset_pulses {ndebug : Bool} {es : List Event} {sys : System} {tr : List (Bool × Bool)}
    (h : (resetPorts ndebug).Run es sys tr) (hsw : ∀ e ∈ es, e.LeavesReset) :
    OnePulsePerRequest (requests tr) (resets tr) ∧
      (sys.runnable = false → sys.rises = true → sys.pulse = .waitEdge) := by
  have hinv := pulseInv_run h hsw
  have hpulses : resets tr = pulses (requests tr) := by
    rw [pulses, hinv.pulses, List.dropLast_concat]
  refine ⟨?_, hinv.listens⟩
  rw [hpulses]
  exact onePulsePerRequest_pulses _

/-- The fastest toggling: the request changes in every cycle. -/
def toggling : List Event :=
  [.drive .systemResetRequest true, .delta, .runPulse, .drive .systemResetRequest false, .delta,
    .runPulse, .drive .systemResetRequest true, .delta, .runPulse, .delta, .runPulse, .delta]

theorem reset_pulses_toggling :
    ∃ sys tr, (resetPorts false).Run toggling sys tr ∧ rises (requests tr) = 2 ∧
      OnePulsePerRequest (requests tr) (resets tr) :=
  have h : (resetPorts false).Run toggling _
      [(true, false), (false, true), (true, false), (true, true), (true, false)] := rfl
  ⟨_, _, h, by decide, (reset_pulses h (by decide)).1⟩

end RenodeSystemC.CortexM
