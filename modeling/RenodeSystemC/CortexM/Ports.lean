import RenodeSystemC.CortexM.SignalsPeripheral

/-!
# The ports between transactions

A write is spread over delta cycles: the port is written, `handle_write` waits for the update, and
`receive_b_transport` waits once more before it replies; for an interrupt line there is one wait
only. Meanwhile the inputs change and the reset thread runs.

**Theorem (`ports_follow`).** In every run, whenever no transaction is being served, each output
port other than `out_core_reset_in` shows what the writes answered so far have made of it, the
ports that were not addressed included; and a read is answered with the level its input had at the
end of the last delta cycle.
-/

namespace RenodeSystemC.CortexM

/-! ## What software sees -/

/-- The ports that software alone writes. -/
def Outputs.software (x : Outputs) : Outputs := { x with coreResetIn := false }

/-- What a write makes of the ports, port by port: an interrupt line or a signal takes the level
that the byte at its own offset says, and a write to the offset of a vector table sets its
address. -/
def applyWrite (x : Outputs) (p : Payload) : Outputs :=
  let level := p.data.headD 0 != 0
  { nvicIrqs := fun line =>
      if line ≤ 479 ∧ p.address.toNat = line then level else x.nvicIrqs line
    nonMaskableInterrupt := if p.address = 1000 then level else x.nonMaskableInterrupt
    coreResetIn := if p.address = 1001 then level else x.coreResetIn
    cpuWait := if p.address = 1002 then level else x.cpuWait
    powerOnReset := if p.address = 1005 then level else x.powerOnReset
    initSVtor := if p.address = 1004 then 0x2000b000 else x.initSVtor
    initNsVtor := if p.address = 1003 then 0x2000a000 else x.initNsVtor }

/-- The number of the signal that an input shows. -/
def Input.signal : Input → Nat
  | .systemResetRequest => 1006
  | .sleeping => 1007
  | .sleepDeep => 1008
  | .lockup => 1009

/-- The ports after the writes that have been answered. -/
def portsAfter (tr : List Output) : Outputs :=
  tr.foldl (fun x o =>
    match o with
    | .replied p => if p.command = .read then x else applyWrite x p
    | .wroteReset _ => x) .init

/-- The inputs after the events `es`. -/
def inputsAfter (es : List Event) : Signal (Input → Bool) :=
  es.foldl (fun x e =>
    match e with
    | .drive input level => x.write fun y => Function.update y input level
    | .delta => x.update
    | _ => x) ⟨fun _ => false, fun _ => false⟩

theorem inputsAfter_concat (es : List Event) (e : Event) :
    inputsAfter (es ++ [e]) = match e with
      | .drive input level => (inputsAfter es).write fun y => Function.update y input level
      | .delta => (inputsAfter es).update
      | _ => inputsAfter es := by
  rw [inputsAfter, List.foldl_append]
  rfl

theorem portsAfter_append (tr o : List Output) :
    portsAfter (tr ++ o) = o.foldl (fun x o =>
      match o with
      | .replied p => if p.command = .read then x else applyWrite x p
      | .wroteReset _ => x) (portsAfter tr) := List.foldl_append

/-- A write does not look at `out_core_reset_in`. -/
theorem applyWrite_software (x : Outputs) (p : Payload) :
    (applyWrite x p).software = (applyWrite x.software p).software := rfl

theorem applyWrite_congr {x y : Outputs} (h : x.software = y.software) (p : Payload) :
    (applyWrite x p).software = (applyWrite y p).software := by
  rw [applyWrite_software, h, ← applyWrite_software]

/-! ## The tables of the source -/

/-- The interrupt lines. -/
theorem applyWrite_nvic {p : Payload} (h : p.address ≤ 479) (x : Outputs) :
    applyWrite x p =
      { x with nvicIrqs := Function.update x.nvicIrqs p.address.toNat (newSignalState p) } := by
  have hle : p.address.toNat ≤ 479 := h
  have hne : ∀ k : UInt64, 479 < k.toNat → p.address ≠ k := by
    rintro k hk rfl
    omega
  have hlines : (applyWrite x p).nvicIrqs =
      Function.update x.nvicIrqs p.address.toNat (newSignalState p) := by
    funext line
    rw [Function.update_apply]
    show (if line ≤ 479 ∧ p.address.toNat = line then _ else _) = _
    by_cases hline : line = p.address.toNat
    · rw [if_pos hline, if_pos ⟨hline ▸ hle, hline.symm⟩]
      rfl
    · rw [if_neg hline, if_neg fun hboth => hline hboth.2.symm]
  rw [← hlines, applyWrite, if_neg (hne 1000 (by decide)), if_neg (hne 1001 (by decide)),
    if_neg (hne 1002 (by decide)), if_neg (hne 1003 (by decide)), if_neg (hne 1004 (by decide)),
    if_neg (hne 1005 (by decide))]

/-- The other signals. -/
theorem applyWrite_of_writeOutput {p : Payload} (h : ¬ p.address ≤ 479) {f : Outputs → Outputs}
    (hf : writeOutput p.address (newSignalState p) = some f) (x : Outputs) :
    applyWrite x p = f x := by
  have hlines : (applyWrite x p).nvicIrqs = x.nvicIrqs := by
    funext line
    apply if_neg
    rintro ⟨hle, heq⟩
    exact h (UInt64.le_iff_toNat_le.2 (heq.trans_le hle))
  unfold writeOutput at hf
  split_ifs at hf with hnmi hreset hwait hpower hns hsecure
  all_goals
    cases hf
    apply Outputs.ext
    · exact hlines
    all_goals
      simp [applyWrite, newSignalState, firstByte, vectorTableOffset, vectorTableOffsetNonSecure, *]

theorem signal_of_readInput {offset : UInt64} {input : Input} (h : readInput offset = some input) :
    offset.toNat % 2 ^ 32 = input.signal := by
  rw [← UInt64.toNat_toUInt32]
  unfold readInput at h
  split_ifs at h with hrequest hsleeping hdeep hlockup
  · cases h
    rw [hrequest]
    rfl
  · cases h
    rw [hsleeping]
    rfl
  · cases h
    rw [hdeep]
    rfl
  · cases h
    rw [hlockup]
    rfl

/-! ## A transaction on its way -/

/-- The port has been written. -/
def Phase.written : Phase → Bool
  | .yielding | .yielded => false
  | .committing | .committed | .settling | .settled => true

/-- The next wait shows what has been written. -/
def Phase.showing : Phase → Bool
  | .committing | .settling => true
  | _ => false

/-- The ports with the write that is being served, if it has got that far. -/
def System.served (sys : System) (x : Outputs) : Outputs :=
  match sys.call with
  | some ⟨p, phase⟩ => if phase.written then applyWrite x p else x
  | none => x

structure PortInv (sys : System) (tr : List Output) : Prop where
  next : sys.outputs.next.software = (sys.served (portsAfter tr)).software
  current : (∀ c, sys.call = some c → c.phase.showing = false) →
    sys.outputs.current.software = (sys.served (portsAfter tr)).software
  writes : ∀ p phase, sys.call = some ⟨p, phase⟩ → phase.written = true → p.command ≠ .read

/-- The two ways in which `handle_write` ends. -/
theorem handleWrite_cases {ndebug : Bool} {sys sys' : System} {p : Payload} {o : List Output}
    (h : handleWrite ndebug sys p = (sys', o)) :
    sys' = sys.abort ∧ o = [] ∨ (o = [] ∨ ∃ level, o = [.wroteReset level]) ∧
      ∃ phase, Phase.showing phase = true ∧
        sys' = { sys with outputs := sys.outputs.write fun x => applyWrite x p }.setPhase
          p phase := by
  simp only [handleWrite] at h
  by_cases hassert : ndebug = false ∧ p.command ≠ .write
  · rw [if_pos hassert] at h
    cases h
    exact Or.inl ⟨rfl, rfl⟩
  rw [if_neg hassert] at h
  by_cases hnvic : p.address ≤ 479
  · rw [if_pos hnvic] at h
    cases h
    refine Or.inr ⟨Or.inl rfl, .settling, rfl, ?_⟩
    simp only [applyWrite_nvic hnvic]
  rw [if_neg hnvic] at h
  cases hout : writeOutput p.address (newSignalState p) with
  | none =>
    rw [hout] at h
    cases h
    exact Or.inl ⟨rfl, rfl⟩
  | some f =>
    rw [hout] at h
    cases h
    refine Or.inr ⟨?_, .committing, rfl, ?_⟩
    · split_ifs
      · exact Or.inr ⟨_, rfl⟩
      · exact Or.inl rfl
    · simp only [applyWrite_of_writeOutput hnvic hout]

/-- Only an answered write counts. -/
theorem portsAfter_quiet {tr o : List Output} (h : o = [] ∨ ∃ level, o = [.wroteReset level]) :
    portsAfter (tr ++ o) = portsAfter tr := by
  rw [portsAfter_append]
  rcases h with rfl | ⟨level, rfl⟩ <;> rfl

namespace PortInv

variable {ndebug : Bool} {sys sys' : System} {tr o : List Output}

/-- A step that leaves the call alone and writes at most `out_core_reset_in`. -/
theorem frame (h : PortInv sys tr) (hcall : sys'.call = sys.call)
    (hcurrent : sys'.outputs.current = sys.outputs.current)
    (hnext : sys'.outputs.next.software = sys.outputs.next.software) : PortInv sys' tr := by
  have hserved : sys'.served (portsAfter tr) = sys.served (portsAfter tr) := by
    unfold System.served
    rw [hcall]
  refine ⟨?_, ?_, ?_⟩
  · rw [hnext, hserved]
    exact h.next
  · rw [hcall, hcurrent, hserved]
    exact h.current
  · rw [hcall]
    exact h.writes

theorem request (h : PortInv sys tr) (hc : sys.call = none) (p : Payload) :
    PortInv (sys.setPhase p .yielding) tr := by
  have hserved : sys.served (portsAfter tr) = portsAfter tr := by rw [System.served, hc]
  have hnext := h.next
  have hcurrent := h.current (by simp [hc])
  rw [hserved] at hnext hcurrent
  refine ⟨hnext, fun _ => hcurrent, ?_⟩
  intro q phase heq hw
  cases heq
  cases hw

/-- The end of a delta cycle shows what has been written. -/
theorem endDelta (h : PortInv sys tr) : PortInv sys.endDelta tr := by
  have hwritten : ∀ phase : Phase, phase.afterDelta.written = phase.written := by
    intro phase
    cases phase <;> rfl
  have hserved : sys.endDelta.served (portsAfter tr) = sys.served (portsAfter tr) := by
    unfold System.served System.endDelta
    cases hc : sys.call with
    | none => rfl
    | some c => simp only [Option.map_some, hwritten]
  refine ⟨?_, fun _ => ?_, ?_⟩
  · rw [hserved]
    exact h.next
  · rw [hserved]
    exact h.next
  · intro p phase hc hw
    simp only [System.endDelta, Option.map_eq_some_iff] at hc
    obtain ⟨⟨q, phase₀⟩, hc₀, heq⟩ := hc
    cases heq
    rw [hwritten] at hw
    exact h.writes q phase₀ hc₀ hw

/-- A reply: the write that was being served is among the answered ones. -/
theorem reply (h : PortInv sys tr) {p q : Payload} {phase : Phase}
    (hc : sys.call = some ⟨p, phase⟩) (hshown : phase.showing = false)
    (hq : portsAfter (tr ++ [.replied (q.setResponseStatus .ok)]) = sys.served (portsAfter tr)) :
    PortInv (sys.reply q).1 (tr ++ (sys.reply q).2) := by
  have hcurrent := h.current (by
    intro c hc'
    rw [hc] at hc'
    cases hc'
    exact hshown)
  have hserved : (sys.reply q).1.served (portsAfter (tr ++ (sys.reply q).2)) =
      sys.served (portsAfter tr) := hq
  refine ⟨?_, fun _ => ?_, ?_⟩
  · rw [hserved]
    exact h.next
  · rw [hserved]
    exact hcurrent
  · intro p' phase' heq
    cases heq

/-- `receive_b_transport` goes on. -/
theorem runCall (h : PortInv sys tr) (hs : runCall ndebug sys = some (sys', o)) :
    PortInv sys' (tr ++ o) := by
  unfold CortexM.runCall at hs
  split at hs
  · rename_i p hc
    have hserved : sys.served (portsAfter tr) = portsAfter tr := by
      rw [System.served, hc]
      rfl
    rw [Option.some.injEq] at hs
    split_ifs at hs with hp
    · unfold handleRead at hs
      split at hs
      · rename_i input hinput
        cases hs
        apply h.reply hc rfl
        have hread : ((setFirstByte p (sys.inputs.current input)).setResponseStatus .ok).command =
            .read := hp
        rw [portsAfter_append, hserved]
        exact if_pos hread
      · cases hs
        rw [List.append_nil]
        exact h.frame rfl rfl rfl
    · rcases handleWrite_cases hs with ⟨rfl, rfl⟩ | ⟨ho, phase, hshowing, rfl⟩
      · rw [List.append_nil]
        exact h.frame rfl rfl rfl
      · have hwritten : phase.written = true := by
          cases phase <;> first | rfl | cases hshowing
        have hnext := h.next
        rw [hserved] at hnext
        refine ⟨?_, ?_, ?_⟩
        · rw [portsAfter_quiet ho]
          simp only [System.served, System.setPhase, hwritten, if_true]
          exact applyWrite_congr hnext p
        · intro hquiet
          have hshown := hquiet ⟨p, phase⟩ rfl
          rw [hshowing] at hshown
          cases hshown
        · intro q phase' heq _
          cases heq
          exact hp
  · rename_i p hc
    cases hs
    rw [List.append_nil]
    have hserved : (sys.setPhase p .settling).served (portsAfter tr) =
        sys.served (portsAfter tr) := by
      rw [System.served, System.served, hc]
      rfl
    refine ⟨?_, ?_, ?_⟩
    · rw [hserved]
      exact h.next
    · intro hquiet
      cases hquiet ⟨p, .settling⟩ rfl
    · intro q phase heq _
      cases heq
      exact h.writes p _ hc rfl
  · rename_i p hc
    cases hs
    apply h.reply hc rfl
    have hwrite : (p.setResponseStatus .ok).command ≠ .read := h.writes p _ hc rfl
    rw [portsAfter_append, System.served, hc]
    exact if_neg hwrite
  · cases hs

theorem step (h : PortInv sys tr) {e : Event} (hs : step ndebug sys e = some (sys', o)) :
    PortInv sys' (tr ++ o) := by
  unfold CortexM.step at hs
  by_cases hab : sys.aborted = true
  · rw [if_pos hab] at hs
    cases hs
  rw [if_neg hab] at hs
  cases e with
  | request p =>
    simp only at hs
    split_ifs at hs with hc
    cases hs
    rw [List.append_nil]
    exact h.request (Option.isNone_iff_eq_none.1 hc) p
  | drive input level =>
    cases hs
    rw [List.append_nil]
    exact h.frame rfl rfl rfl
  | runCall => exact h.runCall hs
  | runPulse =>
    simp only [CortexM.runPulse] at hs
    split at hs <;> cases hs <;> rw [List.append_nil] <;> exact h.frame rfl rfl rfl
  | delta =>
    simp only at hs
    split_ifs at hs
    cases hs
    rw [List.append_nil]
    exact h.endDelta

end PortInv

/-- The inputs are driven by nobody else. -/
theorem inputs_step {ndebug : Bool} {es : List Event} {sys sys' : System} {e : Event}
    {o : List Output} (h : sys.inputs = inputsAfter es)
    (hs : step ndebug sys e = some (sys', o)) : sys'.inputs = inputsAfter (es ++ [e]) := by
  have hstepped := stepped hs
  rw [inputsAfter_concat, ← h]
  cases hstepped <;> rfl

/-- Software's view of the peripheral. -/
structure Follows (ndebug : Bool) (es : List Event) (sys : System) (tr : List Output) : Prop where
  ports : sys.call = none → sys.outputs.current.software = (portsAfter tr).software
  /-- Whatever step answers a read, it is answered with the level of the input that has the
  number. -/
  reads : ∀ sys' q, step ndebug sys .runCall = some (sys', [.replied q]) → q.command = .read →
    q.data ≠ [] → ∃ input : Input, q.address.toNat % 2 ^ 32 = input.signal ∧
      firstByte q = if (inputsAfter es).current input then 1 else 0

theorem firstByte_setFirstByte {p : Payload} {level : Bool} (h : (setFirstByte p level).data ≠ []) :
    firstByte (setFirstByte p level) = if level then 1 else 0 := by
  have hlist : ∀ (l : List UInt8) (x : UInt8), l.set 0 x ≠ [] → (l.set 0 x).headD 0 = x := by
    intro l x hl
    cases l with
    | nil => exact absurd rfl hl
    | cons y l => rfl
  exact hlist p.data _ h

/-- The step that answers a read. -/
theorem reply_read {ndebug : Bool} {sys sys' : System} {tr : List Output} {q : Payload}
    (h : PortInv sys tr) (hs : runCall ndebug sys = some (sys', [.replied q]))
    (hq : q.command = .read) : ∃ p input, readInput p.address = some input ∧
      q = (setFirstByte p (sys.inputs.current input)).setResponseStatus .ok := by
  unfold runCall at hs
  split at hs
  · rename_i p hc
    rw [Option.some.injEq] at hs
    split_ifs at hs with hp
    · unfold handleRead at hs
      split at hs
      · rename_i input hinput
        cases hs
        exact ⟨p, input, hinput, rfl⟩
      · cases hs
    · -- `handle_write` answers nothing
      rcases handleWrite_cases hs with ⟨-, ho⟩ | ⟨ho | ⟨level, ho⟩, -⟩ <;> cases ho
  · cases hs
  · rename_i p hc
    cases hs
    exact absurd hq (h.writes p _ hc rfl)
  · cases hs

/-- **Software's ports follow software**, in every run. -/
theorem ports_follow {ndebug : Bool} {es : List Event} {sys : System} {tr : List Output}
    (h : (signalsPeripheral ndebug).Run es sys tr) : Follows ndebug es sys tr := by
  have hinv : PortInv sys tr ∧ sys.inputs = inputsAfter es := by
    refine Machine.inv_run_history
      (I := fun es sys tr => PortInv sys tr ∧ sys.inputs = inputsAfter es)
      ?_ (fun _ _ _ _ _ _ hI hs => ⟨hI.1.step hs, inputs_step hI.2 hs⟩) h
    refine ⟨⟨rfl, fun _ => rfl, ?_⟩, rfl⟩
    intro p phase hc
    cases hc
  obtain ⟨hports, hinputs⟩ := hinv
  refine ⟨?_, ?_⟩
  · intro hc
    have hcurrent := hports.current (by simp [hc])
    rwa [System.served, hc] at hcurrent
  · intro sys' q hs hq hdata
    have hrun : runCall ndebug sys = some (sys', [.replied q]) := by
      unfold step at hs
      by_cases hab : sys.aborted = true
      · rw [if_pos hab] at hs
        cases hs
      · rw [if_neg hab] at hs
        exact hs
    obtain ⟨p, input, hinput, rfl⟩ := reply_read hports hrun hq
    rw [← hinputs]
    exact ⟨input, signal_of_readInput hinput, firstByte_setFirstByte hdata⟩

/-- Interrupt line 5 is raised while a reset request comes, then `CPU_WAIT`, and the lockup input is
read. -/
def busyPorts : List Event :=
  let access (command : Command) (offset : UInt64) : Event :=
    .request ⟨command, offset, [7], .incomplete, Payload.byteLength_lt, 1, false⟩
  [access .write 5, .drive .lockup true, .delta, .runCall, .drive .systemResetRequest true, .delta,
    .runPulse, .runCall, access .write 1002, .delta, .runCall, .runPulse, .delta, .runCall, .delta,
    .runCall, access .read 1009, .delta]

theorem ports_follow_busyPorts : ∃ sys tr, ((signalsPeripheral false).Run busyPorts sys tr ∧
    (portsAfter tr).nvicIrqs 5 = true ∧ (portsAfter tr).cpuWait = true) ∧
      Follows false busyPorts sys tr := by
  have hrun : (signalsPeripheral false).Run busyPorts _ _ := rfl
  exact ⟨_, _, ⟨hrun, rfl, rfl⟩, ports_follow hrun⟩

end RenodeSystemC.CortexM
