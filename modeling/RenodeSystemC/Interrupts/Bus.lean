import RenodeSystemC.Interrupts.PortInterrupter

/-!
# Two interrupters behind the bus

`top` has two interrupters, of one and of three seconds, each with a port to Renode of its own.
`bus` passes a write to address 0 on to the first and a write to an address with bit 20 set to the
second, and refuses everything else. Renode sees an interrupt when a port rises; a raise that finds
its port high, or that a write takes back before the delta cycle ends, is not seen.

**Theorem (`ports_account`).** In every run each port is periodic with its own interval, whatever
the other does; it is lowered by exactly the writes to its addresses; and each of its raises so far
has been seen as a rising edge, was masked by a port still high, was cancelled by a write, or is
about to be seen.
-/

namespace RenodeSystemC.Interrupts

/-! ## The bus -/

/-- The interrupters of `top`, each with a port of its own. -/
inductive Port where
  | port0
  | port1
  deriving DecidableEq, Repr

def irqIntervalS : Port → Nat
  | .port0 => 1
  | .port1 => 3

def portInterrupter (k : Port) : Variant := Socket.portInterrupter (irqIntervalS k)

/-- The initiator socket that `on_renode_request` passes a payload on to. -/
def initiatorSocket (payload : Payload) : Option (Port) :=
  if payload.command = .write then
    if payload.address = 0 then some .port0
    else if payload.address &&& 0x100000 ≠ 0 then some .port1
    else none
  else none

/-- Both interrupters. -/
abbrev Platform := Port → System

inductive BusEvent where
  /-- Renode accesses the bus. -/
  | renode (payload : Payload)
  /-- The scheduler comes to a thread. -/
  | runLoop (k : Port)
  | delta
  | advance (t : Nat)
  deriving DecidableEq

inductive BusOutput where
  | port (k : Port) (o : Output)
  /-- `on_renode_request` returns. -/
  | replied (payload : Payload)
  deriving DecidableEq

/-- `bus::on_renode_request`. -/
def onRenodeRequest (s : Platform) (payload : Payload) : Platform × List BusOutput :=
  match initiatorSocket payload with
  | some k =>
    let (sys, o) := (portInterrupter k).transport (s k) payload
    let answered := (portInterrupter k).answer payload
    (Function.update s k sys, o.map (.port k) ++ [.replied (answered.setResponseStatus .ok)])
  | none => (s, [.replied (payload.setResponseStatus .addressError)])

/-- Both interrupters take an event. -/
def stepBoth (s : Platform) (e : Event) : Option (Platform × List BusOutput) :=
  match (portInterrupter .port0).step (s .port0) e, (portInterrupter .port1).step (s .port1) e with
  | some (sys₀, o₀), some (sys₁, o₁) =>
    let s' : Platform := fun
      | .port0 => sys₀
      | .port1 => sys₁
    some (s', o₀.map (.port .port0) ++ o₁.map (.port .port1))
  | _, _ => none

def busStep (s : Platform) : BusEvent → Option (Platform × List BusOutput)
  | .renode payload => some (onRenodeRequest s payload)
  | .runLoop k =>
    match (portInterrupter k).step (s k) .runLoop with
    | none => none
    | some (sys, o) => some (Function.update s k sys, o.map (.port k))
  | .delta => stepBoth s .delta
  | .advance t => stepBoth s (.advance t)

/-- `top`, with Renode at the bus. -/
def top : Machine Platform BusEvent BusOutput where
  init := fun k => (portInterrupter k).machine.init
  step := busStep

/-! ## Accounts -/

/-- What Renode makes of a port, and what becomes of the raises. -/
structure Ledger where
  /-- The level after the last update. -/
  level : Bool
  /-- The level that was written last. -/
  written : Bool
  raises : Nat
  /-- Rising edges. -/
  edges : Nat
  /-- Raises of a port that is still high. -/
  masked : Nat
  /-- Raises that a write takes back in the same delta cycle. -/
  cancelled : Nat
  deriving DecidableEq

def Ledger.note (l : Ledger) : Output → Ledger
  | .raised _ =>
    { l with
      written := true
      raises := l.raises + 1
      masked := l.masked + l.level.toNat }
  | .lowered _ =>
    { l with
      written := false
      cancelled := l.cancelled + (!l.level && l.written).toNat }
  | .level _ b => { l with level := b, edges := l.edges + (b && !l.level).toNat }
  | .replied _ => l

def ledger (tr : List Output) : Ledger := tr.foldl Ledger.note ⟨false, false, 0, 0, 0, 0⟩

/-- A raise is about to be seen. -/
def Ledger.rising (l : Ledger) : Bool := !l.level && l.written

theorem ledger_append (tr o : List Output) : ledger (tr ++ o) = o.foldl Ledger.note (ledger tr) :=
  List.foldl_append

/-- The ledger of a run: it knows the port, and every raise is in it once. -/
structure Balanced (sys : System) (l : Ledger) : Prop where
  level : l.level = sys.irqOut.current
  written : l.written = sys.irqOut.next
  balance : l.edges + l.masked + l.cancelled + l.rising.toNat = l.raises
  /-- The thread raises the port only in the first delta cycle at its time. -/
  settled : sys.loop = .runnable → l.rising = false

theorem balanced_step {v : Variant} {sys sys' : System} {l : Ledger} {e : Event} {o : List Output}
    (h : Balanced sys l) (hs : v.step sys e = some (sys', o)) :
    Balanced sys' (o.foldl Ledger.note l) := by
  obtain ⟨hlevel, hwritten, hbalance, hsettled⟩ := h
  cases e with
  | transport p =>
    simp only [Variant.step, Variant.transport, Option.some.injEq] at hs
    split_ifs at hs with hp
    · cases hs
      refine ⟨hlevel, rfl, ?_, fun _ => Bool.and_false _⟩
      simp only [List.foldl, Ledger.note, Ledger.rising, Bool.and_false,
        Bool.toNat_false] at hbalance ⊢
      omega
    · cases hs
      exact ⟨hlevel, hwritten, hbalance, hsettled⟩
  | runLoop =>
    simp only [Variant.step] at hs
    split at hs
    · rename_i hl
      cases hs
      refine ⟨hlevel, rfl, ?_, fun hc => LoopPc.noConfusion hc⟩
      rw [hsettled hl, Bool.toNat_false] at hbalance
      simp only [List.foldl, Ledger.note, Ledger.rising, Bool.and_true]
      cases l.level <;> simp only [Bool.not_false, Bool.not_true, Bool.toNat_false,
        Bool.toNat_true] <;> omega
    · cases hs
      exact ⟨hlevel, hwritten, hbalance, hsettled⟩
  | delta =>
    simp only [Variant.step] at hs
    split at hs
    · cases hs
    · rename_i wake hl
      cases hs
      refine ⟨rfl, hwritten, ?_, ?_⟩
      · -- a raise that was about to be seen is seen
        simp only [List.foldl, Ledger.note, Ledger.rising, hwritten, Bool.not_and_self,
          Bool.toNat_false, Bool.and_comm (!l.level)] at hbalance ⊢
        omega
      · intro hc
        rw [hl] at hc
        cases hc
  | advance t =>
    simp only [Variant.step] at hs
    split at hs
    · cases hs
    · rename_i wake hl
      by_cases hadvance : sys.now < t ∧ t ≤ wake ∧ sys.irqOut.current = sys.irqOut.next
      · rw [if_pos hadvance] at hs
        cases hs
        refine ⟨hlevel, hwritten, hbalance, fun _ => ?_⟩
        simp only [List.foldl, Ledger.rising, hlevel, hwritten, hadvance.2.2, Bool.not_and_self]
      · rw [if_neg hadvance] at hs
        cases hs

theorem balanced_run {v : Variant} {es : List Event} {sys : System} {tr : List Output}
    (h : v.machine.Run es sys tr) : Balanced sys (ledger tr) := by
  refine Machine.inv_run (I := fun sys tr => Balanced sys (ledger tr)) ?_ ?_ h
  · exact ⟨rfl, rfl, rfl, fun _ => rfl⟩
  · intro sys tr e sys' o hI hs
    rw [ledger_append]
    exact balanced_step hI hs

theorem raises_foldl (tr : List Output) (l : Ledger) :
    (tr.foldl Ledger.note l).raises = l.raises + (raises tr).length := by
  induction tr generalizing l with
  | nil => rfl
  | cons x tr ih =>
    rw [List.foldl_cons, ih]
    cases x with
    | raised t =>
      simp only [Ledger.note, raises, List.filterMap_cons, Output.raisedAt, List.length_cons]
      omega
    | lowered | level | replied => rfl

/-- The raises in the ledger of a periodic port. -/
theorem raises_ledger {period : Nat} {sys : System} {tr : List Output}
    (h : Periodic period sys tr) (hl : sys.loop ≠ .runnable) :
    (ledger tr).raises = sys.now / period + 1 := by
  have hlength := raises_foldl tr ⟨false, false, 0, 0, 0, 0⟩
  rw [h.raised hl, List.length_map, List.length_range, Nat.zero_add] at hlength
  exact hlength

/-! ## One port of the platform -/

def BusOutput.ofPort (k : Port) : BusOutput → Option Output
  | .port j o => if j = k then some o else none
  | .replied _ => none

def BusOutput.reply : BusOutput → Option Payload
  | .replied payload => some payload
  | .port _ _ => none

/-- What one interrupter does in a trace. -/
def portTrace (k : Port) (tr : List BusOutput) : List Output := tr.filterMap (BusOutput.ofPort k)

def BusEvent.routesTo (k : Port) : BusEvent → Bool
  | .renode payload => initiatorSocket payload = some k
  | _ => false

/-- What Renode gets back: the status only says whether the payload was passed on. -/
def BusEvent.reply : BusEvent → Option Payload
  | .renode payload => some (payload.setResponseStatus
      (if (initiatorSocket payload).isSome then .ok else .addressError))
  | _ => none

def Output.isLowered : Output → Bool
  | .lowered _ => true
  | _ => false

theorem portTrace_append (k : Port) (tr o : List BusOutput) :
    portTrace k (tr ++ o) = portTrace k tr ++ portTrace k o := List.filterMap_append

theorem portTrace_port (k j : Port) (o : List Output) :
    portTrace k (o.map (.port j)) = if j = k then o else [] := by
  rw [portTrace, List.filterMap_map]
  split_ifs with h
  · have hsome : BusOutput.ofPort k ∘ BusOutput.port j = some := by
      funext x
      simp [BusOutput.ofPort, h]
    rw [hsome, List.filterMap_some]
  · have hnone : BusOutput.ofPort k ∘ BusOutput.port j = fun _ => none := by
      funext x
      simp [BusOutput.ofPort, h]
    rw [hnone]
    exact List.filterMap_none o

theorem reply_port (j : Port) (o : List Output) :
    (o.map (BusOutput.port j)).filterMap BusOutput.reply = [] := by
  rw [List.filterMap_map]
  exact List.filterMap_none o

/-- What one port has to do with a step of the platform: nothing, or its interrupter takes a
step. -/
def PortStep (k : Port) (s s' : Platform) (o : List BusOutput) (lowers : Bool) : Prop :=
  s' k = s k ∧ portTrace k o = [] ∧ lowers = false ∨
    ∃ e, (portInterrupter k).step (s k) e = some (s' k, portTrace k o) ∧
      (portTrace k o).countP Output.isLowered = lowers.toNat

theorem portStep_renode (s : Platform) (payload : Payload) (k : Port) :
    PortStep k s (onRenodeRequest s payload).1 (onRenodeRequest s payload).2
      (initiatorSocket payload = some k) := by
  unfold onRenodeRequest
  cases hroute : initiatorSocket payload with
  | none => exact Or.inl ⟨rfl, rfl, by simp⟩
  | some j =>
    have hwrite : payload.command = .write := by
      unfold initiatorSocket at hroute
      split_ifs at hroute with hw
      · exact hw
      · exact hw
    dsimp only
    by_cases hj : j = k
    · subst hj
      right
      refine ⟨.transport payload, ?_, ?_⟩
      · rw [portTrace_append, portTrace_port, if_pos rfl, Function.update_self]
        exact congrArg some (Prod.ext rfl (List.append_nil _).symm)
      · have htrace : portTrace j ((((portInterrupter j).transport (s j) payload).2.map
            (.port j)) ++ [.replied (((portInterrupter j).answer payload).setResponseStatus .ok)]) =
            [.lowered (s j).now, .replied ((portInterrupter j).answer payload)] := by
          rw [portTrace_append, portTrace_port, if_pos rfl, Variant.transport, if_pos hwrite]
          rfl
        rw [htrace, decide_eq_true rfl]
        rfl
    · left
      refine ⟨Function.update_of_ne (Ne.symm hj) _ _, ?_, by simpa using hj⟩
      rw [portTrace_append, portTrace_port, if_neg hj]
      rfl

/-- Steps of an interrupter that lower nothing. -/
theorem countP_isLowered {v : Variant} {sys sys' : System} {e : Event} {o : List Output}
    (he : ∀ p, e ≠ .transport p) (hs : v.step sys e = some (sys', o)) :
    o.countP Output.isLowered = 0 := by
  cases e with
  | transport p => exact absurd rfl (he p)
  | runLoop | delta =>
    simp only [Variant.step, Variant.interruptLoop] at hs
    split at hs <;> cases hs <;> rfl
  | advance t =>
    simp only [Variant.step] at hs
    split at hs
    · cases hs
    · split_ifs at hs <;> cases hs <;> rfl

theorem portStep_both {s s' : Platform} {e : Event} {o : List BusOutput}
    (he : ∀ p, e ≠ .transport p) (hs : stepBoth s e = some (s', o)) (k : Port) :
    PortStep k s s' o false := by
  unfold stepBoth at hs
  split at hs
  · rename_i sys₀ o₀ sys₁ o₁ h₀ h₁
    cases hs
    right
    refine ⟨e, ?_⟩
    match k with
    | .port0 =>
      have htrace : portTrace .port0 (o₀.map (.port .port0) ++ o₁.map (.port .port1)) = o₀ := by
        rw [portTrace_append, portTrace_port, portTrace_port]
        exact List.append_nil o₀
      rw [htrace]
      exact ⟨h₀, countP_isLowered he h₀⟩
    | .port1 =>
      have htrace : portTrace .port1 (o₀.map (.port .port0) ++ o₁.map (.port .port1)) = o₁ := by
        rw [portTrace_append, portTrace_port, portTrace_port]
        rfl
      rw [htrace]
      exact ⟨h₁, countP_isLowered he h₁⟩
  · cases hs

/-- **A step of the platform, seen from one port.** -/
theorem portStep {s s' : Platform} {e : BusEvent} {o : List BusOutput}
    (hs : busStep s e = some (s', o)) (k : Port) : PortStep k s s' o (e.routesTo k) := by
  cases e with
  | renode payload =>
    have hstep := portStep_renode s payload k
    rw [Option.some.inj hs] at hstep
    exact hstep
  | runLoop j =>
    simp only [busStep] at hs
    split at hs
    · cases hs
    · rename_i sys o hstep
      cases hs
      by_cases hj : j = k
      · subst hj
        right
        refine ⟨.runLoop, ?_⟩
        rw [portTrace_port, if_pos rfl, Function.update_self]
        exact ⟨hstep, countP_isLowered (by simp) hstep⟩
      · left
        refine ⟨Function.update_of_ne (Ne.symm hj) _ _, ?_, rfl⟩
        rw [portTrace_port, if_neg hj]
  | delta => exact portStep_both (by simp) hs k
  | advance t => exact portStep_both (by simp) hs k

/-- The answer of a step, if it has one. -/
theorem reply_step {s s' : Platform} {e : BusEvent} {o : List BusOutput}
    (hs : busStep s e = some (s', o)) : o.filterMap BusOutput.reply = e.reply.toList := by
  have hboth : ∀ e, stepBoth s e = some (s', o) → o.filterMap BusOutput.reply = [] := by
    intro e he
    unfold stepBoth at he
    split at he
    · cases he
      rw [List.filterMap_append, reply_port, reply_port]
      rfl
    · cases he
  cases e with
  | renode payload =>
    simp only [busStep, Option.some.injEq, onRenodeRequest] at hs
    cases hroute : initiatorSocket payload with
    | none =>
      rw [hroute] at hs
      cases hs
      simp only [BusEvent.reply, hroute]
      rfl
    | some k =>
      rw [hroute] at hs
      cases hs
      rw [List.filterMap_append, reply_port]
      simp only [BusEvent.reply, hroute]
      rfl
  | runLoop k =>
    simp only [busStep] at hs
    split at hs
    · cases hs
    · cases hs
      exact reply_port k _
  | delta => exact hboth _ hs
  | advance t => exact hboth _ hs

/-! ## Runs -/

/-- The time after an event. -/
def Event.clock (now : Nat) : Event → Nat
  | .advance t => t
  | _ => now

theorem now_variant {v : Variant} {sys sys' : System} {e : Event} {o : List Output}
    (hs : v.step sys e = some (sys', o)) : sys'.now = e.clock sys.now := by
  cases e with
  | transport p =>
    simp only [Variant.step, Variant.transport] at hs
    split_ifs at hs <;> cases hs <;> rfl
  | runLoop | delta =>
    simp only [Variant.step, Variant.interruptLoop] at hs
    split at hs <;> cases hs <;> rfl
  | advance t =>
    simp only [Variant.step] at hs
    split at hs
    · cases hs
    · split_ifs at hs <;> cases hs <;> rfl

/-- One interrupter takes a step at which time does not go on. -/
theorem now_update {s : Platform} {sys : System} {j : Port} (h : (s .port0).now = (s .port1).now)
    (hsys : sys.now = (s j).now) :
    (Function.update s j sys .port0).now = (Function.update s j sys .port1).now := by
  match j with
  | .port0 => exact hsys.trans h
  | .port1 => exact h.trans hsys.symm

/-- The clock is common to the interrupters. -/
theorem now_step {s s' : Platform} {e : BusEvent} {o : List BusOutput}
    (h : (s .port0).now = (s .port1).now)
    (hs : busStep s e = some (s', o)) : (s' .port0).now = (s' .port1).now := by
  have hboth : ∀ e, stepBoth s e = some (s', o) → (s' .port0).now = (s' .port1).now := by
    intro e he
    unfold stepBoth at he
    split at he
    · rename_i sys₀ o₀ sys₁ o₁ h₀ h₁
      cases he
      have hclock : sys₀.now = sys₁.now := by rw [now_variant h₀, now_variant h₁, h]
      exact hclock
    · cases he
  cases e with
  | renode payload =>
    simp only [busStep, Option.some.injEq, onRenodeRequest] at hs
    split at hs
    · rename_i k hroute
      cases hs
      apply now_update h
      have hstep : (portInterrupter k).step (s k) (.transport payload) =
          some ((portInterrupter k).transport (s k) payload) := rfl
      exact now_variant hstep
    · cases hs
      exact h
  | runLoop j =>
    simp only [busStep] at hs
    split at hs
    · cases hs
    · rename_i sys o hstep
      cases hs
      exact now_update h (now_variant hstep)
  | delta => exact hboth _ hs
  | advance t => exact hboth _ hs

/-- The ports after a run. -/
structure Accounts (es : List BusEvent) (s : Platform) (tr : List BusOutput) : Prop where
  clock : (s .port0).now = (s .port1).now
  periodic : ∀ k, Periodic (irqIntervalS k * second) (s k) (portTrace k tr)
  /-- Each raise so far is in one of the columns. -/
  account : ∀ k, (s k).loop ≠ .runnable →
    let l := ledger (portTrace k tr)
    l.edges + l.masked + l.cancelled + l.rising.toNat = (s k).now / (irqIntervalS k * second) + 1
  lowered : ∀ k, (portTrace k tr).countP Output.isLowered = es.countP (BusEvent.routesTo k)
  replies : tr.filterMap BusOutput.reply = es.filterMap BusEvent.reply

/-- What a run is for each of its ports. -/
structure Ports (es : List BusEvent) (s : Platform) (tr : List BusOutput) : Prop where
  clock : (s .port0).now = (s .port1).now
  runs : ∀ k, ∃ es', (portInterrupter k).machine.Run es' (s k) (portTrace k tr)
  lowered : ∀ k, (portTrace k tr).countP Output.isLowered = es.countP (BusEvent.routesTo k)
  replies : tr.filterMap BusOutput.reply = es.filterMap BusEvent.reply

theorem Ports.step {es : List BusEvent} {s s' : Platform} {tr o : List BusOutput} {e : BusEvent}
    (h : Ports es s tr) (hs : busStep s e = some (s', o)) : Ports (es ++ [e]) s' (tr ++ o) := by
  refine ⟨now_step h.clock hs, ?_, ?_, ?_⟩
  · intro k
    obtain ⟨es', hrun⟩ := h.runs k
    rw [portTrace_append]
    rcases portStep hs k with ⟨hsame, hnone, -⟩ | ⟨e', hstep, -⟩
    · rw [hsame, hnone, List.append_nil]
      exact ⟨es', hrun⟩
    · exact ⟨es' ++ [e'], hrun.concat hstep⟩
  · intro k
    rw [portTrace_append, List.countP_append, List.countP_append, h.lowered, List.countP_singleton]
    rcases portStep hs k with ⟨-, hnone, hroute⟩ | ⟨e', -, hcount⟩
    · rw [hnone, hroute]
      rfl
    · rw [hcount]
      cases e.routesTo k <;> rfl
  · rw [List.filterMap_append, List.filterMap_append, h.replies, reply_step hs]
    cases hr : e.reply <;> simp [hr]

theorem ports_run {es : List BusEvent} {s : Platform} {tr : List BusOutput} (h : top.Run es s tr) :
    Ports es s tr := by
  refine Machine.inv_run_history (I := Ports) ?_ (fun _ _ _ _ _ _ hI hs => hI.step hs) h
  exact ⟨rfl, fun k => ⟨[], rfl⟩, fun _ => rfl, rfl⟩

/-- **Every raise of every port is accounted for.** -/
theorem ports_account {es : List BusEvent} {s : Platform} {tr : List BusOutput}
    (h : top.Run es s tr) : Accounts es s tr := by
  have hports := ports_run h
  have hinterval : ∀ k, 0 < (portInterrupter k).interval := by
    intro k
    match k with
    | .port0 => decide
    | .port1 => decide
  have hperiodic : ∀ k, Periodic (irqIntervalS k * second) (s k) (portTrace k tr) := by
    intro k
    obtain ⟨es', hrun⟩ := hports.runs k
    exact periodic_run (hinterval k) hrun
  refine ⟨hports.clock, hperiodic, ?_, hports.lowered, hports.replies⟩
  intro k hl
  obtain ⟨es', hrun⟩ := hports.runs k
  rw [← raises_ledger (hperiodic k) hl]
  exact (balanced_run hrun).balance

/-- The first interrupt is answered, the one of the second interrupter is not: its next raise is
masked. A read and a write to another address are refused. -/
def unanswered : List BusEvent :=
  let access (command : Command) (address : UInt64) : BusEvent :=
    .renode ⟨command, address, [0, 0, 0, 2], .incomplete, Payload.wordLength_lt, 4, false⟩
  [.runLoop .port0, .runLoop .port1, .delta, access .write 0, access .read 0, access .write 4,
    .delta, .advance second, .runLoop .port0, .delta, access .write 0, .delta,
    .advance (2 * second), .runLoop .port0, access .write 0, .delta, .advance (3 * second),
    .runLoop .port1, .runLoop .port0, .delta]

theorem ports_account_unanswered : ∃ s tr, (top.Run unanswered s tr ∧
    ledger (portTrace .port0 tr) = ⟨true, true, 4, 3, 0, 1⟩ ∧
      ledger (portTrace .port1 tr) = ⟨true, true, 2, 1, 1, 0⟩) ∧ Accounts unanswered s tr := by
  have hrun : top.Run unanswered _ _ := rfl
  exact ⟨_, _, ⟨hrun, rfl, rfl⟩, ports_account hrun⟩

end RenodeSystemC.Interrupts
