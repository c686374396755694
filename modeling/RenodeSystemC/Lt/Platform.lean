import Mathlib.Algebra.BigOperators.Group.List.Basic
import RenodeSystemC.Lt.Memory
import RenodeSystemC.Lt.Schedule

/-!
# The loosely-timed platform

`top` connects two `initiator_top` modules and the Renode bridge to the bus. Both generators work on
the same addresses at the same time, and Renode may call the bus whenever it likes.

A step is one operation of a thread, the update phase of a channel, a call from Renode, or time
going on. Time goes on only while no thread and no channel can, and not past the end of a wait. A
fatal report or a failed assertion stops the simulation.

**Theorem (`schedule_exact`).** In every run each generator calls the bus in program order and is
complete at exactly 4800 ns, whatever Renode and the other generator do.
-/

namespace RenodeSystemC.Lt

open Bytes

/-! ## The machine -/

structure Platform where
  now : Nat
  targets : Fin 2 → Target
  tops : Fin 2 → InitiatorTop
  /-- A fatal report or a failed assertion has ended the simulation. -/
  stopped : Bool

/-- What a thread or a channel of an `initiator_top` does. -/
inductive ThreadEvent where
  /-- `traffic_generator_thread` goes on. -/
  | generator
  /-- The initiator reads a request and calls `b_transport`. -/
  | call
  | wake
  | respond
  | updateRequest
  | updateResponse
  deriving DecidableEq

inductive Event where
  | thread (g : Fin 2) (e : ThreadEvent)
  /-- Renode calls `b_transport`, through the bridge. -/
  | renode (p : Payload) (t : ScTime)
  | advance (t : Nat)
  deriving DecidableEq

inductive Output where
  /-- An initiator calls `b_transport`. -/
  | called (g : Fin 2) (p : Payload)
  /-- A generator reports that it is complete. -/
  | complete (g : Fin 2) (t : Nat)
  | fatal (g : Fin 2) (msg : String)
  /-- The bus has no port for a call of an initiator, or of Renode. -/
  | assertionFailed (g : Option (Fin 2))
  | answered (p : Payload) (t : ScTime)
  deriving DecidableEq

def Platform.setTop (p : Platform) (g : Fin 2) (s : InitiatorTop) : Platform :=
  { p with tops := Function.update p.tops g s }

/-- A thread or a channel can go on now. -/
def InitiatorTop.runnable (s : InitiatorTop) (now : Nat) : Bool :=
  s.generatorStep.isSome || s.takeRequest.isSome || (s.wake now).isSome || s.respond.isSome ||
    s.updateRequest.isSome || s.updateResponse.isSome

/-- The initiator does not wait for a time before `t`. -/
def InitiatorTop.waitsUntil (s : InitiatorTop) (t : Nat) : Bool :=
  match s.initiator with
  | .waiting _ until_ => t ≤ until_
  | .reading | .responding _ => true

def threadStep (p : Platform) (g : Fin 2) : ThreadEvent → Option (Platform × List Output)
  | .generator =>
    match (p.tops g).generatorStep with
    | none => none
    | some (.error msg) => some ({ p with stopped := true }, [.fatal g msg])
    | some (.ok s) =>
      some (p.setTop g s, if s.gen.point = .complete then [.complete g p.now] else [])
  | .call =>
    match (p.tops g).takeRequest with
    | none => none
    | some (t, s) =>
      match initiatorBTransport targetBTransport p.targets (s.txn t).payload 0 with
      | none => some ({ p with stopped := true }, [.assertionFailed (some g)])
      | some (targets, q, delay) =>
        some ({ p.setTop g (s.transported t p.now q delay) with targets := targets },
          [.called g (s.txn t).payload])
  | .wake => ((p.tops g).wake p.now).map fun s => (p.setTop g s, [])
  | .respond => (p.tops g).respond.map fun s => (p.setTop g s, [])
  | .updateRequest => (p.tops g).updateRequest.map fun s => (p.setTop g s, [])
  | .updateResponse => (p.tops g).updateResponse.map fun s => (p.setTop g s, [])

def step (p : Platform) (e : Event) : Option (Platform × List Output) :=
  if p.stopped then none
  else
    match e with
    | .thread g e => threadStep p g e
    | .renode q t =>
      match initiatorBTransport targetBTransport p.targets q t with
      | none => some ({ p with stopped := true }, [.assertionFailed none])
      | some (targets, q, t) => some ({ p with targets := targets }, [.answered q t])
    | .advance t =>
      if p.now < t ∧ ∀ g, (p.tops g).runnable p.now = false ∧ (p.tops g).waitsUntil t = true then
        some ({ p with now := t }, [])
      else none

/-- `top`: both initiators have the same base addresses. -/
def platform (garbage : Fin 2 → Nat → UInt32) : Machine Platform Event Output where
  init :=
    { now := 0
      targets := topTargets
      tops := ![.new 101 0 0x10000000 (garbage 0), .new 102 0 0x10000000 (garbage 1)]
      stopped := false }
  step := step

/-! ## What a step can do -/

inductive Advanced (p : Platform) : Event → Platform → List Output → Prop
  | local_ {g : Fin 2} {k : ThreadEvent} {e : TopEvent} {s : InitiatorTop}
    (hs : Stepped (p.tops g) e s) (he : e.calls = 0) (hgen : k = .generator ↔ e = .generator)
    (hwake : ∀ now, e = .wake now → now = p.now) :
    Advanced p (.thread g k) (p.setTop g s)
      (if k = .generator ∧ s.gen.point = .complete then [.complete g p.now] else [])
  | call {g : Fin 2} {t : Nat} {f : ScFifo Nat} {targets : Fin 2 → Target} {q : Payload}
    {delay : ScTime} (hi : (p.tops g).initiator = .reading)
    (hr : (p.tops g).request.nbRead = some (t, f))
    (hbus : initiatorBTransport targetBTransport p.targets ((p.tops g).txn t).payload 0 =
      some (targets, q, delay)) :
    Advanced p (.thread g .call)
      { p.setTop g ({ p.tops g with request := f }.transported t p.now q delay) with
        targets := targets }
      [.called g ((p.tops g).txn t).payload]
  | callFails {g : Fin 2} {t : Nat} {f : ScFifo Nat} (hi : (p.tops g).initiator = .reading)
    (hr : (p.tops g).request.nbRead = some (t, f))
    (hbus : initiatorBTransport targetBTransport p.targets ((p.tops g).txn t).payload 0 = none) :
    Advanced p (.thread g .call) { p with stopped := true } [.assertionFailed (some g)]
  | fatal {g : Fin 2} {all : Bool} {t : Nat} {f : ScFifo Nat} {msg : String}
    (hp : (p.tops g).gen.point = .receive all) (hr : (p.tops g).response.nbRead = some (t, f))
    (hmsg : InitiatorTop.checkResponse (p.tops g).gen.id ((p.tops g).txn t).payload = some msg) :
    Advanced p (.thread g .generator) { p with stopped := true } [.fatal g msg]
  | renode {q q' : Payload} {t t' : ScTime} {targets : Fin 2 → Target}
    (hbus : initiatorBTransport targetBTransport p.targets q t = some (targets, q', t')) :
    Advanced p (.renode q t) { p with targets := targets } [.answered q' t']
  | renodeFails {q : Payload} {t : ScTime}
    (hbus : initiatorBTransport targetBTransport p.targets q t = none) :
    Advanced p (.renode q t) { p with stopped := true } [.assertionFailed none]
  | advance {t : Nat} (ht : p.now < t)
    (hidle : ∀ g, (p.tops g).runnable p.now = false ∧ (p.tops g).waitsUntil t = true) :
    Advanced p (.advance t) { p with now := t } []

/-- The steps of a thread or a channel that only concern its own module. -/
theorem advanced_of_topStep {p : Platform} {g : Fin 2} {k : ThreadEvent} {e : TopEvent}
    {s : InitiatorTop} (h : topStep (p.tops g) e = some (s, [])) (hk : k ≠ .generator)
    (hgen : e ≠ .generator) (he : e.calls = 0) (hwake : ∀ now, e = .wake now → now = p.now) :
    Advanced p (.thread g k) (p.setTop g s) [] := by
  have hs : Stepped (p.tops g) e s :=
    (topStep_cases h).elim And.left fun hsame => absurd hsame.1 hgen
  have hadv := Advanced.local_ (k := k) hs he (iff_of_false hk hgen) hwake
  rwa [if_neg (fun hc => hk hc.1)] at hadv

theorem threadStep_cases {p p' : Platform} {g : Fin 2} {k : ThreadEvent} {o : List Output}
    (h : threadStep p g k = some (p', o)) : Advanced p (.thread g k) p' o := by
  cases k with
  | generator =>
    simp only [threadStep] at h
    cases hg : (p.tops g).generatorStep with
    | none => simp [hg] at h
    | some r =>
      rcases generatorStep_cases hg with hok | hfatal
      · obtain ⟨s, rfl, hs⟩ := hok
        simp only [hg, Option.some.injEq, Prod.mk.injEq] at h
        obtain ⟨rfl, rfl⟩ := h
        have hadv := Advanced.local_ (p := p) (k := .generator) hs rfl (iff_of_true rfl rfl)
          (fun now hw => by cases hw)
        simpa using hadv
      · obtain ⟨all, t, f, msg, rfl, hp, hr, hmsg⟩ := hfatal
        simp only [hg, Option.some.injEq, Prod.mk.injEq] at h
        obtain ⟨rfl, rfl⟩ := h
        exact .fatal hp hr hmsg
  | call =>
    simp only [threadStep, InitiatorTop.takeRequest] at h
    cases hi : (p.tops g).initiator with
    | waiting t u | responding t => simp [hi] at h
    | reading =>
      simp only [hi] at h
      cases hr : (p.tops g).request.nbRead with
      | none => simp [hr] at h
      | some r =>
        simp only [hr, Option.map_some] at h
        cases hbus : initiatorBTransport targetBTransport p.targets
            ((p.tops g).txn r.1).payload 0 with
        | none =>
          simp only [hbus, Option.some.injEq, Prod.mk.injEq] at h
          obtain ⟨rfl, rfl⟩ := h
          exact .callFails hi hr hbus
        | some b =>
          simp only [hbus, Option.some.injEq, Prod.mk.injEq] at h
          obtain ⟨rfl, rfl⟩ := h
          exact .call hi hr hbus
  | wake =>
    obtain ⟨s, hs, heq⟩ := Option.map_eq_some_iff.1 h
    cases heq
    exact advanced_of_topStep (e := .wake p.now) (Option.map_eq_some_iff.2 ⟨s, hs, rfl⟩)
      (by simp) (by simp) rfl (fun now hw => (TopEvent.wake.inj hw).symm)
  | respond =>
    obtain ⟨s, hs, heq⟩ := Option.map_eq_some_iff.1 h
    cases heq
    exact advanced_of_topStep (e := .respond) (Option.map_eq_some_iff.2 ⟨s, hs, rfl⟩) (by simp)
      (by simp) rfl (fun now hw => by cases hw)
  | updateRequest =>
    obtain ⟨s, hs, heq⟩ := Option.map_eq_some_iff.1 h
    cases heq
    exact advanced_of_topStep (e := .updateRequest) (Option.map_eq_some_iff.2 ⟨s, hs, rfl⟩)
      (by simp) (by simp) rfl (fun now hw => by cases hw)
  | updateResponse =>
    obtain ⟨s, hs, heq⟩ := Option.map_eq_some_iff.1 h
    cases heq
    exact advanced_of_topStep (e := .updateResponse) (Option.map_eq_some_iff.2 ⟨s, hs, rfl⟩)
      (by simp) (by simp) rfl (fun now hw => by cases hw)

/-- **What a step can do**, in a simulation that goes on. -/
theorem step_cases {p p' : Platform} {e : Event} {o : List Output}
    (h : step p e = some (p', o)) : p.stopped = false ∧ Advanced p e p' o := by
  unfold step at h
  split_ifs at h with hstop
  refine ⟨by simpa using hstop, ?_⟩
  cases e with
  | thread g k => exact threadStep_cases h
  | renode q t =>
    dsimp only at h
    cases hbus : initiatorBTransport targetBTransport p.targets q t with
    | none =>
      simp only [hbus, Option.some.injEq, Prod.mk.injEq] at h
      obtain ⟨rfl, rfl⟩ := h
      exact .renodeFails hbus
    | some b =>
      simp only [hbus, Option.some.injEq, Prod.mk.injEq] at h
      obtain ⟨rfl, rfl⟩ := h
      exact .renode hbus
  | advance t =>
    dsimp only at h
    split_ifs at h with hadv
    cases h
    exact .advance hadv.1 hadv.2

/-- A generator that is complete stays so. -/
theorem Advanced.complete {p p' : Platform} {e : Event} {o : List Output} (h : Advanced p e p' o)
    {g : Fin 2} (hend : (p.tops g).gen.point = .complete) : (p'.tops g).gen.point = .complete := by
  cases h with
  | @local_ k _ e s hs =>
    show (Function.update p.tops k s g).gen.point = _
    by_cases hg : g = k
    · rw [hg] at hend
      rw [hg, Function.update_self]
      by_cases he : e = .generator
      · rw [he] at hs
        exact absurd hend hs.initiator_eq.2
      · rw [hs.gen_eq he]
        exact hend
    · rw [Function.update_of_ne hg]
      exact hend
  | @call k t f targets q delay hi hr hbus =>
    show (Function.update p.tops k _ g).gen.point = _
    by_cases hg : g = k
    · rw [hg] at hend
      rw [hg, Function.update_self, (InitiatorTop.transported_fields _ _ _ _ _).1]
      exact hend
    · rw [Function.update_of_ne hg]
      exact hend
  | callFails | fatal | renode | renodeFails | advance => exact hend

/-! ## The program of a generator -/

/-- What the bus can see of a request. -/
def seen (p : Payload) : Command × UInt64 × List UInt8 :=
  (p.command, p.address, if p.command = .write then p.data else [])

/-- The call with the number `c`: two passes of sixteen writes and sixteen reads. -/
def programCall (c : Nat) : Command × UInt64 × List UInt8 :=
  let i := c / 32
  let w := c % 16
  let address := UInt64.ofNat (i * 2 ^ 28 + 4 * w)
  if 16 ≤ c % 32 then (.read, address, [])
  else (.write, address, leBytes 4 (passWord i w).toNat)

/-- The delay of a call, in ticks. -/
def cost (i : Nat) (reading : Bool) : Nat :=
  match i, reading with
  | 0, false => 80000
  | 0, true => 120000
  | _, false => 40000
  | _, true => 60000

/-- The delays of the first `n` calls. -/
def elapsed (n : Nat) : Nat :=
  ((List.range n).map fun c => cost (c / 32) (decide (16 ≤ c % 32))).sum

theorem elapsed_succ (n : Nat) :
    elapsed (n + 1) = elapsed n + cost (n / 32) (decide (16 ≤ n % 32)) := by
  rw [elapsed, List.range_succ, List.map_append, List.sum_append]
  simp [elapsed]

theorem elapsed_mono {m n : Nat} (h : m ≤ n) : elapsed m ≤ elapsed n := by
  induction h with
  | refl => exact Nat.le_refl _
  | step _ ih =>
    rw [Nat.succ_eq_add_one, elapsed_succ]
    exact Nat.le_add_right_of_le ih

theorem elapsed_total : elapsed 64 = 4800000 := by decide

section Number

variable {i w : Nat} {reading : Bool}

/-- The number of the call for a word says which word it is. -/
theorem callNumber (i : Nat) (reading : Bool) (hw : w < 16) :
    (32 * i + (if reading then 16 else 0) + w) / 32 = i ∧
      decide (16 ≤ (32 * i + (if reading then 16 else 0) + w) % 32) = reading ∧
      (32 * i + (if reading then 16 else 0) + w) % 16 = w := by
  cases reading
  · simp only [Bool.false_eq_true, if_false, decide_eq_false_iff_not]
    omega
  · simp only [if_true, decide_eq_true_eq]
    omega

theorem seen_request {p : Payload} (hw : w < 16) (h : IsRequest i reading w p) :
    seen p = programCall (32 * i + (if reading then 16 else 0) + w) := by
  obtain ⟨hi, hr, hn⟩ := callNumber i reading hw
  have haddr : p.address = UInt64.ofNat (i * 2 ^ 28 + 4 * w) := by
    rw [← h.address, UInt64.ofNat_toNat]
  rw [seen, programCall, hi, hn, h.command, haddr]
  cases reading
  · rw [if_neg (of_decide_eq_false hr)]
    simp [h.data rfl]
  · rw [if_pos (of_decide_eq_true hr)]
    simp

end Number

/-! ## A request on the bus -/

/-- The sizes and delays in `top`. -/
def topSlots : Fin 2 → Slot := fun i => (topTargets i).slot

/-- How the target `j` serves the request for the word `w`. -/
structure Served (targets targets' : Fin 2 → Target) (j : Fin 2) (reading : Bool) (w : Nat)
    (p q : Payload) (delay : ScTime) : Prop where
  status : q.responseStatus = .ok
  command : q.command = p.command
  address : q.address.toNat = 4 * w
  length : q.data.length = p.data.length
  delay : delay.toNat = cost j reading
  others : ∀ k, k ≠ j → targets' k = targets k
  read : reading = true → (targets' j).targetMemory.memory = (targets j).targetMemory.memory ∧
    q.data = (targets j).targetMemory.memory.load (4 * w) 4
  write : reading = false → (targets' j).targetMemory.memory =
    (targets j).targetMemory.memory.store (4 * w) p.data

theorem topSlots_size (j : Fin 2) : (topSlots j).size = 4096 := by
  cases j using Fin.cases with
  | zero => rfl
  | succ j => cases j using Fin.cases with
    | zero => rfl
    | succ j => exact j.elim0

theorem toNat_topDelay (j : Fin 2) (reading : Bool) :
    ((0 : ScTime) + (topSlots j).acceptDelay +
      if reading then (topSlots j).readDelay else (topSlots j).writeDelay).toNat =
      cost j reading := by
  revert j reading
  decide

/-- A request of a generator is served by its target. -/
theorem served_request {targets : Fin 2 → Target} (hfill : Fill topSlots targets) {i w : Nat}
    {reading : Bool} {p : Payload} (hi : i ≤ 1) (hw : w < 16) (h : IsRequest i reading w p) :
    ∃ (j : Fin 2) (targets' : Fin 2 → Target) (q : Payload) (delay : ScTime), (j : Nat) = i ∧
      initiatorBTransport targetBTransport targets p 0 = some (targets', q, delay) ∧
      Served targets targets' j reading w p q delay := by
  have haddr := h.address
  have hport : p.address.toNat % 2 ^ 32 / 2 ^ 28 = (⟨i, Nat.lt_succ_of_le hi⟩ : Fin 2) := by
    show _ = i
    omega
  generalize (⟨i, Nat.lt_succ_of_le hi⟩ : Fin 2) = j at hport
  have hji : (j : Nat) = i := by omega
  refine ⟨j, _, _, _, hji, initiatorBTransport_eq hport, ?_⟩
  generalize hq : p.setAddress (p.address &&& getAddressMask (decode p.address)) = q
  have hoff : q.address.toNat = 4 * w := by
    rw [← hq, Payload.setAddress_address, toNat_and_mask]
    omega
  have hcmd : q.command = p.command := by rw [← hq]; rfl
  have hdata : q.data = p.data := by rw [← hq]; rfl
  have hslot := hfill j
  have hsize : (targets j).targetMemory.memorySize.toNat = 4096 :=
    (congrArg Slot.size hslot).trans (topSlots_size j)
  have hok : (targets j).targetMemory.checkAddress q = .ok := by
    rw [checkAddress_eq_ok_iff (by omega), hsize, hoff, hdata, h.length]
    omega
  obtain ⟨hcmd', haddr', hlen'⟩ := operate_attributes (s := targets j) (p := q) (t := 0)
  have hothers : ∀ k, k ≠ j →
      Function.update targets j ((targets j).operate q 0).1 k = targets k := fun k hk =>
    Function.update_of_ne hk _ _
  have hdelay := toNat_topDelay j reading
  cases hr : reading with
  | true =>
    have hread : q.command = .read := by rw [hcmd, h.command, hr]; rfl
    obtain ⟨hm, hd, ht⟩ := operate_read (t := 0) hread hok
    rw [hr, if_pos rfl] at hdelay
    refine ⟨hok, hcmd'.trans hcmd, by rw [haddr', hoff], by rw [hlen', hdata], ?_, hothers, ?_, ?_⟩
    · rw [ht, hslot]
      exact hdelay
    · intro _
      rw [Function.update_self, hm, hd, hoff, hdata, h.length]
      exact ⟨rfl, rfl⟩
    · intro hf
      cases hf
  | false =>
    have hwrite : q.command = .write := by rw [hcmd, h.command, hr]; rfl
    obtain ⟨hm, hd, ht⟩ := operate_write (t := 0) hwrite hok
    rw [hr, if_neg Bool.false_ne_true] at hdelay
    refine ⟨hok, hcmd'.trans hcmd, by rw [haddr', hoff], by rw [hlen', hdata], ?_, hothers, ?_, ?_⟩
    · rw [ht, hslot]
      exact hdelay
    · intro hf
      cases hf
    · intro _
      rw [Function.update_self, hm, hoff, hdata]

/-! ## The schedule -/

/-- The initiator has spent the delays of its calls, and is waiting for the end of the last one or
has something to do until the generator is complete. -/
def Clock (now : Nat) (s : InitiatorTop) : Prop :=
  match s.initiator with
  | .waiting _ until_ => until_ = elapsed s.callsMade ∧ now ≤ until_
  | .reading | .responding _ =>
    elapsed s.callsMade ≤ now ∧ (s.gen.point ≠ .complete → now = elapsed s.callsMade)

/-- The calls of one initiator in a trace. -/
def Output.callOf (g : Fin 2) : Output → Option (Command × UInt64 × List UInt8)
  | .called h p => if h = g then some (seen p) else none
  | _ => none

/-- The reports that the schedule allows. -/
def Output.Scheduled : Output → Prop
  | .complete _ t => t = elapsed 64
  | .fatal _ msg => ∃ id : UInt32, msg = toString id ++ " Memory read data ERROR"
  | .assertionFailed g => g = none
  | .called .. | .answered .. => True

structure OnSchedule (R : Property) (p : Platform) (tr : List Output) : Prop where
  fill : Fill topSlots p.targets
  conserved : ∀ g, Conserved (p.tops g)
  scheduled : ∀ g, Scheduled R (p.tops g)
  clock : ∀ g, Clock p.now (p.tops g)
  calls : ∀ g, tr.filterMap (Output.callOf g) =
    (List.range (p.tops g).callsMade).map programCall
  reports : ∀ o ∈ tr, o.Scheduled

/-- In the end all calls are made, and nothing is in flight. -/
theorem callsMade_complete {R : Property} {s : InitiatorTop} (hc : Conserved s)
    (h : Scheduled R s) (hp : s.gen.point = .complete) :
    s.callsMade = 64 ∧ s.initiator = .reading ∧ s.request.contents = [] := by
  have hflight := hc.point
  rw [PointOk, hp] at hflight
  obtain ⟨htr, hunt⟩ := List.append_eq_nil_iff.1 hflight
  obtain ⟨hi, hr⟩ := h.loops.complete hp
  have hk := h.loops.k
  rw [hp] at hk
  have hissued : s.gen.issued = 16 := by
    rw [Generator.issued, hp]
    exact hk
  refine ⟨?_, ?_, (List.append_eq_nil_iff.1 hunt).1⟩
  · rw [InitiatorTop.callsMade, hi, hr, hunt, hissued]
    rfl
  · have hheld := (List.append_eq_nil_iff.1 htr).2
    cases hinit : s.initiator with
    | reading => rfl
    | waiting t u | responding t => simp [hinit, InitiatorPoint.held] at hheld

/-- No generator has made more calls than the program has. -/
theorem callsMade_le {R : Property} {s : InitiatorTop} (h : Scheduled R s) : s.callsMade ≤ 64 := by
  have hissued := h.loops.issued_le
  have hi := h.loops.i_le
  unfold InitiatorTop.callsMade
  split_ifs <;> omega

/-- **No thread is stuck.** Unless the generator is complete or the initiator is in its wait, a
thread or a channel can go on. -/
theorem runnable_of_busy {s : InitiatorTop} (now : Nat) (hc : Conserved s)
    (hcomplete : s.gen.point ≠ .complete) (hwait : ∀ t u, s.initiator ≠ .waiting t u) :
    s.runnable now = true := by
  obtain ⟨hreq, hresp⟩ := hc.pool.length_le
  have hpending : ∀ f : ScFifo Nat, f.readable = [] → f.contents ≠ [] →
      InitiatorTop.pending f = true := by
    intro f hread hcont
    have hwritten : f.written ≠ [] := by
      intro hw
      exact hcont (by rw [ScFifo.contents, hread, hw]; rfl)
    rw [InitiatorTop.pending, ScFifo.dataWritten]
    simp [hwritten]
  unfold InitiatorTop.runnable
  cases hi : s.initiator with
  | waiting t u => exact absurd hi (hwait t u)
  | responding t =>
    obtain ⟨f, hf⟩ := hc.response.exists_nbWrite hresp t
    simp [InitiatorTop.respond, hi, hf]
  | reading =>
    by_cases hread : s.request.readable = []
    · by_cases hcont : s.request.contents = []
      · -- nothing is left for the initiator: it is the generator's turn
        cases hp : s.gen.point with
        | complete => exact absurd hp hcomplete
        | body =>
          have hgen : s.generatorStep.isSome = true := by
            simp only [InitiatorTop.generatorStep, hp]
            split <;> rfl
          simp [hgen]
        | send t =>
          obtain ⟨f, hf⟩ := hc.request.exists_nbWrite hreq t
          simp [InitiatorTop.generatorStep, hp, hf]
        | check all =>
          have hgen : s.generatorStep.isSome = true := by
            simp only [InitiatorTop.generatorStep, hp]
            split_ifs <;> rfl
          simp [hgen]
        | checkAll =>
          have hgen : s.generatorStep.isSome = true := by
            simp only [InitiatorTop.generatorStep, hp]
            split_ifs <;> rfl
          simp [hgen]
        | receive all =>
          have hflight := hc.point
          rw [PointOk, hp] at hflight
          have hresponse : s.response.contents ≠ [] := by
            simpa [InitiatorTop.flight, InitiatorTop.transportedTxns, InitiatorTop.untransported,
              hi, hp, hcont, InitiatorPoint.held, GeneratorPoint.sending] using hflight
          by_cases hresp' : s.response.readable = []
          · simp [InitiatorTop.updateResponse, hpending _ hresp' hresponse]
          · obtain ⟨r, hr⟩ := ScFifo.exists_nbRead hresp'
            have hgen : s.generatorStep.isSome = true := by
              simp only [InitiatorTop.generatorStep, hp, hr]
              split <;> rfl
            simp [hgen]
      · simp [InitiatorTop.updateRequest, hpending _ hread hcont]
    · obtain ⟨r, hr⟩ := ScFifo.exists_nbRead hread
      simp [InitiatorTop.takeRequest, hi, hr]

/-! ## Time -/

section Clock

variable {R : Property} {s s' : InitiatorTop} {now : Nat}

theorem clock_of_eq (h : Clock now s) (hi : s'.initiator = s.initiator)
    (hcalls : s'.callsMade = s.callsMade)
    (hp : s.gen.point = .complete → s'.gen.point = .complete) :
    Clock now s' := by
  unfold Clock at h ⊢
  rw [hi, hcalls]
  cases hinit : s.initiator with
  | waiting t u =>
    simp only [hinit] at h ⊢
    exact h
  | reading | responding t =>
    simp only [hinit] at h ⊢
    exact ⟨h.1, fun hne => h.2 fun hend => hne (hp hend)⟩

/-- A step that calls nothing takes no time. -/
theorem Clock.stepped {e : TopEvent} (h : Clock now s) (hs : Stepped s e s') (he : e.calls = 0)
    (hwake : ∀ t, e = .wake t → t = now) (hcalls : s'.callsMade = s.callsMade) : Clock now s' := by
  cases e with
  | generator =>
    obtain ⟨hi, hp⟩ := hs.initiator_eq
    exact clock_of_eq h hi hcalls fun hend => absurd hend hp
  | take => cases he
  | wake t =>
    have ht := hwake t rfl
    cases hs with
    | wake hi hle =>
      simp only [Clock, hi] at h
      obtain ⟨hu, hnow⟩ := h
      have heq : now = elapsed s.callsMade := by omega
      show _ ∧ _
      rw [hcalls]
      exact ⟨heq.ge, fun _ => heq⟩
  | respond =>
    have hgen := hs.gen_eq (by simp)
    cases hs with
    | respond hi hw =>
      simp only [Clock, hi] at h
      show _ ∧ _
      rw [hcalls]
      exact h
  | updateRequest =>
    cases hs
    exact clock_of_eq h rfl hcalls id
  | updateResponse =>
    cases hs
    exact clock_of_eq h rfl hcalls id

/-- The wait after a call ends when its delay has passed. -/
theorem Clock.call (hc : Conserved s) (hsched : Scheduled R s) (h : Clock now s) {t : Nat}
    {f : ScFifo Nat} {p : Payload} {delay : ScTime} {i w : Nat} {reading : Bool}
    (hi : s.initiator = .reading) (hr : s.request.nbRead = some (t, f))
    (hok : p.responseStatus = .ok)
    (hdelay : delay.toNat = cost i reading) (hw : w < 16)
    (hcount : s.callsMade = 32 * i + (if reading then 16 else 0) + w)
    (hcalls : ({ s with request := f }.transported t now p delay).callsMade = s.callsMade + 1) :
    Clock now ({ s with request := f }.transported t now p delay) := by
  have hbusy : s.gen.point ≠ .complete := by
    intro hend
    have hempty := (callsMade_complete hc hsched hend).2.2
    rw [(ScFifo.nbRead_eq_some hr).2] at hempty
    cases hempty
  have hwait : ({ s with request := f }.transported t now p delay).initiator =
      .waiting t (now + delay.toNat) := by
    simp only [InitiatorTop.transported, hok, if_true]
  simp only [Clock, hi] at h
  have hnow := h.2 hbusy
  obtain ⟨hpass, hread, -⟩ := callNumber i reading hw
  unfold Clock
  rw [hwait]
  refine ⟨?_, Nat.le_add_right _ _⟩
  rw [hcalls, elapsed_succ, hcount, hpass, hread, hdelay, ← hcount, ← hnow]

/-- Time goes on only during the waits, or when the generator is complete. -/
theorem Clock.advance (hc : Conserved s) (h : Clock now s) {t : Nat} (ht : now < t)
    (hidle : s.runnable now = false) (hwaits : s.waitsUntil t = true) : Clock t s := by
  by_cases hwait : ∃ x u, s.initiator = .waiting x u
  · obtain ⟨x, u, hi⟩ := hwait
    simp only [Clock, hi] at h ⊢
    simp only [InitiatorTop.waitsUntil, hi, decide_eq_true_eq] at hwaits
    exact ⟨h.1, hwaits⟩
  · have hend : s.gen.point = .complete := by
      by_contra hne
      have hrun := runnable_of_busy now hc hne fun x u hi => hwait ⟨x, u, hi⟩
      rw [hidle] at hrun
      cases hrun
    unfold Clock at h ⊢
    cases hi : s.initiator with
    | waiting x u => exact absurd ⟨x, u, hi⟩ hwait
    | reading | responding =>
      simp only [hi] at h ⊢
      exact ⟨h.1.trans ht.le, fun hne => absurd hend hne⟩

end Clock

/-! ## Every run is on schedule -/

theorem fill_of_bus {targets targets' : Fin 2 → Target} {q q' : Payload} {t t' : ScTime}
    (h : Fill topSlots targets)
    (hbus : initiatorBTransport targetBTransport targets q t = some (targets', q', t')) :
    Fill topSlots targets' := by
  have hfill := fill_busServe h ⟨0, q, t⟩
  simpa only [busServe, hbus] using hfill

/-- The one error that a response of the schedule can raise. -/
theorem checkResponse_of_isResponse {R : Property} {i w : Nat} {reading : Bool} {q : Payload}
    (h : IsResponse R i reading w q) {id : UInt32} {msg : String}
    (hmsg : InitiatorTop.checkResponse id q = some msg) :
    reading = true ∧ msg = toString id ++ " Memory read data ERROR" := by
  unfold InitiatorTop.checkResponse at hmsg
  rw [if_neg (not_not.2 h.status)] at hmsg
  dsimp only at hmsg
  split_ifs at hmsg with hread
  rw [h.command] at hread
  cases reading
  · cases hread
  · exact ⟨rfl, (Option.some.inj hmsg).symm⟩

/-- The response that is read next answers the oldest call that is not checked yet. -/
theorem isResponse_of_nbRead {R : Property} {s : InitiatorTop} (h : Scheduled R s) {t : Nat}
    {f : ScFifo Nat} (hr : s.response.nbRead = some (t, f)) :
    ∃ w, w < 16 ∧ IsResponse R s.gen.i s.gen.reading w (s.txn t).payload := by
  have htr : s.transportedTxns = t :: (f.contents ++ s.initiator.held) := by
    rw [InitiatorTop.transportedTxns, (ScFifo.nbRead_eq_some hr).2, List.cons_append]
  have hresponses := h.responses
  have hissued := h.loops.issued_le
  have hlen := length_flight s
  have hle := h.le
  rw [htr, Numbered.cons] at hresponses
  rw [htr, List.length_cons] at hlen
  exact ⟨_, by omega, hresponses.1⟩

namespace OnSchedule

variable {R : Property} {p p' : Platform} {tr o : List Output}

/-- One module moves on, and the targets with it. -/
theorem setTop (h : OnSchedule R p tr) {g : Fin 2} {s : InitiatorTop} {targets : Fin 2 → Target}
    (hfill : Fill topSlots targets) (hc : Conserved s) (hs : Scheduled R s)
    (hclock : Clock p.now s)
    (hcalls : (List.range s.callsMade).map programCall =
      (List.range (p.tops g).callsMade).map programCall ++ o.filterMap (Output.callOf g))
    (hothers : ∀ k, k ≠ g → o.filterMap (Output.callOf k) = []) (hreports : ∀ x ∈ o, x.Scheduled) :
    OnSchedule R { p.setTop g s with targets := targets } (tr ++ o) := by
  have hself : (Function.update p.tops g s) g = s := Function.update_self ..
  have hother : ∀ k, k ≠ g → (Function.update p.tops g s) k = p.tops k := fun k hk =>
    Function.update_of_ne hk _ _
  refine ⟨hfill, ?_, ?_, ?_, ?_, ?_⟩
  · intro k
    show Conserved (Function.update p.tops g s k)
    by_cases hk : k = g
    · rw [hk, hself]
      exact hc
    · rw [hother k hk]
      exact h.conserved k
  · intro k
    show Scheduled R (Function.update p.tops g s k)
    by_cases hk : k = g
    · rw [hk, hself]
      exact hs
    · rw [hother k hk]
      exact h.scheduled k
  · intro k
    show Clock p.now (Function.update p.tops g s k)
    by_cases hk : k = g
    · rw [hk, hself]
      exact hclock
    · rw [hother k hk]
      exact h.clock k
  · intro k
    show _ = (List.range (Function.update p.tops g s k).callsMade).map programCall
    rw [List.filterMap_append, h.calls k]
    by_cases hk : k = g
    · rw [hk, hself]
      exact hcalls.symm
    · rw [hother k hk, hothers k hk, List.append_nil]
  · intro x hx
    rcases List.mem_append.1 hx with hold | hnew
    · exact h.reports x hold
    · exact hreports x hnew

/-- The modules stay where they are. -/
theorem stay (h : OnSchedule R p tr) (htops : p'.tops = p.tops) (hfill : Fill topSlots p'.targets)
    (hclock : ∀ g, Clock p'.now (p.tops g)) (hcalls : ∀ g, o.filterMap (Output.callOf g) = [])
    (hreports : ∀ x ∈ o, x.Scheduled) : OnSchedule R p' (tr ++ o) := by
  refine ⟨hfill, ?_, ?_, ?_, ?_, ?_⟩
  · rw [htops]
    exact h.conserved
  · rw [htops]
    exact h.scheduled
  · rw [htops]
    exact hclock
  · intro g
    rw [htops, List.filterMap_append, hcalls g, List.append_nil]
    exact h.calls g
  · intro x hx
    rcases List.mem_append.1 hx with hold | hnew
    · exact h.reports x hold
    · exact hreports x hnew

theorem stop (h : OnSchedule R p tr) (hcalls : ∀ g, o.filterMap (Output.callOf g) = [])
    (hreports : ∀ x ∈ o, x.Scheduled) : OnSchedule R { p with stopped := true } (tr ++ o) :=
  h.stay rfl h.fill h.clock hcalls hreports

/-- The time does not pass the delays of all calls while a generator is not complete. -/
theorem now_le (h : OnSchedule R p tr) {g : Fin 2} (hne : (p.tops g).gen.point ≠ .complete) :
    p.now ≤ 4800000 := by
  have hclock := h.clock g
  have hmono := elapsed_mono (callsMade_le (h.scheduled g))
  rw [elapsed_total] at hmono
  unfold Clock at hclock
  cases hi : (p.tops g).initiator with
  | waiting t u =>
    simp only [hi] at hclock
    omega
  | reading | responding =>
    simp only [hi] at hclock
    have heq := hclock.2 hne
    omega

/-- A generator that becomes complete does so when the delays of all calls have passed. -/
theorem complete_now (h : OnSchedule R p tr) {g : Fin 2} {s : InitiatorTop}
    (hs : Stepped (p.tops g) .generator s) (hc : Conserved s) (hsched : Scheduled R s)
    (hcalls : s.callsMade = (p.tops g).callsMade) (hend : s.gen.point = .complete) :
    p.now = elapsed 64 := by
  obtain ⟨hi, hp⟩ := hs.initiator_eq
  obtain ⟨hmade, hread, -⟩ := callsMade_complete hc hsched hend
  have hclock := h.clock g
  rw [hi] at hread
  simp only [Clock, hread] at hclock
  rw [hclock.2 hp, ← hcalls, hmade]

/-- **One step.** What is known of the responses has to be true of those that the targets give. -/
theorem step (h : OnSchedule R p tr) {e : Event} (hadv : Advanced p e p' o)
    (hR : ∀ (g j : Fin 2) (reading : Bool) (w : Nat) (targets' : Fin 2 → Target)
      (p₀ q : Payload) (delay : ScTime), w < 16 →
      (p.tops g).callsMade = 32 * j + (if reading then 16 else 0) + w →
      Served p.targets targets' j reading w p₀ q delay → R j reading w q) :
    OnSchedule R p' (tr ++ o) := by
  cases hadv with
  | @local_ g k e s hs he hgen hwake =>
    obtain ⟨hsched, hcalls⟩ := (h.scheduled g).stepped (h.conserved g) hs (by
      intro now q delay t f htake
      rw [htake] at he
      cases he)
    rw [he, Nat.add_zero] at hcalls
    have hc := (h.conserved g).stepped hs
    refine h.setTop h.fill hc hsched ((h.clock g).stepped hs he hwake hcalls) ?_ ?_ ?_
    · rw [hcalls]
      split_ifs <;> simp [Output.callOf]
    · intro k' _
      split_ifs <;> simp [Output.callOf]
    · intro x hx
      split_ifs at hx with hend
      · rw [List.mem_singleton] at hx
        rw [hx]
        rw [hgen.1 hend.1] at hs
        exact h.complete_now hs hc hsched hcalls hend.2
      · cases hx
  | @call g t f targets q delay hi hr hbus =>
    obtain ⟨w, hw, hrequest, hcount⟩ := (h.scheduled g).next hr
    obtain ⟨j, targets', q', delay', hj, hbus', hserved⟩ :=
      served_request h.fill (h.scheduled g).loops.i_le hw hrequest
    rw [hbus] at hbus'
    cases hbus'
    have hstep : Stepped (p.tops g) (.take p.now q delay) _ := .take hi hr
    obtain ⟨hsched, hcalls⟩ := (h.scheduled g).stepped (h.conserved g) hstep (by
      intro now q₁ delay₁ t₁ f₁ htake hr₁
      cases htake
      rw [hr] at hr₁
      cases hr₁
      intro w' hw' hcount' _
      have hww : w' = w := by omega
      rw [hww]
      rw [← hj] at hcount ⊢
      exact ⟨hserved.status, hserved.command.trans hrequest.command, hserved.address,
        hserved.length.trans hrequest.length, hR g j _ w _ _ _ _ hw hcount hserved⟩)
    refine h.setTop (fill_of_bus h.fill hbus) ((h.conserved g).stepped hstep) hsched
      ((h.clock g).call (h.conserved g) (h.scheduled g) hi hr hserved.status
        (hj ▸ hserved.delay) hw hcount hcalls) ?_ ?_ ?_
    · rw [hcalls]
      show (List.range ((p.tops g).callsMade + 1)).map programCall = _
      rw [List.range_succ, List.map_append, List.map_singleton, hcount, ← seen_request hw hrequest]
      simp [Output.callOf]
    · intro k hk
      simp [Output.callOf, hk.symm]
    · intro x hx
      rw [List.mem_singleton.1 hx]
      trivial
  | @callFails g t f hi hr hbus =>
    obtain ⟨w, hw, hrequest, -⟩ := (h.scheduled g).next hr
    obtain ⟨j, targets', q, delay, hj, hbus', hserved⟩ :=
      served_request h.fill (h.scheduled g).loops.i_le hw hrequest
    rw [hbus] at hbus'
    cases hbus'
  | @fatal g all t f msg hp hr hmsg =>
    obtain ⟨w, -, hresponse⟩ := isResponse_of_nbRead (h.scheduled g) hr
    refine h.stop (fun _ => rfl) ?_
    intro x hx
    rw [List.mem_singleton.1 hx]
    exact ⟨_, (checkResponse_of_isResponse hresponse hmsg).2⟩
  | renode hbus =>
    refine h.stay rfl (fill_of_bus h.fill hbus) h.clock (fun _ => rfl) ?_
    intro x hx
    rw [List.mem_singleton.1 hx]
    trivial
  | renodeFails hbus =>
    refine h.stop (fun _ => rfl) ?_
    intro x hx
    rw [List.mem_singleton.1 hx]
    rfl
  | advance ht hidle =>
    refine h.stay rfl h.fill ?_ (fun _ => rfl) (by simp)
    intro g
    exact (h.clock g).advance (h.conserved g) ht (hidle g).1 (hidle g).2

end OnSchedule

/-- The initial state. -/
theorem onSchedule_init (R : Property) (garbage : Fin 2 → Nat → UInt32) :
    OnSchedule R (platform garbage).init [] := by
  have htops : ∀ g, ∃ id, (platform garbage).init.tops g = .new id 0 0x10000000 (garbage g) := by
    intro g
    cases g using Fin.cases with
    | zero => exact ⟨101, rfl⟩
    | succ g => cases g using Fin.cases with
      | zero => exact ⟨102, rfl⟩
      | succ g => exact g.elim0
  refine ⟨fun _ => rfl, ?_, ?_, ?_, ?_, by simp⟩
  · intro g
    obtain ⟨id, hg⟩ := htops g
    rw [hg]
    exact conserved_new ..
  · intro g
    obtain ⟨id, hg⟩ := htops g
    rw [hg]
    refine ⟨⟨rfl, rfl, Nat.zero_le 1, Nat.zero_lt_succ 15, ?_, ?_⟩, fun t => length_leBytes _ _,
      Nat.zero_le _, Numbered.nil, Numbered.nil⟩
    · show (0 : UInt64).toNat = 0 * 2 ^ 28 + 4 * 0
      rw [Nat.zero_mul]
      rfl
    · intro hend
      cases hend
  · intro g
    obtain ⟨id, hg⟩ := htops g
    rw [hg]
    exact ⟨Nat.zero_le _, fun _ => rfl⟩
  · intro g
    obtain ⟨id, hg⟩ := htops g
    rw [hg]
    rfl

section Runs

variable {garbage : Fin 2 → Nat → UInt32} {es : List Event} {p : Platform} {tr : List Output}

theorem onSchedule_run (h : (platform garbage).Run es p tr) :
    OnSchedule (fun _ _ _ _ => True) p tr := by
  refine Machine.inv_run (onSchedule_init _ garbage) ?_ h
  intro p tr e p' o hI hs
  exact hI.step (step_cases hs).2 fun _ _ _ _ _ _ _ _ _ _ _ => trivial

/-- **Program order and exact time.** Whatever Renode and the other generator do, each generator
calls the bus in the order of its program, no call of it fails an assertion, it is complete at
exactly 4800 ns, and the only error it ever reports is one of the data it reads. -/
theorem schedule_exact (h : (platform garbage).Run es p tr) :
    (∀ g, tr.filterMap (Output.callOf g) =
        ((List.range 64).map programCall).take (p.tops g).callsMade) ∧
      (∀ g t, Output.complete g t ∈ tr → t = 4800000) ∧
      (∀ g, 4800000 < p.now → (p.tops g).gen.point = .complete ∧ (p.tops g).callsMade = 64) ∧
      (∀ g, Output.assertionFailed (some g) ∉ tr) ∧
      ∀ g msg, Output.fatal g msg ∈ tr →
        ∃ id : UInt32, msg = toString id ++ " Memory read data ERROR" := by
  have hI := onSchedule_run h
  refine ⟨?_, ?_, ?_, ?_, ?_⟩
  · intro g
    have hle := callsMade_le (hI.scheduled g)
    rw [hI.calls g, ← List.map_take, List.take_range, Nat.min_eq_left hle]
  · intro g t ht
    rw [← elapsed_total]
    exact hI.reports _ ht
  · intro g hnow
    have hend : (p.tops g).gen.point = .complete := by
      by_contra hne
      exact absurd (hI.now_le hne) (Nat.not_le_of_lt hnow)
    exact ⟨hend, (callsMade_complete (hI.conserved g) (hI.scheduled g) hend).1⟩
  · intro g hg
    have hnone := hI.reports _ hg
    cases hnone
  · intro g msg hg
    exact hI.reports _ hg

end Runs

/-! ## A whole program -/

/-- Time goes on to `t`, and both modules do the same. -/
def together (t : Nat) (es : List ThreadEvent) : List Event :=
  .advance t :: (es.map (.thread 0) ++ es.map (.thread 1))

/-- So many times, one period after the other. -/
def rounds (n start period : Nat) (es : List ThreadEvent) : List Event :=
  (List.range n).flatMap fun k => together (start + k * period) es

/-- Both generators work through their programs side by side, after Renode has written next to the
tested words. -/
def wholeProgram : List Event :=
  let generators (n : Nat) : List ThreadEvent := List.replicate n .generator
  let send : List ThreadEvent := [.updateRequest, .call, .updateRequest]
  let answer : List ThreadEvent := [.wake, .respond, .updateResponse]
  let answerAndSend : List ThreadEvent := [.wake, .respond, .call, .updateRequest, .updateResponse]
  let opening := List.flatten [generators 3, send]
  let first := List.flatten [answer, generators 4, send, [.updateResponse]]
  let turn := List.flatten [answer, generators 14, send, [.updateResponse]]
  let next := List.flatten [answerAndSend, generators 4, [.updateRequest, .updateResponse]]
  let last := List.flatten [answerAndSend, generators 3, [.updateResponse]]
  let report := List.flatten [answer, generators 2, [.updateResponse]]
  List.flatten [opening.map (.thread 0), opening.map (.thread 1),
    [.renode (writeRequest (Transaction.new 0).payload 64 7) 0],
    rounds 15 80000 80000 first, together 1280000 turn,
    rounds 12 1400000 120000 next, rounds 3 2840000 120000 last, together 3200000 turn,
    rounds 12 3240000 40000 next, rounds 3 3720000 40000 last, together 3840000 turn,
    rounds 12 3900000 60000 next, rounds 3 4620000 60000 last, together 4800000 report,
    [.advance 4800001]]

/-- The run and its end. -/
theorem run_wholeProgram : ∃ p tr, (platform fun _ _ => 0).Run wholeProgram p tr ∧
    p.now = 4800001 ∧ p.stopped = false ∧ ∀ g, Output.complete g 4800000 ∈ tr := by
  have hrun : ((platform fun _ _ => 0).runFrom (platform fun _ _ => 0).init wholeProgram).map
      (fun r => (r.1.now, r.1.stopped, decide (∀ g, Output.complete g 4800000 ∈ r.2))) =
        some (4800001, false, true) := by
    decide +kernel
  obtain ⟨⟨p, tr⟩, h, hend⟩ := Option.map_eq_some_iff.1 hrun
  simp only [Prod.mk.injEq, decide_eq_true_eq] at hend
  exact ⟨p, tr, h, hend⟩

theorem schedule_exact_wholeProgram : ∃ p tr, (platform fun _ _ => 0).Run wholeProgram p tr ∧
    (∀ g, Output.complete g 4800000 ∈ tr) ∧
    ∀ g, tr.filterMap (Output.callOf g) = (List.range 64).map programCall := by
  obtain ⟨p, tr, h, hnow, -, hreports⟩ := run_wholeProgram
  obtain ⟨hcalls, -, hend, -⟩ := schedule_exact h
  refine ⟨p, tr, h, hreports, ?_⟩
  intro g
  rw [hcalls g, (hend g (by omega)).2, List.take_of_length_le (by simp)]

end RenodeSystemC.Lt
