import RenodeSystemC.Lib.Machine
import RenodeSystemC.Lib.Peq
import RenodeSystemC.Lib.Tlm

/-!
# The native register behind a payload event queue

`nb_transport_fw` puts every transaction into a `peq_with_get`, due after the delay it comes with;
`peq_thread` waits for the queue's event, serves what is due and answers each transaction through
`nb_transport_bw`. Requests may overlap and come in any order of their due times, and the initiator
may make the next one while it is answered; all of them share the one event.

**Theorem (`linearizable`).** In every run the transactions are answered in the order of their due
times, those due at the same time in the order of their calls, each exactly once; a read returns
what the last write before it in that order wrote; and as long as one is in the queue, the thread
will wake up in time for it.

`b_transport` reads and writes the register past the queue and is not used together with it.
-/

namespace RenodeSystemC.NonBlocking

/-! ## State -/

/-- `tlm_phase`. -/
inductive Phase where
  | beginReq
  | endReq
  | beginResp
  | endResp
  deriving DecidableEq, Repr

/-- `tlm_sync_enum`. -/
inductive SyncEnum where
  | accepted
  | updated
  | completed
  deriving DecidableEq, Repr

/-- A generic payload of four bytes; `peq_thread` asserts the length. -/
structure Transaction where
  /-- Which payload object it is. -/
  id : Nat
  command : Command
  data : UInt32
  responseStatus : ResponseStatus
  deriving DecidableEq

/-- The places where `peq_thread` can be. -/
inductive ThreadPc where
  /-- The kernel has not run it yet. -/
  | starting
  | waiting
  /-- The event was notified: it takes transactions from the queue until there is none. -/
  | draining
  deriving DecidableEq, Repr

/-- `peripheral`, the `nb_done` of its initiator, and the kernel as far as they see it. Times are
counted in ticks. -/
structure Peripheral (peq : PeqWithGet Transaction) where
  now : Nat
  /-- The event of `m_peq`. -/
  event : Notification Nat
  /-- Where `peq_thread` is. -/
  pc : ThreadPc
  queue : peq.Queue
  regValue : UInt32
  nbDone : Bool

variable {peq : PeqWithGet Transaction}

variable (peq) in
def Peripheral.init : Peripheral peq where
  now := 0
  event := .none
  pc := .starting
  queue := peq.empty
  regValue := 0
  nbDone := false

/-- The transactions in the queue. -/
def Peripheral.queued (s : Peripheral peq) : List (Timed Nat Transaction) := peq.scheduled s.queue

theorem Peripheral.queued_mk (now : Nat) (event : Notification Nat) (pc : ThreadPc)
    (queue : peq.Queue) (regValue : UInt32) (nbDone : Bool) :
    (⟨now, event, pc, queue, regValue, nbDone⟩ : Peripheral peq).queued = peq.scheduled queue := rfl

/-! ## The functions -/

/-- `peripheral::nb_transport_fw`. -/
def Peripheral.nbTransportFw (s : Peripheral peq) (payload : Transaction) (phase : Phase)
    (time : Nat) : Peripheral peq × Phase × SyncEnum :=
  match phase with
  | .beginReq =>
    ({ s with
      queue := peq.notify s.now s.queue payload time
      event := s.event.notify s.now (s.now + time) }, .endReq, .updated)
  | .endResp => (s, .endResp, .completed)
  | phase => (s, phase, .accepted)

/-- `top::nb_transport_bw`, with `nb_done`. -/
def nbTransportBw (nbDone : Bool) : Phase → Bool × Phase × SyncEnum
  | .endReq => (nbDone, .endReq, .accepted)
  | .beginResp => (true, .endResp, .updated)
  | phase => (nbDone, phase, .completed)

/-- The two `memcpy` branches of `peq_thread`: the register and the transaction. -/
def transfer (regValue : UInt32) (trans : Transaction) : UInt32 × Transaction :=
  match trans.command with
  | .write => (trans.data, trans)
  | .read => (regValue, { trans with data := regValue })
  | .ignore => (regValue, trans)

/-- A call of `nb_transport_bw` with `BEGIN_RESP`. -/
structure Response where
  time : Nat
  /-- The transaction as it was taken from the queue. -/
  request : Transaction
  /-- The transaction as it is passed on. -/
  trans : Transaction
  returned : Phase × SyncEnum
  deriving DecidableEq

/-- `peq_thread`, up to its next `wait` or the return of its next `nb_transport_bw`. -/
def Peripheral.peqThread (s : Peripheral peq) : Option (Peripheral peq × Option Response) :=
  match s.pc with
  | .starting => some ({ s with pc := .waiting }, none)
  | .waiting => none
  | .draining =>
    match peq.getNextTransaction s.now s.queue with
    | .transaction request queue =>
      let (regValue, sent) := transfer s.regValue request
      let sent := { sent with responseStatus := .ok }
      let (nbDone, returned) := nbTransportBw s.nbDone .beginResp
      some ({ s with queue, regValue, nbDone }, some ⟨s.now, request, sent, returned⟩)
    | .null queue notified =>
      let event := match notified with
        | none => s.event
        | some t => s.event.notify s.now (s.now + t)
      some ({ s with queue, event, pc := .waiting }, none)

/-! ## The machine -/

inductive Event where
  /-- A call of `nb_transport_fw`; while the thread is draining it may come from within
  `nb_transport_bw`. -/
  | nbTransportFw (payload : Transaction) (phase : Phase) (time : Nat)
  /-- The kernel runs the thread. -/
  | run
  /-- The delta notification phase. -/
  | deltaCycle
  /-- Nothing is left to do at this time, and time goes on to `t`. -/
  | advance (t : Nat)
  deriving DecidableEq

inductive Output where
  /-- A call of `nb_transport_fw`, when it was made and what it returned. -/
  | forward (now : Nat) (payload : Transaction) (phase : Phase) (time : Nat)
    (returned : Phase × SyncEnum)
  | backward (r : Response)
  deriving DecidableEq

def step (s : Peripheral peq) : Event → Option (Peripheral peq × List Output)
  | .nbTransportFw payload phase time =>
    let (s', returned) := s.nbTransportFw payload phase time
    some (s', [.forward s.now payload phase time returned])
  | .run => s.peqThread.map fun r => (r.1, (r.2.map Output.backward).toList)
  | .deltaCycle =>
    if s.pc = .waiting ∧ s.event = .delta then
      some ({ s with event := .none, pc := .draining }, [])
    else none
  | .advance t =>
    if s.pc = .waiting ∧ s.now < t then
      match s.event with
      | .none => some ({ s with now := t }, [])
      | .delta => none
      | .timed u =>
        if t < u then some ({ s with now := t }, [])
        else if t = u then some ({ s with now := t, event := .none, pc := .draining }, [])
        else none
    else none

variable (peq) in
/-- The peripheral with its initiator, from the start of the simulation. -/
def peripheral : Machine (Peripheral peq) Event Output where
  init := .init peq
  step := step

def Event.IsCall : Event → Prop
  | .nbTransportFw _ _ _ => True
  | _ => False

def Output.called : Output → Option (Timed Nat Transaction)
  | .forward now payload .beginReq time _ => some ⟨now + time, payload⟩
  | _ => none

def Output.response : Output → Option Response
  | .backward r => some r
  | _ => none

/-- The transactions passed to `nb_transport_fw` with `BEGIN_REQ`, with the times they are due, in
the order of the calls. -/
def calls (tr : List Output) : List (Timed Nat Transaction) := tr.filterMap Output.called

def responses (tr : List Output) : List Response := tr.filterMap Output.response

/-- The transaction that is answered, with the time at which it is. -/
def Response.timed (r : Response) : Timed Nat Transaction := ⟨r.time, r.request⟩

/-- What the last write of a list wrote, zero if there is none. -/
def lastWrite (l : List Transaction) : UInt32 :=
  ((l.filter fun x => x.command = .write).getLast?.map (·.data)).getD 0

/-! ## One step -/

/-- What a step does, in terms of the transactions in the queue. -/
inductive Stepped (s : Peripheral peq) : Event → Peripheral peq → List Output → Prop
  | request {payload : Transaction} {time : Nat} {queue : peq.Queue} {returned : Phase × SyncEnum}
      (hq : peq.scheduled queue = schedule ⟨s.now + time, payload⟩ s.queued) :
      Stepped s (.nbTransportFw payload .beginReq time)
        { s with queue, event := s.event.notify s.now (s.now + time) }
        [.forward s.now payload .beginReq time returned]
  | otherPhase {payload : Transaction} {phase : Phase} {time : Nat} {returned : Phase × SyncEnum}
      (h : phase ≠ .beginReq) :
      Stepped s (.nbTransportFw payload phase time) s [.forward s.now payload phase time returned]
  | started (hpc : s.pc = .starting) : Stepped s .run { s with pc := .waiting } []
  | answered (hpc : s.pc = .draining) {d : Nat} {request : Transaction}
      {rest : List (Timed Nat Transaction)} {queue : peq.Queue}
      (hs : s.queued = ⟨d, request⟩ :: rest) (hd : d ≤ s.now) (hq : peq.scheduled queue = rest) :
      Stepped s .run
        { s with queue, regValue := (transfer s.regValue request).1, nbDone := true }
        [.backward ⟨s.now, request, { (transfer s.regValue request).2 with responseStatus := .ok },
          (.endResp, .updated)⟩]
  | suspended (hpc : s.pc = .draining) {d : Nat} {request : Transaction}
      {rest : List (Timed Nat Transaction)} {queue : peq.Queue}
      (hs : s.queued = ⟨d, request⟩ :: rest) (hd : s.now < d)
      (hq : peq.scheduled queue = s.queued) :
      Stepped s .run { s with queue, event := s.event.notify s.now d, pc := .waiting } []
  | drained (hpc : s.pc = .draining) {queue : peq.Queue} (hs : s.queued = [])
      (hq : peq.scheduled queue = []) : Stepped s .run { s with queue, pc := .waiting } []
  | woken (hpc : s.pc = .waiting) (he : s.event = .delta) :
      Stepped s .deltaCycle { s with event := .none, pc := .draining } []
  | idle (hpc : s.pc = .waiting) {t : Nat} (ht : s.now < t)
      (he : s.event = .none ∨ ∃ u, s.event = .timed u ∧ t < u) :
      Stepped s (.advance t) { s with now := t } []
  | due (hpc : s.pc = .waiting) {t : Nat} (ht : s.now < t) (he : s.event = .timed t) :
      Stepped s (.advance t) { s with now := t, event := .none, pc := .draining } []

/-- The thread's step while it is draining. -/
theorem stepped_draining {s s' : Peripheral peq} {r : Option Response} (hpc : s.pc = .draining)
    (h : s.peqThread = some (s', r)) :
    Stepped s .run s' (r.map Output.backward).toList := by
  simp only [Peripheral.peqThread, hpc] at h
  cases hs : s.queued with
  | nil =>
    obtain ⟨queue, hnext, hq⟩ := peq.getNextTransaction_nil s.now hs
    rw [hnext] at h
    cases h
    exact .drained hpc hs hq
  | cons x rest =>
    obtain ⟨d, request⟩ := x
    rcases Nat.lt_or_ge s.now d with hlt | hle
    · obtain ⟨queue, hnext, hq⟩ := peq.getNextTransaction_early hs hlt
      rw [hnext] at h
      simp only [Nat.add_sub_of_le hlt.le] at h
      cases h
      exact .suspended hpc hs hlt hq
    · obtain ⟨queue, hnext, hq⟩ := peq.getNextTransaction_due hs hle
      rw [hnext] at h
      cases h
      rw [← hpc]
      exact .answered hpc hs hle hq

theorem stepped {s s' : Peripheral peq} {e : Event} {o : List Output}
    (h : step s e = some (s', o)) : Stepped s e s' o := by
  cases e with
  | nbTransportFw payload phase time =>
    cases phase with
    | beginReq =>
      cases h
      exact .request (peq.scheduled_notify ..)
    | endReq | beginResp | endResp =>
      cases h
      exact .otherPhase (by decide)
  | run =>
    obtain ⟨⟨s₁, r⟩, hr, heq⟩ := Option.map_eq_some_iff.1 h
    cases heq
    cases hpc : s.pc with
    | starting =>
      simp only [Peripheral.peqThread, hpc] at hr
      cases hr
      exact .started hpc
    | waiting =>
      simp only [Peripheral.peqThread, hpc] at hr
      cases hr
    | draining => exact stepped_draining hpc hr
  | deltaCycle =>
    simp only [step] at h
    split_ifs at h with hc
    cases h
    exact .woken hc.1 hc.2
  | advance t =>
    simp only [step] at h
    split_ifs at h with hc
    cases he : s.event with
    | none =>
      rw [he] at h
      cases h
      rw [← he]
      exact .idle hc.1 hc.2 (Or.inl he)
    | delta =>
      rw [he] at h
      cases h
    | timed u =>
      rw [he] at h
      simp only at h
      split_ifs at h with hlt heq
      · cases h
        rw [← he]
        exact .idle hc.1 hc.2 (Or.inr ⟨u, he, hlt⟩)
      · cases h
        exact .due hc.1 hc.2 (heq ▸ he)

/-! ## The thread wakes up in time -/

/-- Nothing in the queue is overdue, and a thread that does not look will be woken in time. -/
structure Timely (s : Peripheral peq) : Prop where
  inOrder : s.queued.Pairwise fun a b => a.due ≤ b.due
  punctual : ∀ x ∈ s.queued, s.now ≤ x.due
  pending : s.event.Pending s.now
  wakeup : s.pc ≠ .draining → ∀ x ∈ s.queued, s.event.WakesBy s.now x.due

theorem timely_init : Timely (Peripheral.init peq) := by
  have hnone : (Peripheral.init peq).queued = [] := peq.scheduled_empty
  refine ⟨?_, ?_, trivial, fun _ => ?_⟩ <;> rw [hnone]
  · exact List.Pairwise.nil
  · exact List.forall_mem_nil _
  · exact List.forall_mem_nil _

/-- A call of `nb_transport_fw` keeps every wakeup, and adds one for its own transaction. -/
theorem Timely.request {s : Peripheral peq} (h : Timely s) {queue : peq.Queue}
    {x : Timed Nat Transaction} (hx : s.now ≤ x.due)
    (hq : peq.scheduled queue = schedule x s.queued) :
    Timely { s with queue, event := s.event.notify s.now x.due } := by
  refine ⟨?_, ?_, h.pending.notify, ?_⟩ <;> rw [Peripheral.queued_mk, hq]
  · exact pairwise_schedule h.inOrder
  · intro y hy
    rcases mem_schedule.1 hy with rfl | hy
    · exact hx
    · exact h.punctual y hy
  · intro hpc y hy
    rcases mem_schedule.1 hy with rfl | hy
    · exact Notification.wakesBy_notify hx
    · exact (h.wakeup hpc y hy).notify (h.punctual y hy)

/-- A thread that goes back to `wait` will be woken for the first transaction, so in time for
all. -/
theorem Timely.suspended {s : Peripheral peq} (h : Timely s) {queue : peq.Queue}
    {x : Timed Nat Transaction} {rest : List (Timed Nat Transaction)} (hs : s.queued = x :: rest)
    (hx : s.now ≤ x.due) (hq : peq.scheduled queue = s.queued) :
    Timely { s with queue, event := s.event.notify s.now x.due, pc := .waiting } := by
  have hord := h.inOrder
  rw [hs] at hord
  refine ⟨?_, ?_, h.pending.notify, fun _ => ?_⟩ <;> rw [Peripheral.queued_mk, hq]
  · exact h.inOrder
  · exact h.punctual
  · intro y hy
    rw [hs] at hy
    apply (Notification.wakesBy_notify hx).mono
    rcases List.mem_cons.1 hy with rfl | hy
    · exact le_rfl
    · exact (List.pairwise_cons.1 hord).1 y hy

/-- The time does not pass a pending notification, nor a transaction that waits for it. -/
theorem Timely.due_of_timed {s : Peripheral peq} (h : Timely s) (hpc : s.pc = .waiting) {u : Nat}
    (he : s.event = .timed u) : ∀ x ∈ s.queued, u ≤ x.due := by
  intro x hx
  have hwake := h.wakeup (by rw [hpc]; decide) x hx
  rw [he] at hwake
  exact hwake

theorem Timely.queued_of_none {s : Peripheral peq} (h : Timely s) (hpc : s.pc = .waiting)
    (he : s.event = .none) : s.queued = [] := by
  apply List.eq_nil_iff_forall_not_mem.2
  intro x hx
  have hwake := h.wakeup (by rw [hpc]; decide) x hx
  rw [he] at hwake
  exact hwake

/-- When time goes on, everything in the queue is due later. -/
theorem Timely.advance {s : Peripheral peq} (h : Timely s) (hpc : s.pc = .waiting) {t : Nat}
    (he : s.event = .none ∨ ∃ u, s.event = .timed u ∧ t ≤ u) : ∀ x ∈ s.queued, t ≤ x.due := by
  rcases he with he | ⟨u, he, htu⟩
  · rw [h.queued_of_none hpc he]
    exact List.forall_mem_nil _
  · intro x hx
    exact htu.trans (h.due_of_timed hpc he x hx)

theorem timely_step {s s' : Peripheral peq} {e : Event} {o : List Output} (h : Timely s)
    (hs : Stepped s e s' o) : Timely s' := by
  cases hs with
  | request hq => exact h.request (Nat.le_add_right ..) hq
  | otherPhase => exact h
  | started hpc => exact ⟨h.inOrder, h.punctual, h.pending, fun _ => h.wakeup (by rw [hpc]; decide)⟩
  | answered hpc hs hd hq =>
    have hord := h.inOrder
    have hpunctual := h.punctual
    rw [hs] at hord hpunctual
    refine ⟨?_, ?_, h.pending, fun hne => absurd hpc hne⟩ <;> rw [Peripheral.queued_mk, hq]
    · exact hord.of_cons
    · exact (List.forall_mem_cons.1 hpunctual).2
  | suspended hpc hs hd hq => exact h.suspended hs hd.le hq
  | drained hpc hs hq =>
    refine ⟨?_, ?_, h.pending, fun _ => ?_⟩ <;> rw [Peripheral.queued_mk, hq]
    · exact List.Pairwise.nil
    · exact List.forall_mem_nil _
    · exact List.forall_mem_nil _
  | woken => exact ⟨h.inOrder, h.punctual, trivial, fun hne => absurd rfl hne⟩
  | idle hpc ht he =>
    have hle : s.event = .none ∨ ∃ u, s.event = .timed u ∧ _ ≤ u :=
      he.imp id fun ⟨u, hu, htu⟩ => ⟨u, hu, htu.le⟩
    refine ⟨h.inOrder, h.advance hpc hle, ?_, ?_⟩
    · rcases he with he | ⟨u, he, htu⟩
      · rw [he]
        trivial
      · rw [he]
        exact htu
    · intro _ x hx
      rcases he with he | ⟨u, he, htu⟩
      · have hmem : x ∈ s.queued := hx
        rw [h.queued_of_none hpc he] at hmem
        cases hmem
      · rw [he]
        exact h.due_of_timed hpc he x hx
  | due hpc ht he =>
    exact ⟨h.inOrder, h.advance hpc (Or.inr ⟨_, he, le_rfl⟩), trivial, fun hne => absurd rfl hne⟩

/-! ## Every transaction is answered -/

/-- How far the thread is from its next look at the queue, or from its next wait. -/
def Peripheral.stage (s : Peripheral peq) : Nat :=
  (if s.event = .delta then 2 else 0) + if s.pc = .waiting then 1 else 2

/-- How long the queue is, how long its transactions still have to wait, and what the thread has to
do in between. -/
def Peripheral.rank (s : Peripheral peq) : Nat :=
  s.queued.length + 2 * (s.queued.map fun x => x.due - s.now).sum + s.stage

/-- When time goes on, every transaction has to wait at least one tick less. -/
theorem sum_wait_add_length_le {l : List (Timed Nat Transaction)} {now t : Nat} (ht : now < t)
    (h : ∀ x ∈ l, t ≤ x.due) :
    (l.map fun x => x.due - t).sum + l.length ≤ (l.map fun x => x.due - now).sum := by
  induction l with
  | nil => exact le_rfl
  | cons x l ih =>
    obtain ⟨hx, hl⟩ := List.forall_mem_cons.1 h
    have hrest := ih hl
    simp only [List.map_cons, List.sum_cons, List.length_cons]
    omega

/-- **Without new requests every step brings the thread closer to an empty queue.** -/
theorem rank_step {s s' : Peripheral peq} {e : Event} {o : List Output} (h : Timely s)
    (he : ¬ e.IsCall) (hs : Stepped s e s' o) :
    (s.queued = [] → s'.queued = []) ∧ (s.queued ≠ [] → s'.rank < s.rank) := by
  cases hs with
  | request | otherPhase => exact absurd trivial he
  | started hpc =>
    refine ⟨id, fun _ => ?_⟩
    simp only [Peripheral.rank, Peripheral.stage, Peripheral.queued, hpc]
    simp
  | answered hpc hs hd hq =>
    refine ⟨fun hnil => absurd (hs.symm.trans hnil) (List.cons_ne_nil _ _), fun _ => ?_⟩
    simp only [Peripheral.rank, Peripheral.stage, Peripheral.queued_mk, hq, hs, List.length_cons,
      List.map_cons, List.sum_cons]
    omega
  | suspended hpc hs hd hq =>
    refine ⟨fun hnil => hq.trans hnil, fun _ => ?_⟩
    simp only [Peripheral.rank, Peripheral.stage, Peripheral.queued_mk, hq,
      Notification.notify_eq_delta_iff hd, hpc]
    simp
  | drained hpc hs hq => exact ⟨fun _ => hq, fun hne => absurd hs hne⟩
  | woken hpc hev =>
    refine ⟨id, fun _ => ?_⟩
    simp only [Peripheral.rank, Peripheral.stage, Peripheral.queued, hpc, hev]
    simp
  | @idle hpc t ht hev =>
    refine ⟨id, fun hne => ?_⟩
    have hwait := sum_wait_add_length_le ht
      (h.advance hpc (hev.imp id fun ⟨u, hu, htu⟩ => ⟨u, hu, htu.le⟩))
    have hpos := List.length_pos_of_ne_nil hne
    simp only [Peripheral.rank, Peripheral.stage, Peripheral.queued] at hwait hpos ⊢
    omega
  | @due hpc t ht hev =>
    refine ⟨id, fun hne => ?_⟩
    have hwait := sum_wait_add_length_le ht (h.advance hpc (Or.inr ⟨t, hev, le_rfl⟩))
    have hpos := List.length_pos_of_ne_nil hne
    simp only [Peripheral.rank, Peripheral.stage, Peripheral.queued, hpc, hev] at hwait hpos ⊢
    simp only [reduceCtorEq, if_false, if_true]
    omega

/-- As long as a transaction is in the queue, the kernel or the thread has something to do. -/
theorem exists_step {s : Peripheral peq} (h : Timely s) (hne : s.queued ≠ []) :
    ∃ e : Event, ¬ e.IsCall ∧ (step s e).isSome := by
  cases hpc : s.pc with
  | starting =>
    refine ⟨.run, id, ?_⟩
    simp only [step, Peripheral.peqThread, hpc]
    rfl
  | waiting =>
    cases hev : s.event with
    | none => exact absurd (h.queued_of_none hpc hev) hne
    | delta =>
      refine ⟨.deltaCycle, id, ?_⟩
      rw [step, if_pos ⟨hpc, hev⟩]
      rfl
    | timed u =>
      have hu := h.pending
      rw [hev] at hu
      refine ⟨.advance u, id, ?_⟩
      simp only [step]
      rw [if_pos ⟨hpc, hu⟩, hev]
      simp
  | draining =>
    refine ⟨.run, id, ?_⟩
    simp only [step, Peripheral.peqThread, hpc]
    cases peq.getNextTransaction s.now s.queue <;> rfl

/-! ## The order of the answers -/

@[simp] theorem calls_append (tr o : List Output) : calls (tr ++ o) = calls tr ++ calls o :=
  List.filterMap_append

@[simp] theorem responses_append (tr o : List Output) :
    responses (tr ++ o) = responses tr ++ responses o := List.filterMap_append

theorem lastWrite_concat (l : List Transaction) (x : Transaction) :
    lastWrite (l ++ [x]) = if x.command = .write then x.data else lastWrite l := by
  unfold lastWrite
  split_ifs with hx
  · rw [List.filter_append, List.filter_cons_of_pos (by simpa using hx), List.filter_nil,
      List.getLast?_concat]
    rfl
  · rw [List.filter_append, List.filter_cons_of_neg (by simpa using hx), List.filter_nil,
      List.append_nil]

theorem transfer_fst (v : UInt32) (x : Transaction) :
    (transfer v x).1 = if x.command = .write then x.data else v := by
  unfold transfer
  cases hx : x.command <;> simp

theorem transfer_id (v : UInt32) (x : Transaction) : (transfer v x).2.id = x.id := by
  unfold transfer
  split <;> rfl

theorem transfer_read {v : UInt32} {x : Transaction} (hx : x.command = .read) :
    (transfer v x).2.data = v := by
  rw [transfer, hx]

/-- The answered transactions and the queue are the calls in due order, and the register holds what
the answered ones wrote. -/
structure Inv (s : Peripheral peq) (tr : List Output) : Prop where
  timely : Timely s
  order : StableSort (calls tr) ((responses tr).map Response.timed ++ s.queued)
  past : ∀ r ∈ responses tr, r.time ≤ s.now
  register : s.regValue = lastWrite ((responses tr).map (·.request))
  ok : ∀ r ∈ responses tr, r.trans.id = r.request.id ∧ r.trans.responseStatus = .ok
  reads : ∀ pre r post, responses tr = pre ++ r :: post → r.request.command = .read →
    r.trans.data = lastWrite (pre.map (·.request))

/-- A step without a request or an answer. -/
theorem Inv.silent {s s' : Peripheral peq} {tr o : List Output} (h : Inv s tr) (ht : Timely s')
    (hcalls : calls o = []) (hresp : responses o = []) (hqueued : s'.queued = s.queued)
    (hnow : s.now ≤ s'.now) (hreg : s'.regValue = s.regValue) : Inv s' (tr ++ o) := by
  have hr : responses (tr ++ o) = responses tr := by rw [responses_append, hresp, List.append_nil]
  refine ⟨ht, ?_, ?_, ?_, ?_, ?_⟩ <;> rw [hr]
  · rw [calls_append, hcalls, List.append_nil, hqueued]
    exact h.order
  · exact fun r hr => (h.past r hr).trans hnow
  · rw [hreg]
    exact h.register
  · exact h.ok
  · exact h.reads

/-- One more request: what has been answered is not due later. -/
theorem Inv.request {s s' : Peripheral peq} {tr : List Output} (h : Inv s tr) (ht : Timely s')
    {payload : Transaction} {time : Nat} {returned : Phase × SyncEnum}
    (hqueued : s'.queued = schedule ⟨s.now + time, payload⟩ s.queued) (hnow : s'.now = s.now)
    (hreg : s'.regValue = s.regValue) :
    Inv s' (tr ++ [.forward s.now payload .beginReq time returned]) := by
  have hpast : ∀ y ∈ (responses tr).map Response.timed, y.due ≤ s.now + time := by
    intro y hy
    obtain ⟨r, hr, rfl⟩ := List.mem_map.1 hy
    exact (h.past r hr).trans (Nat.le_add_right ..)
  have hr : responses (tr ++ [.forward s.now payload .beginReq time returned]) = responses tr := by
    rw [responses_append]
    exact List.append_nil _
  refine ⟨ht, ?_, ?_, ?_, ?_, ?_⟩ <;> rw [hr]
  · rw [calls_append, hqueued, append_schedule hpast]
    exact h.order.concat _
  · rw [hnow]
    exact h.past
  · rw [hreg]
    exact h.register
  · exact h.ok
  · exact h.reads

/-- One more answer: the first transaction of the queue moves to the answered ones, and it is due
now. -/
theorem Inv.answered {s s' : Peripheral peq} {tr : List Output} (h : Inv s tr) (ht : Timely s')
    {r : Response} (hs : s.queued = r.timed :: s'.queued) (hr : r.time = s.now)
    (hnow : s'.now = s.now) (hreg : s'.regValue = (transfer s.regValue r.request).1)
    (htrans : r.trans = { (transfer s.regValue r.request).2 with responseStatus := .ok }) :
    Inv s' (tr ++ [.backward r]) := by
  have hresp : responses (tr ++ [.backward r]) = responses tr ++ [r] := responses_append _ _
  have hcalls : calls (tr ++ [.backward r]) = calls tr := by
    rw [calls_append]
    exact List.append_nil _
  refine ⟨ht, ?_, ?_, ?_, ?_, ?_⟩ <;> rw [hresp]
  · have horder := h.order
    rw [hs] at horder
    rw [hcalls, List.map_append, List.append_assoc]
    exact horder
  · rw [hnow]
    exact List.forall_mem_append.2 ⟨h.past, List.forall_mem_singleton.2 hr.le⟩
  · rw [List.map_append, List.map_singleton, lastWrite_concat, ← h.register, hreg, transfer_fst]
  · refine List.forall_mem_append.2 ⟨h.ok, List.forall_mem_singleton.2 ?_⟩
    rw [htrans]
    exact ⟨transfer_id _ _, rfl⟩
  · intro pre r' post hsplit hread
    rcases concat_eq_append_cons hsplit with ⟨t, htr, -⟩ | ⟨rfl, rfl, -⟩
    · exact h.reads pre r' t htr hread
    · rw [htrans, ← h.register]
      exact transfer_read hread

theorem inv_step {s s' : Peripheral peq} {tr : List Output} {e : Event} {o : List Output}
    (h : Inv s tr) (hs : Stepped s e s' o) : Inv s' (tr ++ o) := by
  have ht := timely_step h.timely hs
  cases hs with
  | request hq => exact h.request ht hq rfl rfl
  | @otherPhase payload phase time returned hphase =>
    have hcalls : calls [.forward s.now payload phase time returned] = [] := by
      cases phase with
      | beginReq => exact absurd rfl hphase
      | endReq | beginResp | endResp => rfl
    exact h.silent ht hcalls rfl rfl le_rfl rfl
  | @answered hpc d request rest queue hs hd hq =>
    -- nothing in the queue is overdue
    have hnow : d = s.now := by
      have hpunctual := h.timely.punctual
      rw [hs] at hpunctual
      exact le_antisymm hd (List.forall_mem_cons.1 hpunctual).1
    refine h.answered ht ?_ rfl rfl rfl rfl
    rw [hs, hnow, Peripheral.queued_mk, hq]
    rfl
  | suspended hpc hs hd hq => exact h.silent ht rfl rfl hq le_rfl rfl
  | drained hpc hs hq => exact h.silent ht rfl rfl (hq.trans hs.symm) le_rfl rfl
  | started | woken => exact h.silent ht rfl rfl rfl le_rfl rfl
  | idle hpc hlt | due hpc hlt => exact h.silent ht rfl rfl rfl hlt.le rfl

/-! ## Runs -/

theorem inv_init : Inv (Peripheral.init peq) [] := by
  have hnone : (Peripheral.init peq).queued = [] := peq.scheduled_empty
  refine ⟨timely_init, ?_, List.forall_mem_nil _, rfl, List.forall_mem_nil _, ?_⟩
  · rw [hnone]
    exact StableSort.nil
  · intro pre r post hsplit
    exact absurd hsplit (List.append_ne_nil_of_right_ne_nil _ (List.cons_ne_nil _ _)).symm

theorem run_inv {es : List Event} {s : Peripheral peq} {tr : List Output}
    (h : (peripheral peq).Run es s tr) : Inv s tr :=
  Machine.inv_run (I := Inv) inv_init (fun _ _ _ _ _ hI hs => inv_step hI (stepped hs)) h

/-- Without new requests the queue is empty after some number of steps, whatever they are. -/
theorem queued_eventually_nil {s : Peripheral peq} (h : Timely s) {es : List Event}
    {s' : Peripheral peq} {tr : List Output} (hes : ∀ e ∈ es, ¬ e.IsCall)
    (hrun : (peripheral peq).runFrom s es = some (s', tr)) (hlen : s.rank < es.length) :
    s'.queued = [] := by
  refine Machine.done_of_rank (I := Timely) (D := fun s => s.queued = []) Peripheral.rank ?_ h hes
    hrun (Or.inr hlen)
  intro s e s' o ht he hs
  exact ⟨timely_step ht (stepped hs), rank_step ht he (stepped hs)⟩

/-- The register is linearizable, and every transaction is answered exactly once. -/
structure Linearizable (s : Peripheral peq) (tr : List Output) : Prop where
  /-- Each transaction has been answered, once, or is in the queue. -/
  once : ((responses tr).map Response.timed ++ s.queued).Perm (calls tr)
  /-- The answers come at the due times, in their order and then in that of the calls. -/
  order : StableSort (calls tr) ((responses tr).map Response.timed ++ s.queued)
  ok : ∀ r ∈ responses tr, r.trans.id = r.request.id ∧ r.trans.responseStatus = .ok
  /-- A read returns what the last write before it wrote. -/
  reads : ∀ pre r post, responses tr = pre ++ r :: post → r.request.command = .read →
    r.trans.data = lastWrite (pre.map (·.request))
  /-- Nothing in the queue is overdue. -/
  punctual : ∀ x ∈ s.queued, s.now ≤ x.due
  wakeup : s.pc = .waiting → ∀ x ∈ s.queued, s.event.WakesBy s.now x.due
  /-- While something is in the queue, a step other than a call is possible. -/
  progress : s.queued ≠ [] → ∃ e : Event, ¬ e.IsCall ∧ (step s e).isSome
  /-- After some number of such steps, whichever they are, everything has been answered. -/
  answered : ∃ n, ∀ es s' tr', (∀ e ∈ es, ¬ Event.IsCall e) →
    (peripheral peq).runFrom s es = some (s', tr') → n < es.length → s'.queued = []

/-- **The register is linearizable** in every run, for every implementation of the queue. -/
theorem linearizable {es : List Event} {s : Peripheral peq} {tr : List Output}
    (h : (peripheral peq).Run es s tr) : Linearizable s tr := by
  have hinv := run_inv h
  have ht := hinv.timely
  exact {
    once := hinv.order.perm
    order := hinv.order
    ok := hinv.ok
    reads := hinv.reads
    punctual := ht.punctual
    wakeup := fun hpc => ht.wakeup (by rw [hpc]; decide)
    progress := exists_step ht
    answered := ⟨s.rank, fun _ _ _ => queued_eventually_nil ht⟩ }

/-- Three requests that overlap and a fourth from within `nb_transport_bw`, queued out of order. -/
theorem linearizable_overlapping :
    let es : List Event :=
      [.nbTransportFw ⟨0, .write, 7, .incomplete⟩ .beginReq 10,
        .nbTransportFw ⟨1, .write, 9, .incomplete⟩ .beginReq 5,
        .nbTransportFw ⟨2, .read, 0, .incomplete⟩ .beginReq 10, .run, .advance 5, .run,
        .nbTransportFw ⟨3, .read, 0, .incomplete⟩ .beginReq 0, .run, .run, .deltaCycle, .run,
        .advance 10, .run, .run, .run]
    ∃ s tr, ((peripheral (.multimap Transaction)).Run es s tr ∧
      (responses tr).map (fun r => (r.time, r.trans.id, r.trans.data)) =
        [(5, 1, 9), (5, 3, 9), (10, 0, 7), (10, 2, 7)]) ∧ Linearizable s tr := by
  intro es
  obtain ⟨s, tr, hrun⟩ : ∃ s tr, (peripheral (.multimap Transaction)).Run es s tr ∧
      (responses tr).map (fun r => (r.time, r.trans.id, r.trans.data)) =
        [(5, 1, 9), (5, 3, 9), (10, 0, 7), (10, 2, 7)] := ⟨_, _, rfl, rfl⟩
  exact ⟨s, tr, hrun, linearizable hrun.1⟩

end RenodeSystemC.NonBlocking
