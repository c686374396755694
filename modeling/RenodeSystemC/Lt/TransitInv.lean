import RenodeSystemC.Lt.Transit

/-!
# What the state of `SimpleBusAT` shows of a transaction

The two threads of the bus and the two events they share serve all transactions. For every
transaction on its way, the state shows how far it is: its entry in `mPendingTransactions`, its
place in the queues and what the threads do with it (`State.Shows`).

`RequestThread` keeps an iterator to an entry that `ResponseThread` erases. It may still wait for
the end of the request phase when `ResponseThread` passes the response on; but then it is woken by
that time, so it is through with the entry before time goes on (`RequestFits.eq_none_of_lt`).
-/

namespace RenodeSystemC.SimpleBusAT

open Lt (decode getAddressMask)
open NonBlocking (Phase SyncEnum)

variable {m n : Nat} {peq : PeqWithGet Nat}

/-! ## The queues -/

/-- The times for which a transaction is in a queue. -/
def dues (k : Nat) (q : List (Timed Nat Nat)) : List Nat :=
  (q.filter fun x => x.entry = k).map Timed.due

section Dues

variable {k d : Nat} {x : Timed Nat Nat} {q : List (Timed Nat Nat)}

@[simp] theorem dues_nil : dues k [] = [] := rfl

theorem dues_cons_self : dues k (⟨d, k⟩ :: q) = d :: dues k q := by
  simp [dues]

theorem dues_cons_of_ne (h : x.entry ≠ k) : dues k (x :: q) = dues k q := by
  simp [dues, h]

theorem dues_schedule_of_ne (h : x.entry ≠ k) : dues k (schedule x q) = dues k q := by
  induction q with
  | nil => exact dues_cons_of_ne h
  | cons y q ih =>
    rw [schedule_cons]
    split_ifs
    · exact dues_cons_of_ne h
    · by_cases hy : y.entry = k
      · obtain ⟨e, j⟩ := y
        cases hy
        rw [dues_cons_self, dues_cons_self, ih]
      · rw [dues_cons_of_ne hy, dues_cons_of_ne hy, ih]

theorem dues_schedule (h : dues k q = []) : dues k (schedule ⟨d, k⟩ q) = [d] := by
  induction q with
  | nil => exact dues_cons_self
  | cons y q ih =>
    have hy : y.entry ≠ k := by
      intro hy
      obtain ⟨e, j⟩ := y
      cases hy
      rw [dues_cons_self] at h
      cases h
    rw [schedule_cons]
    split_ifs
    · rw [dues_cons_self, h]
    · rw [dues_cons_of_ne hy] at h ⊢
      exact ih h

end Dues

/-- `get_next_transaction` leaves the transactions alone, or takes the first one, which is due. -/
theorem getNextTransaction_cases (now : Nat) (queue : peq.Queue) :
    (∃ queue' notified, peq.getNextTransaction now queue = .null queue' notified ∧
      peq.scheduled queue' = peq.scheduled queue) ∨
    ∃ d txn queue', peq.getNextTransaction now queue = .transaction txn queue' ∧
      peq.scheduled queue = ⟨d, txn⟩ :: peq.scheduled queue' ∧ d ≤ now := by
  cases hq : peq.scheduled queue with
  | nil =>
    obtain ⟨queue', hnext, hempty⟩ := peq.getNextTransaction_nil now hq
    exact Or.inl ⟨queue', none, hnext, hempty⟩
  | cons x rest =>
    obtain ⟨d, txn⟩ := x
    by_cases hd : d ≤ now
    · obtain ⟨queue', hnext, hrest⟩ := peq.getNextTransaction_due hq hd
      exact Or.inr ⟨d, txn, queue', hnext, by rw [hrest], hd⟩
    · obtain ⟨queue', hnext, hsame⟩ := peq.getNextTransaction_early hq (Nat.lt_of_not_le hd)
      exact Or.inl ⟨queue', _, hnext, hsame.trans hq⟩

/-! ## What the state shows of a transaction -/

def RequestPc.point (k : Nat) : RequestPc n → Option (RequestPoint n)
  | .handling txn point => if txn = k then some point else none
  | _ => none

def ResponsePc.point (k : Nat) : ResponsePc m n → Option (ResponsePoint m n)
  | .handling txn point => if txn = k then some point else none
  | _ => none

/-- The parts of the state that belong to one transaction. -/
structure View (m n : Nat) where
  entry : Option (ConnectionInfo m n)
  references : Nat
  address : UInt64
  requestDues : List Nat
  responseDues : List Nat
  request : Option (RequestPoint n)
  response : Option (ResponsePoint m n)

def State.view (s : State m n peq) (k : Nat) : View m n where
  entry := s.pendingTransactions k
  references := s.references k
  address := s.address k
  requestDues := dues k (peq.scheduled s.requestPeq)
  responseDues := dues k (peq.scheduled s.responsePeq)
  request := s.requestPc.point k
  response := s.responsePc.point k

namespace Stage

/-- The entry in `mPendingTransactions`. -/
def entry : Stage m n → Option (ConnectionInfo m n)
  | .idle => none
  | .queued id _ _ _ => some ⟨some id, none⟩
  | .requested id port _ _ => some ⟨some id, some port⟩
  | .answered id to_ _ _ => some ⟨some id, to_⟩
  | .responding _ to_ _ | .ended to_ _ _ _ => some ⟨none, to_⟩

def references : Stage m n → Nat
  | .idle => 0
  | _ => 1

def requestDues : Stage m n → List Nat
  | .queued _ _ _ due => [due]
  | _ => []

def responseDues : Stage m n → List Nat
  | .answered _ _ due _ => [due]
  | _ => []

/-- When the response began. -/
def since : Stage m n → Option Nat
  | .responding _ _ since | .ended _ since _ _ => some since
  | _ => none

/-- When the thread that waits for the end of the request phase will have been woken. -/
def deadline : Stage m n → Option Nat
  | .requested _ _ taken _ => taken
  | .answered _ _ due _ => some due
  | st => st.since

/-- The initiator has been sent `END_REQ`, as long as that can matter. -/
def told : Stage m n → Bool
  | .requested _ _ _ told | .answered _ _ _ told => told
  | _ => false

/-- The target has been sent the request. -/
def forwarded : Stage m n → Bool
  | .idle | .queued .. => false
  | _ => true

theorem of_told {st : Stage m n} (h : st.told = true) :
    st.forwarded = true ∧ st.since = none := by
  cases st <;> first | exact ⟨rfl, rfl⟩ | cases h

theorem deadline_of_since {st : Stage m n} {u : Nat} (h : st.since = some u) :
    st.deadline = some u := by
  cases st <;> first | exact h | cases h

end Stage

/-- Where `RequestThread` can be with a transaction. -/
def RequestFits (now : Nat) (event : Notification Nat) (st : Stage m n) :
    Option (RequestPoint n) → Prop
  | none => True
  | some (.beginReq _) => st.forwarded = true ∧ st.told = false ∧ st.since = none ∧
      ∀ u, st.deadline = some u → event.WakesBy now u
  | some .waitEvent => st.forwarded = true ∧ st.told = false ∧
      ∀ u, st.deadline = some u → event.WakesBy now u
  | some (.waitTime timer) => st.forwarded = true ∧ st.told = false ∧
      ∃ u, st.deadline = some u ∧ timer.WakesBy now u
  | some .waited => st.forwarded = true ∧ st.told = false ∧ ∀ u, st.since = some u → now ≤ u
  | some .endReq => st.told = true

/-- Where `ResponseThread` can be with it: it goes on at the time for which the response is
ended. -/
def ResponseFits (now : Nat) (event : Notification Nat) (st : Stage m n) :
    Option (ResponsePoint m n) → Prop
  | none => st.since = none
  | some (.beginResp _) | some .waitEvent =>
    (∃ id to_ since, st = .responding id to_ since ∧ event = .none) ∨
      ∃ to_ since due, st = .ended to_ since due false ∧
        event = Notification.none.notify now due
  | some (.waitTime timer) => ∃ to_ since due, st = .ended to_ since due false ∧
      timer = Notification.none.notify now due
  | some .waited => ∃ to_ since due, st = .ended to_ since due false ∧ due ≤ now
  | some (.endResp port) => ∃ since due, st = .ended (some port) since due true ∧ due ≤ now

/-- The times of a stage are in order. -/
def Stage.Ordered (now : Nat) : Stage m n → Prop
  | .responding _ _ since => since ≤ now
  | .ended _ since due _ => since ≤ now ∧ since < due
  | _ => True

/-- All that changes with `END_REQ` is that the initiator has been told. -/
structure Stage.Tells (st st' : Stage m n) : Prop where
  told : st'.told = true
  entry : st'.entry = st.entry
  references : st'.references = st.references
  requestDues : st'.requestDues = st.requestDues
  responseDues : st'.responseDues = st.responseDues
  since : st.since = none

/-- The entry has no initiator from the response on; before that, it can be told. -/
theorem Stage.endReq_cases {st : Stage m n} (hforwarded : st.forwarded = true)
    (htold : st.told = false) (time : Nat) :
    (∃ id to_ st', st.entry = some ⟨some id, to_⟩ ∧
      st.next (.initiator id .endReq time) = some st' ∧ st.Tells st') ∨
      ∃ to_, st.entry = some ⟨none, to_⟩ := by
  cases st with
  | idle | queued => cases hforwarded
  | requested id port taken told =>
    cases htold
    exact Or.inl ⟨id, port, .requested id port taken true, rfl, by simp [Stage.next],
      ⟨rfl, rfl, rfl, rfl, rfl, rfl⟩⟩
  | answered id to_ due told =>
    cases htold
    exact Or.inl ⟨id, to_, .answered id to_ due true, rfl, by simp [Stage.next],
      ⟨rfl, rfl, rfl, rfl, rfl, rfl⟩⟩
  | responding id to_ since | ended to_ since due told => exact Or.inr ⟨to_, rfl⟩

theorem Stage.Ordered.of_told {st : Stage m n} {now : Nat} (h : st.told = true) :
    st.Ordered now := by
  cases st <;> trivial

/-- The state shows the stage of a transaction. -/
structure State.Shows (s : State m n peq) (k : Nat) (st : Stage m n) : Prop where
  entry : (s.view k).entry = st.entry
  references : (s.view k).references = st.references
  address : ∀ id port a due, st = .queued id port a due →
    (s.view k).address = a ∧ port.val = (decode a).toNat
  requestDues : (s.view k).requestDues = st.requestDues
  responseDues : (s.view k).responseDues = st.responseDues
  request : RequestFits s.now s.endRequestEvent st (s.view k).request
  response : ResponseFits s.now s.endResponseEvent st (s.view k).response
  ordered : st.Ordered s.now

/-- `ResponseThread` will wait for `mEndResponseEvent`, or does. -/
def ResponsePc.AwaitsEvent (pc : ResponsePc m n) : Prop :=
  ∃ k point, pc = .handling k point ∧ (point = .waitEvent ∨ ∃ id, point = .beginResp id)

structure Inv (s : State m n peq) (tr : List (Output m n)) : Prop where
  running : s.stopped = false
  shows_ : ∀ k, ∃ st, stage k tr = some st ∧ s.Shows k st
  event : s.endRequestEvent.Pending s.now
  timer : s.requestPc.timer.Pending s.now
  it : ∀ k point, s.requestPc = .handling k point → point ≠ .endReq → s.it = some k
  response : s.endResponseEvent ≠ .none → s.responsePc.AwaitsEvent

/-! ## Consequences -/

section Points

variable {now : Nat} {event : Notification Nat} {st : Stage m n}

theorem RequestFits.eq_none {point : Option (RequestPoint n)} (h : RequestFits now event st point)
    (hst : st.forwarded = false) : point = none := by
  cases point with
  | none => rfl
  | some point =>
    cases point with
    | endReq =>
      have hf := (Stage.of_told h).1
      rw [hst] at hf
      cases hf
    | _ =>
      have hf := h.1
      rw [hst] at hf
      cases hf

theorem ResponseFits.eq_none {point : Option (ResponsePoint m n)}
    (h : ResponseFits now event st point) (hst : st.since = none) : point = none := by
  cases point with
  | none => rfl
  | some point =>
    cases point with
    | beginResp | waitEvent =>
      rcases h with ⟨_, _, _, rfl, _⟩ | ⟨_, _, _, rfl, _⟩ <;> cases hst
    | waitTime | waited =>
      obtain ⟨_, _, _, rfl, _⟩ := h
      cases hst
    | endResp =>
      obtain ⟨_, _, rfl, _⟩ := h
      cases hst

/-- A notification that is to come is not overdue. -/
theorem not_wakesBy_of_lt {x : Notification Nat} {u : Nat} (hp : x.Pending now) (hu : u < now) :
    ¬ x.WakesBy now u := by
  intro hw
  cases x with
  | none => exact hw
  | delta => exact Nat.not_lt.2 hw hu
  | timed v => exact Nat.lt_asymm (Nat.lt_of_lt_of_le hp hw) hu

/-- Once time has gone on since the response began, `RequestThread` is through with the
transaction. -/
theorem RequestFits.eq_none_of_lt {point : Option (RequestPoint n)} {pc : RequestPc n} {k u : Nat}
    (hpoint : point = pc.point k) (h : RequestFits now event st point) (hevent : event.Pending now)
    (htimer : pc.timer.Pending now) (hu : st.since = some u) (hlt : u < now) : point = none := by
  have hdeadline := Stage.deadline_of_since hu
  cases point with
  | none => rfl
  | some point =>
    cases point with
    | beginReq =>
      have hs := h.2.2.1
      rw [hu] at hs
      cases hs
    | waitEvent => exact absurd (h.2.2 u hdeadline) (not_wakesBy_of_lt hevent hlt)
    | waitTime timer =>
      obtain ⟨v, hv, hw⟩ := h.2.2
      rw [hdeadline] at hv
      cases hv
      have hpc : pc = .handling k (.waitTime timer) := by
        cases pc with
        | handling j point =>
          by_cases hj : j = k
          · simp only [RequestPc.point, hj, if_true, Option.some.injEq] at hpoint
            rw [hj, hpoint]
          · simp [RequestPc.point, hj] at hpoint
        | _ => cases hpoint
      rw [hpc] at htimer
      exact absurd hw (not_wakesBy_of_lt htimer hlt)
    | waited => exact absurd (h.2.2 u hu) (Nat.not_le.2 hlt)
    | endReq =>
      have hs := (Stage.of_told h).2
      rw [hu] at hs
      cases hs

theorem ResponseFits.of_eq_none {point : Option (ResponsePoint m n)} (h : point = none)
    (hst : st.since = none) : ResponseFits now event st point := by
  rw [h]
  exact hst

/-- What `RequestThread` waits for does not depend on more of the stage than this. -/
theorem RequestFits.congr {point : Option (RequestPoint n)} {st' : Stage m n}
    (h : RequestFits now event st point) (hforwarded : st'.forwarded = st.forwarded)
    (htold : st'.told = st.told) (hsince : st'.since = st.since)
    (hdeadline : st'.deadline = st.deadline) : RequestFits now event st' point := by
  cases point with
  | none => trivial
  | some point =>
    cases point <;> simp only [RequestFits, hforwarded, htold, hsince, hdeadline] at h ⊢ <;> exact h

/-- A later notification of the event does not matter. -/
theorem RequestFits.notify {point : Option (RequestPoint n)} {t : Nat}
    (h : RequestFits now event st point) (hevent : event.Pending now) :
    RequestFits now (event.notify now t) st point := by
  have hwakes : ∀ u, event.WakesBy now u → (event.notify now t).WakesBy now u := by
    intro u hu
    apply hu.notify
    by_contra hlt
    exact not_wakesBy_of_lt hevent (Nat.lt_of_not_le hlt) hu
  cases point with
  | none => trivial
  | some point =>
    cases point with
    | beginReq => exact ⟨h.1, h.2.1, h.2.2.1, fun u hu => hwakes u (h.2.2.2 u hu)⟩
    | waitEvent => exact ⟨h.1, h.2.1, fun u hu => hwakes u (h.2.2 u hu)⟩
    | waitTime | waited | endReq => exact h

end Points

/-- The event is notified for the time for which the request phase ends or the response begins. -/
theorem RequestFits.notify_deadline {now time : Nat} {event : Notification Nat} {st st' : Stage m n}
    {point : Option (RequestPoint n)} (h : RequestFits now event st point)
    (hforwarded : st'.forwarded = st.forwarded) (htold : st'.told = st.told)
    (hsince : st'.since = st.since) (hdeadline : st'.deadline = some time)
    (hle : ∀ u, st.deadline = some u → u ≤ time) (hnow : now ≤ time) :
    RequestFits now (event.notify now time) st' point := by
  have hwakes : ∀ u, st'.deadline = some u → (event.notify now time).WakesBy now u := by
    intro u hu
    rw [hdeadline] at hu
    cases hu
    exact Notification.wakesBy_notify hnow
  cases point with
  | none => trivial
  | some point =>
    cases point with
    | beginReq => exact ⟨hforwarded.trans h.1, htold.trans h.2.1, hsince.trans h.2.2.1, hwakes⟩
    | waitEvent => exact ⟨hforwarded.trans h.1, htold.trans h.2.1, hwakes⟩
    | waitTime timer =>
      obtain ⟨u, hu, hw⟩ := h.2.2
      exact ⟨hforwarded.trans h.1, htold.trans h.2.1, time, hdeadline, hw.mono (hle u hu)⟩
    | waited =>
      refine ⟨hforwarded.trans h.1, htold.trans h.2.1, ?_⟩
      intro u hu
      exact h.2.2 u (hsince.symm.trans hu)
    | endReq => exact htold.trans h

namespace State.Shows

variable {s s' : State m n peq} {k : Nat} {st : Stage m n}

/-- A step that has nothing to do with the transaction. -/
theorem frame (h : s.Shows k st) (hview : s'.view k = s.view k) (hnow : s'.now = s.now)
    (hreq : s'.endRequestEvent = s.endRequestEvent)
    (hresp : s'.endResponseEvent = s.endResponseEvent) : s'.Shows k st := by
  obtain ⟨hentry, hreferences, haddress, hdues, hdues', hrequest, hresponse, hordered⟩ := h
  refine ⟨?_, ?_, ?_, ?_, ?_, ?_, ?_, ?_⟩
  · rw [hview]
    exact hentry
  · rw [hview]
    exact hreferences
  · rw [hview]
    exact haddress
  · rw [hview]
    exact hdues
  · rw [hview]
    exact hdues'
  · rw [hview, hnow, hreq]
    exact hrequest
  · rw [hview, hnow, hresp]
    exact hresponse
  · rw [hnow]
    exact hordered

/-- A step that notifies `mEndRequestEvent` for another transaction. -/
theorem notify {t : Nat} (h : s.Shows k st) (hevent : s.endRequestEvent.Pending s.now)
    (hview : s'.view k = s.view k) (hnow : s'.now = s.now)
    (hreq : s'.endRequestEvent = s.endRequestEvent.notify s.now t)
    (hresp : s'.endResponseEvent = s.endResponseEvent) : s'.Shows k st := by
  have hnotified : State.Shows { s with endRequestEvent := s'.endRequestEvent } k st := by
    refine ⟨h.entry, h.references, h.address, h.requestDues, h.responseDues, ?_, h.response,
      h.ordered⟩
    show RequestFits s.now s'.endRequestEvent st (s.view k).request
    rw [hreq]
    exact h.request.notify hevent
  exact hnotified.frame hview hnow rfl hresp

end State.Shows

/-- One thing happens to the transaction `k`, and nothing to the others. -/
theorem shows_concat {s s' : State m n peq} {tr : List (Output m n)}
    (h : ∀ j, ∃ st, stage j tr = some st ∧ s.Shows j st) {k : Nat} {o : Output m n}
    {x : Letter m n} {st st' : Stage m n} (ho : ∀ j, o.letter j = if k = j then some x else none)
    (hst : stage k tr = some st) (hnext : st.next x = some st') (hk : s'.Shows k st')
    (hother : ∀ j, j ≠ k → ∀ st, s.Shows j st → s'.Shows j st) :
    ∀ j, ∃ st, stage j (tr ++ [o]) = some st ∧ s'.Shows j st := by
  intro j
  by_cases hj : j = k
  · rw [hj]
    exact ⟨st', stage_concat_some (by rw [ho, if_pos rfl]) hst hnext, hk⟩
  · obtain ⟨stj, hstj, hshows⟩ := h j
    refine ⟨stj, ?_, hother j hj stj hshows⟩
    rw [stage_concat_none (by rw [ho, if_neg (Ne.symm hj)])]
    exact hstj

theorem point_handling_self (k : Nat) (point : RequestPoint n) :
    (RequestPc.handling k point).point k = some point := if_pos rfl

theorem point_handling_of_ne {j k : Nat} (h : j ≠ k) (point : RequestPoint n) :
    (RequestPc.handling k point).point j = none := if_neg (Ne.symm h)

theorem responsePoint_handling_self (k : Nat) (point : ResponsePoint m n) :
    (ResponsePc.handling k point).point k = some point := if_pos rfl

theorem responsePoint_handling_of_ne {j k : Nat} (h : j ≠ k) (point : ResponsePoint m n) :
    (ResponsePc.handling k point).point j = none := if_neg (Ne.symm h)

/-- From the response on, a transaction occupies `ResponseThread`. -/
theorem State.Shows.handling {s : State m n peq} {k u : Nat} {st : Stage m n} (h : s.Shows k st)
    (hst : st.since = some u) : ∃ point, s.responsePc = .handling k point := by
  have hresponse : ResponseFits _ _ st (s.responsePc.point k) := h.response
  cases hpc : s.responsePc with
  | handling j point =>
    by_cases hj : k = j
    · exact ⟨point, by rw [hj]⟩
    · rw [hpc, responsePoint_handling_of_ne hj] at hresponse
      cases hresponse.symm.trans hst
  | _ =>
    rw [hpc] at hresponse
    cases hresponse.symm.trans hst

/-- `ResponseThread` is with a transaction that is in its response phase, and its event has not been
notified. -/
theorem State.Shows.awaits {s : State m n peq} {k since : Nat} {id : Fin m} {to_ : Option (Fin n)}
    (h : s.Shows k (.responding id to_ since)) : ∃ point, s.responsePc = .handling k point ∧
      (point = .waitEvent ∨ ∃ id, point = .beginResp id) ∧ s.endResponseEvent = .none := by
  obtain ⟨point, hpc⟩ := h.handling rfl
  have hresponse : ResponseFits _ _ _ (s.responsePc.point k) := h.response
  rw [hpc, responsePoint_handling_self] at hresponse
  refine ⟨point, hpc, ?_⟩
  cases point with
  | beginResp id' =>
    rcases hresponse with ⟨_, _, _, -, hnone⟩ | ⟨_, _, _, heq, -⟩
    · exact ⟨Or.inr ⟨id', rfl⟩, hnone⟩
    · cases heq
  | waitEvent =>
    rcases hresponse with ⟨_, _, _, -, hnone⟩ | ⟨_, _, _, heq, -⟩
    · exact ⟨Or.inl rfl, hnone⟩
    · cases heq
  | waitTime | waited =>
    obtain ⟨_, _, _, heq, -⟩ := hresponse
    cases heq
  | endResp =>
    obtain ⟨_, _, heq, -⟩ := hresponse
    cases heq

/-- The target answers a transaction: it is put into `mResponsePEQ`. -/
theorem State.Shows.answered {s s' : State m n peq} {k time : Nat} {id : Fin m} {port : Fin n}
    {to_ : Option (Fin n)} {taken : Option Nat} {told : Bool}
    (h : s.Shows k (.requested id port taken told))
    (hentry : s'.pendingTransactions k = some ⟨some id, to_⟩)
    (hreferences : s'.references = s.references) (hrequestPeq : s'.requestPeq = s.requestPeq)
    (hresponsePeq : peq.scheduled s'.responsePeq = schedule ⟨time, k⟩ (peq.scheduled s.responsePeq))
    (hpc : s'.responsePc = s.responsePc)
    (hrequest : RequestFits s'.now s'.endRequestEvent (.answered id to_ time told : Stage m n)
      (s'.requestPc.point k)) : s'.Shows k (.answered id to_ time told) := by
  have hdues : dues k (peq.scheduled s.responsePeq) = [] := h.responseDues
  have hnone : s.responsePc.point k = none := h.response.eq_none rfl
  refine ⟨hentry, ?_, ?_, ?_, ?_, hrequest, ?_, trivial⟩
  · show s'.references k = 1
    rw [hreferences]
    exact h.references
  · intro _ _ _ _ heq
    cases heq
  · show dues k (peq.scheduled s'.requestPeq) = []
    rw [hrequestPeq]
    exact h.requestDues
  · show dues k (peq.scheduled s'.responsePeq) = [time]
    rw [hresponsePeq]
    exact dues_schedule hdues
  · show ResponseFits _ _ _ (s'.responsePc.point k)
    rw [hpc]
    exact ResponseFits.of_eq_none hnone rfl

/-! ## The calls of initiators and targets -/

namespace Inv

variable {s : State m n peq} {tr : List (Output m n)}

theorem of_takes (h : Inv s tr) {k : Nat} {x : Letter m n} (htakes : Takes tr k x) :
    ∃ st st', stage k tr = some st ∧ s.Shows k st ∧ st.next x = some st' := by
  obtain ⟨st, hst, hshows⟩ := h.shows_ k
  rw [Takes, hst, Option.bind_some, Option.isSome_iff_exists] at htakes
  obtain ⟨st', hnext⟩ := htakes
  exact ⟨st, st', hst, hshows, hnext⟩

theorem beginReq (h : Inv s tr) {id : Fin m} {k : Nat} {address : UInt64} {t : ScTime}
    (htakes : Takes tr k (.initiator id (.beginReq address) (s.now + t.toNat))) :
    Inv (s.initiatorNBTransport id k address .beginReq t).1
      (tr ++ (s.initiatorNBTransport id k address .beginReq t).2) := by
  obtain ⟨st, st', hst, hshows, hnext⟩ := h.of_takes htakes
  obtain ⟨rfl, port, hport, rfl⟩ := next_beginReq hnext
  have hentry : s.pendingTransactions k = none := hshows.entry
  have hreferences : s.references k = 0 := hshows.references
  have hrequest : s.requestPc.point k = none := hshows.request.eq_none rfl
  have hresponse : s.responsePc.point k = none := hshows.response.eq_none rfl
  simp only [State.initiatorNBTransport, hentry]
  refine ⟨h.running, ?_, h.event, h.timer, h.it, h.response⟩
  refine shows_concat h.shows_ (fun j => rfl) hst hnext ?_ ?_
  · refine ⟨?_, ?_, ?_, ?_, ?_, ?_, ?_, trivial⟩
    · simp [State.view, State.notifyRequest, State.setPending, Stage.entry]
    · simp [State.view, State.notifyRequest, State.setPending, Stage.references, hreferences]
    · intro id' port' a due heq
      cases heq
      exact ⟨by simp [State.view, State.notifyRequest, State.setPending], hport⟩
    · show dues k (peq.scheduled (peq.notify s.now s.requestPeq k t.toNat)) = _
      rw [peq.scheduled_notify]
      exact dues_schedule hshows.requestDues
    · exact hshows.responseDues
    · show RequestFits _ _ _ (s.requestPc.point k)
      rw [hrequest]
      trivial
    · exact ResponseFits.of_eq_none hresponse rfl
  · intro j hj stj hshowsj
    refine hshowsj.frame ?_ rfl rfl rfl
    simp only [State.view, State.notifyRequest, State.setPending, peq.scheduled_notify,
      Function.update_of_ne hj]
    rw [dues_schedule_of_ne (Ne.symm hj)]

theorem endResp (h : Inv s tr) {id : Fin m} {k : Nat} {address : UInt64} {t : ScTime}
    (htakes : Takes tr k (.initiator id .endResp (s.now + t.toNat))) :
    Inv (s.initiatorNBTransport id k address .endResp t).1
      (tr ++ (s.initiatorNBTransport id k address .endResp t).2) := by
  obtain ⟨st, st', hst, hshows, hnext⟩ := h.of_takes htakes
  obtain ⟨to_, since, rfl, hlt, rfl⟩ := next_ended (Or.inl rfl) hnext
  obtain ⟨point, hpc, hpoint, hnone⟩ := hshows.awaits
  refine ⟨h.running, ?_, h.event, h.timer, h.it, fun _ => ⟨k, point, hpc, hpoint⟩⟩
  refine shows_concat h.shows_ (fun j => rfl) hst hnext ?_ ?_
  · refine ⟨hshows.entry, hshows.references, ?_, hshows.requestDues, hshows.responseDues, ?_, ?_,
      ⟨hshows.ordered, hlt⟩⟩
    · intro _ _ _ _ heq
      cases heq
    · exact hshows.request.congr rfl rfl rfl rfl
    · show ResponseFits _ _ _ (s.responsePc.point k)
      rw [hpc, responsePoint_handling_self]
      have hright : ∃ to' since' due, Stage.ended to_ since (s.now + t.toNat) false =
          (Stage.ended to' since' due false : Stage m n) ∧
            s.endResponseEvent.notify s.now (s.now + t.toNat) =
              Notification.none.notify s.now due := by
        rw [hnone]
        exact ⟨_, _, _, rfl, rfl⟩
      rcases hpoint with rfl | ⟨id', rfl⟩
      · exact Or.inr hright
      · exact Or.inr hright
  · intro j hj stj hshowsj
    have hresponse : ResponseFits _ _ stj (s.responsePc.point j) := hshowsj.response
    refine ⟨hshowsj.entry, hshowsj.references, hshowsj.address, hshowsj.requestDues,
      hshowsj.responseDues, hshowsj.request, ?_, hshowsj.ordered⟩
    show ResponseFits _ _ stj (s.responsePc.point j)
    rw [hpc, responsePoint_handling_of_ne hj] at hresponse ⊢
    exact hresponse

theorem targetEndReq (h : Inv s tr) {port : Fin n} {k : Nat} {t : ScTime}
    (htakes : Takes tr k (.target port .endReq (s.now + t.toNat))) :
    Inv (s.targetNBTransport port k .endReq t).1
      (tr ++ (s.targetNBTransport port k .endReq t).2) := by
  obtain ⟨st, st', hst, hshows, hnext⟩ := h.of_takes htakes
  obtain ⟨id, told, rfl, rfl⟩ := next_targetEndReq hnext
  have hresponse : s.responsePc.point k = none := hshows.response.eq_none rfl
  refine ⟨h.running, ?_, h.event.notify, h.timer, h.it, h.response⟩
  refine shows_concat h.shows_ (fun j => rfl) hst hnext ?_ ?_
  · refine ⟨hshows.entry, hshows.references, ?_, hshows.requestDues, hshows.responseDues, ?_, ?_,
      trivial⟩
    · intro _ _ _ _ heq
      cases heq
    · refine hshows.request.notify_deadline rfl rfl rfl rfl ?_ (Nat.le_add_right _ _)
      intro u hu
      cases hu
    · exact ResponseFits.of_eq_none hresponse rfl
  · intro j hj stj hshowsj
    exact hshowsj.notify h.event rfl rfl rfl rfl

theorem targetBeginResp (h : Inv s tr) {port : Fin n} {k : Nat} {t : ScTime}
    (htakes : Takes tr k (.target port .beginResp (s.now + t.toNat))) :
    Inv (s.targetNBTransport port k .beginResp t).1
      (tr ++ (s.targetNBTransport port k .beginResp t).2) := by
  obtain ⟨st, st', hst, hshows, hnext⟩ := h.of_takes htakes
  obtain ⟨id, taken, told, rfl, htaken, rfl⟩ := next_targetBeginResp hnext
  refine ⟨h.running, ?_, h.event.notify, h.timer, h.it, h.response⟩
  refine shows_concat h.shows_ (fun j => rfl) hst hnext ?_ ?_
  · refine hshows.answered hshows.entry rfl rfl (peq.scheduled_notify _ _ _ _) rfl ?_
    exact hshows.request.notify_deadline rfl rfl rfl rfl htaken (Nat.le_add_right _ _)
  · intro j hj stj hshowsj
    refine hshowsj.notify h.event ?_ rfl rfl rfl
    simp only [State.targetNBTransport, State.view, State.notifyResponse, peq.scheduled_notify]
    rw [dues_schedule_of_ne (Ne.symm hj)]

end Inv

end RenodeSystemC.SimpleBusAT
