import RenodeSystemC.Lt.TransitThreads

/-!
# Runs of `SimpleBusAT`

**Theorem (`carried`).** In every run in which the initiators and the targets keep to the way of
each transaction, so does the bus: no assertion fails, no erased entry is used, and every
transaction keeps to the base protocol at both of its hops. Responses are passed on one after the
other.

If an initiator ends a response at the time at which it began, the entry may be erased while
`RequestThread` still needs it (`instantResponse_erased`).
-/

namespace RenodeSystemC.SimpleBusAT

open NonBlocking (Phase SyncEnum)

variable {m n : Nat} {peq : PeqWithGet Nat}

/-! ## Time -/

/-- What firing the notifications equal to `at_`, at the time `now'`, makes of one. -/
structure Fires (now now' : Nat) (at_ x : Notification Nat) : Prop where
  pending : x ≠ at_ → x.Pending now → x.Pending now'
  wakes : ∀ u, x ≠ at_ → x.WakesBy now u → x.WakesBy now' u
  fired : ∀ u, x = at_ → x.WakesBy now u → now' ≤ u
  due : ∀ u, x = at_ → x = Notification.none.notify now u → u ≤ now'
  later : ∀ u, x ≠ at_ → x = Notification.none.notify now u → x = Notification.none.notify now' u

theorem none_notify (now u : Nat) :
    Notification.none.notify now u = if u ≤ now then .delta else .timed u := rfl

theorem fires_delta (now : Nat) (x : Notification Nat) : Fires now now .delta x := by
  refine ⟨fun _ h => h, fun _ _ h => h, ?_, ?_, fun _ _ h => h⟩
  · rintro u rfl h
    exact h
  · rintro u rfl h
    rw [none_notify] at h
    split_ifs at h with hu
    exact hu

theorem fires_timed {now t : Nat} {x : Notification Nat} (hx : notBefore t x = true) :
    Fires now t (.timed t) x := by
  cases x with
  | none =>
    refine ⟨fun _ h => h, fun _ _ h => h, ?_, ?_, ?_⟩
    · intro _ h
      cases h
    · intro _ h
      cases h
    · intro u _ h
      rw [none_notify] at h
      split_ifs at h
  | delta => cases hx
  | timed v =>
    have hv : t ≤ v := by simpa [notBefore] using hx
    refine ⟨?_, fun _ _ h => h, ?_, ?_, ?_⟩
    · intro hne _
      have hne' : v ≠ t := by simpa using hne
      exact Nat.lt_of_le_of_ne hv hne'.symm
    · intro u _ h
      exact Nat.le_trans hv h
    · intro u heq h
      cases heq
      rw [none_notify] at h
      split_ifs at h
      cases h
      exact Nat.le_refl _
    · intro u hne h
      have hne' : v ≠ t := by simpa using hne
      rw [none_notify] at h
      split_ifs at h
      cases h
      rw [none_notify, if_neg (by omega)]

theorem spent_eq_none_or (at_ x : Notification Nat) :
    (x = at_ ∧ spent at_ x = .none) ∨ (x ≠ at_ ∧ spent at_ x = x) := by
  by_cases hx : x = at_
  · exact Or.inl ⟨hx, if_pos hx⟩
  · exact Or.inr ⟨hx, if_neg hx⟩

namespace Inv

variable {s : State m n peq} {tr : List (Output m n)} {at_ : Notification Nat} {now' : Nat}

/-- `RequestThread` is woken. -/
theorem fits_wake {k : Nat} {st : Stage m n} (hshows : s.Shows k st)
    (hrun : s.requestPc.runnable = false) (hcall : s.requestPc.inCall = false)
    (hevent : Fires s.now now' at_ s.endRequestEvent)
    (htimer : Fires s.now now' at_ s.requestPc.timer) :
    RequestFits now' (spent at_ s.endRequestEvent) st
      ((s.requestPc.wake at_ s.requestEvent s.endRequestEvent).point k) := by
  have hrequest : RequestFits _ _ st (s.requestPc.point k) := hshows.request
  cases hpc : s.requestPc with
  | start | loop =>
    rw [hpc] at hrun
    cases hrun
  | waitPeq =>
    simp only [RequestPc.wake]
    split_ifs <;> trivial
  | waitCompleted timer =>
    simp only [RequestPc.wake]
    split_ifs <;> trivial
  | handling j point =>
    rw [hpc] at hrun hcall hrequest htimer
    by_cases hj : k = j
    · rw [hj, point_handling_self] at hrequest
      rw [hj]
      cases point with
      | beginReq | endReq => cases hcall
      | waited => cases hrun
      | waitEvent =>
        simp only [RequestPc.wake, point_handling_self]
        obtain ⟨hforwarded, htold, hwakes⟩ := hrequest
        rcases spent_eq_none_or at_ s.endRequestEvent with ⟨heq, hspent⟩ | ⟨hne, hspent⟩
        · rw [if_pos heq]
          refine ⟨hforwarded, htold, ?_⟩
          intro u hu
          exact hevent.fired u heq (hwakes u (Stage.deadline_of_since hu))
        · rw [if_neg hne, hspent]
          exact ⟨hforwarded, htold, fun u hu => hevent.wakes u hne (hwakes u hu)⟩
      | waitTime timer =>
        simp only [RequestPc.wake, point_handling_self]
        obtain ⟨hforwarded, htold, u, hu, hwakes⟩ := hrequest
        by_cases heq : timer = at_
        · rw [if_pos heq]
          refine ⟨hforwarded, htold, ?_⟩
          intro v hv
          rw [Stage.deadline_of_since hv] at hu
          cases hu
          exact htimer.fired _ heq hwakes
        · rw [if_neg heq]
          exact ⟨hforwarded, htold, u, hu, htimer.wakes u heq hwakes⟩
    · cases point <;> simp only [RequestPc.wake, point_handling_of_ne hj] <;> trivial

/-- `ResponseThread` is woken. -/
theorem responseFits_wake {k : Nat} {st : Stage m n} (hshows : s.Shows k st)
    (hrun : s.responsePc.runnable = false) (hcall : s.responsePc.inCall = false)
    (hne : at_ ≠ .none) (hevent : Fires s.now now' at_ s.endResponseEvent)
    (htimer : Fires s.now now' at_ s.responsePc.timer) :
    ResponseFits now' (spent at_ s.endResponseEvent) st
      ((s.responsePc.wake at_ s.responseEvent s.endResponseEvent).point k) := by
  have hresponse : ResponseFits _ _ st (s.responsePc.point k) := hshows.response
  cases hpc : s.responsePc with
  | start | loop =>
    rw [hpc] at hrun
    cases hrun
  | waitPeq =>
    rw [hpc] at hresponse
    simp only [ResponsePc.wake]
    split_ifs <;> exact hresponse
  | handling j point =>
    rw [hpc] at hrun hcall hresponse htimer
    by_cases hj : k = j
    · rw [hj, responsePoint_handling_self] at hresponse
      rw [hj]
      cases point with
      | beginResp | endResp => cases hcall
      | waited => cases hrun
      | waitEvent =>
        simp only [ResponsePc.wake, responsePoint_handling_self]
        rcases hresponse with ⟨id, to_, since, rfl, hnone⟩ | ⟨to_, since, due, rfl, hnotified⟩
        · have hne' : s.endResponseEvent ≠ at_ := by
            rw [hnone]
            exact Ne.symm hne
          rw [if_neg hne', spent, if_neg hne']
          exact Or.inl ⟨id, to_, since, rfl, hnone⟩
        · by_cases heq : s.endResponseEvent = at_
          · rw [if_pos heq]
            exact ⟨to_, since, due, rfl, hevent.due due heq hnotified⟩
          · rw [if_neg heq, spent, if_neg heq]
            exact Or.inr ⟨to_, since, due, rfl, hevent.later due heq hnotified⟩
      | waitTime timer =>
        simp only [ResponsePc.wake, responsePoint_handling_self]
        obtain ⟨to_, since, due, rfl, hnotified⟩ := hresponse
        by_cases heq : timer = at_
        · rw [if_pos heq]
          exact ⟨to_, since, due, rfl, htimer.due due heq hnotified⟩
        · rw [if_neg heq]
          exact ⟨to_, since, due, rfl, htimer.later due heq hnotified⟩
    · rw [responsePoint_handling_of_ne hj] at hresponse
      cases point <;> simp only [ResponsePc.wake, responsePoint_handling_of_ne hj] <;>
        exact hresponse

end Inv

theorem Stage.Ordered.mono {st : Stage m n} {now now' : Nat} (h : st.Ordered now)
    (hle : now ≤ now') : st.Ordered now' := by
  cases st with
  | responding => exact Nat.le_trans h hle
  | ended => exact ⟨Nat.le_trans h.1 hle, h.2⟩
  | _ => trivial

theorem wake_timer_pending {now now' : Nat} {at_ peqEvent event : Notification Nat}
    {pc : RequestPc n} (hfires : Fires now now' at_ pc.timer) (h : pc.timer.Pending now) :
    (pc.wake at_ peqEvent event).timer.Pending now' := by
  cases pc with
  | waitPeq =>
    simp only [RequestPc.wake]
    split_ifs <;> trivial
  | waitCompleted timer =>
    simp only [RequestPc.wake]
    split_ifs with heq
    · trivial
    · exact hfires.pending heq h
  | start | loop => trivial
  | handling k point =>
    cases point with
    | waitEvent =>
      simp only [RequestPc.wake]
      split_ifs <;> trivial
    | waitTime timer =>
      simp only [RequestPc.wake]
      split_ifs with heq
      · trivial
      · exact hfires.pending heq h
    | _ => trivial

theorem wake_eq_handling {at_ peqEvent event : Notification Nat} {pc : RequestPc n} {k : Nat}
    {point : RequestPoint n} (h : pc.wake at_ peqEvent event = .handling k point)
    (hne : point ≠ .endReq) : ∃ point', pc = .handling k point' ∧ point' ≠ .endReq := by
  cases pc with
  | waitPeq | waitCompleted =>
    simp only [RequestPc.wake] at h
    split_ifs at h
  | start | loop => cases h
  | handling j point' =>
    cases point' with
    | endReq =>
      cases h
      exact absurd rfl hne
    | _ =>
      simp only [RequestPc.wake, RequestPc.handling.injEq] at h
      obtain ⟨rfl, -⟩ := h
      exact ⟨_, rfl, by simp⟩

theorem ResponsePc.AwaitsEvent.wake {at_ peqEvent event : Notification Nat} {pc : ResponsePc m n}
    (h : pc.AwaitsEvent) (hne : event ≠ at_) : (pc.wake at_ peqEvent event).AwaitsEvent := by
  obtain ⟨k, point, rfl, rfl | ⟨id, rfl⟩⟩ := h
  · refine ⟨k, .waitEvent, ?_, Or.inl rfl⟩
    simp only [ResponsePc.wake, if_neg hne]
  · exact ⟨k, .beginResp id, rfl, Or.inr ⟨id, rfl⟩⟩

namespace Inv

variable {s : State m n peq} {tr : List (Output m n)} {at_ : Notification Nat} {now' : Nat}

theorem fire (h : Inv s tr) (hbusy : s.busy = false) (hne : at_ ≠ .none) (hle : s.now ≤ now')
    (hfires : ∀ x ∈ s.notifications, Fires s.now now' at_ x) :
    Inv { s.fire at_ with now := now' } (tr ++ []) := by
  rw [List.append_nil]
  simp only [State.busy, Bool.or_eq_false_iff] at hbusy
  obtain ⟨⟨⟨hrun, hcall⟩, hrun'⟩, hcall'⟩ := hbusy
  have hevent := hfires s.endRequestEvent (by simp [State.notifications])
  have hevent' := hfires s.endResponseEvent (by simp [State.notifications])
  have htimer := hfires s.requestPc.timer (by simp [State.notifications])
  have htimer' := hfires s.responsePc.timer (by simp [State.notifications])
  refine ⟨h.running, ?_, ?_, wake_timer_pending htimer h.timer, ?_, ?_⟩
  · intro k
    obtain ⟨st, hst, hshows⟩ := h.shows_ k
    exact ⟨st, hst, hshows.entry, hshows.references, hshows.address, hshows.requestDues,
      hshows.responseDues, fits_wake hshows hrun hcall hevent htimer,
      responseFits_wake hshows hrun' hcall' hne hevent' htimer', hshows.ordered.mono hle⟩
  · show Notification.Pending now' (spent at_ s.endRequestEvent)
    rcases spent_eq_none_or at_ s.endRequestEvent with ⟨-, hspent⟩ | ⟨hother, hspent⟩
    · rw [hspent]
      trivial
    · rw [hspent]
      exact hevent.pending hother h.event
  · intro k point heq hpoint
    obtain ⟨point', hpc, hpoint'⟩ := wake_eq_handling heq hpoint
    exact h.it k point' hpc hpoint'
  · intro hnotified
    rcases spent_eq_none_or at_ s.endResponseEvent with ⟨-, hspent⟩ | ⟨hother, hspent⟩
    · exact absurd hspent hnotified
    · have hsame : s.endResponseEvent ≠ .none := by
        intro hnone
        exact hnotified (hspent.trans hnone)
      exact (h.response hsame).wake hother

end Inv

/-! ## The machine -/

/-- What an initiator or a target does to a transaction with an event, if anything; none if the
event is none of theirs to make. -/
def said (s : State m n peq) : Event m n → Option (Option (Nat × Letter m n))
  | .initiatorNBTransport id txn address .beginReq t =>
    some (some (txn, .initiator id (.beginReq address) (s.now + t.toNat)))
  | .initiatorNBTransport id txn _ .endResp t =>
    some (some (txn, .initiator id .endResp (s.now + t.toNat)))
  | .initiatorNBTransport .. => none
  | .targetNBTransport port txn .endReq t =>
    some (some (txn, .target port .endReq (s.now + t.toNat)))
  | .targetNBTransport port txn .beginResp t =>
    some (some (txn, .target port .beginResp (s.now + t.toNat)))
  | .targetNBTransport .. => none
  | .beginReqReturns status phase t =>
    match s.requestPc with
    | .handling txn (.beginReq port) =>
      match status, phase with
      | .completed, _ => some (some (txn, .target port .completed (s.now + t.toNat)))
      | _, .beginReq => some none
      | _, .endReq => some (some (txn, .target port .endReq (s.now + t.toNat)))
      | _, .beginResp => some (some (txn, .target port .beginResp (s.now + t.toNat)))
      | _, .endResp => none
    | _ => some none
  | .beginRespReturns .completed t =>
    match s.responsePc with
    | .handling txn (.beginResp id) => some (some (txn, .initiator id .completed (s.now + t.toNat)))
    | _ => some none
  | .endRespReturns .completed => some none
  -- a target completes the transaction at the end of the response
  | .endRespReturns _ => none
  | _ => some none

def Fitting (tr : List (Output m n)) : Option (Option (Nat × Letter m n)) → Prop
  | none => False
  | some none => True
  | some (some (k, x)) => Takes tr k x

instance (tr : List (Output m n)) : DecidablePred (Fitting tr)
  | none => inferInstanceAs (Decidable False)
  | some none => inferInstanceAs (Decidable True)
  | some (some (k, x)) => inferInstanceAs (Decidable (Takes tr k x))

/-- Initiators and targets keep to the way of the transaction. -/
def Behaves (s : State m n peq) (tr : List (Output m n)) (e : Event m n) : Prop :=
  Fitting tr (said s e)

instance (s : State m n peq) (tr : List (Output m n)) (e : Event m n) :
    Decidable (Behaves s tr e) :=
  inferInstanceAs (Decidable (Fitting tr (said s e)))

namespace Inv

variable {s s' : State m n peq} {tr out : List (Output m n)}

theorem of_some {p : State m n peq × List (Output m n)} (hp : some p = some (s', out))
    (h : Inv p.1 (tr ++ p.2)) : Inv s' (tr ++ out) := by
  obtain ⟨s₁, o⟩ := p
  cases hp
  exact h

theorem beginReqReturns (h : Inv s tr) {status : SyncEnum} {phase : Phase} {t : ScTime} {k : Nat}
    {port : Fin n} (hbehaves : Behaves s tr (.beginReqReturns status phase t))
    (hpc : s.requestPc = .handling k (.beginReq port)) :
    Inv (s.beginReqReturns k port status phase t).1
      (tr ++ (s.beginReqReturns k port status phase t).2) := by
  simp only [Behaves, said, hpc] at hbehaves
  cases status with
  | completed => exact h.beginReqCompleted hpc hbehaves
  | accepted | updated =>
    cases phase with
    | beginReq => exact h.beginReqAccepted hpc
    | endReq => exact h.beginReqEnded hpc hbehaves
    | beginResp => exact h.beginReqAnswered hpc hbehaves
    | endResp => cases hbehaves

theorem beginRespReturns (h : Inv s tr) {status : SyncEnum} {t : ScTime} {k : Nat} {id : Fin m}
    (hbehaves : Behaves s tr (.beginRespReturns status t))
    (hpc : s.responsePc = .handling k (.beginResp id)) :
    Inv (s.beginRespReturns k id status t).1 (tr ++ (s.beginRespReturns k id status t).2) := by
  cases status with
  | completed =>
    simp only [Behaves, said, hpc] at hbehaves
    exact h.beginRespCompleted hpc hbehaves
  | accepted | updated => exact h.beginRespAccepted hpc

end Inv

theorem inv_init : Inv (State.init m n peq) [] := by
  refine ⟨rfl, ?_, trivial, trivial, ?_, ?_⟩
  · intro k
    refine ⟨.idle, rfl, rfl, rfl, ?_, ?_, ?_, trivial, rfl, trivial⟩
    · intro _ _ _ _ heq
      cases heq
    · simp [State.view, State.init, peq.scheduled_empty, Stage.requestDues]
    · simp [State.view, State.init, peq.scheduled_empty, Stage.responseDues]
  · intro _ _ heq _
    cases heq
  · intro hne
    exact absurd rfl hne

theorem inv_step {s s' : State m n peq} {tr out : List (Output m n)} {e : Event m n} (h : Inv s tr)
    (hbehaves : Behaves s tr e) (hstep : step s e = some (s', out)) : Inv s' (tr ++ out) := by
  have hrunning : ¬ s.stopped = true := by simp [h.running]
  unfold step at hstep
  rw [if_neg hrunning] at hstep
  cases e with
  | initiatorNBTransport id txn address phase t =>
    apply Inv.of_some hstep
    cases phase with
    | beginReq => exact h.beginReq hbehaves
    | endResp => exact h.endResp hbehaves
    | endReq | beginResp => cases hbehaves
  | targetNBTransport port txn phase t =>
    apply Inv.of_some hstep
    cases phase with
    | endReq => exact h.targetEndReq hbehaves
    | beginResp => exact h.targetBeginResp hbehaves
    | beginReq | endResp => cases hbehaves
  | runRequest =>
    simp only at hstep
    split_ifs at hstep
    exact h.runRequest hstep
  | beginReqReturns status phase t =>
    simp only at hstep
    split at hstep
    · rename_i k port hpc
      exact Inv.of_some hstep (h.beginReqReturns hbehaves hpc)
    · cases hstep
  | endReqReturns =>
    simp only at hstep
    split at hstep
    · cases hstep
      exact h.endReqReturns
    · cases hstep
  | runResponse =>
    simp only at hstep
    split_ifs at hstep with hcall
    exact h.runResponse (by simpa using hcall) hstep
  | beginRespReturns status t =>
    simp only at hstep
    split at hstep
    · rename_i k id hpc
      exact Inv.of_some hstep (h.beginRespReturns hbehaves hpc)
    · cases hstep
  | endRespReturns status =>
    simp only at hstep
    split at hstep
    · rename_i k port hpc
      have hcompleted : status = .completed := by
        cases status with
        | completed => rfl
        | accepted | updated => cases hbehaves
      rw [if_pos hcompleted] at hstep
      exact Inv.of_some hstep (h.endRespReturns hpc)
    · cases hstep
  | deltaCycle =>
    simp only at hstep
    split_ifs at hstep with hcond
    cases hstep
    exact h.fire hcond.1 (by simp) (Nat.le_refl _) fun x _ => fires_delta _ x
  | advance t =>
    simp only at hstep
    split_ifs at hstep with hcond
    cases hstep
    obtain ⟨hlt, hbusy, hall⟩ := hcond
    apply h.fire hbusy (by simp) (Nat.le_of_lt hlt)
    intro x hx
    exact fires_timed (List.all_eq_true.1 hall x hx)

/-- Two initiators. The target of the first one completes its transaction at once; the other one
answers by calls, and the second initiator ends the response by a call. -/
def crossing : List (Event 2 2) :=
  let first : Fin 2 := ⟨0, Nat.two_pos⟩
  let second : Fin 2 := ⟨1, Nat.one_lt_two⟩
  [.runRequest, .runResponse, .initiatorNBTransport first 0 0x10000004 .beginReq 0,
    .initiatorNBTransport second 1 0x00000008 .beginReq 0, .deltaCycle, .runRequest,
    .beginReqReturns .completed .beginReq 5, .advance 5, .runRequest,
    .beginReqReturns .accepted .beginReq 0, .targetNBTransport first 1 .endReq 3, .runResponse,
    .beginRespReturns .completed 7, .advance 8, .runRequest, .endReqReturns, .runRequest,
    .targetNBTransport first 1 .beginResp 1, .advance 9, .advance 12, .runResponse, .runResponse,
    .beginRespReturns .accepted 0, .initiatorNBTransport second 1 0 .endResp 2, .advance 14,
    .runResponse, .endRespReturns .completed]

/-- One more transaction is in its response phase when another one is answered. `RequestThread`
waits for the end of its request phase and is woken in the next delta cycle; but the initiator
completes the transaction at once, and `ResponseThread` comes first. -/
def instantResponse : List (Event 1 1) :=
  [.runRequest, .runResponse, .initiatorNBTransport 0 0 0 .beginReq 0,
    .initiatorNBTransport 0 1 0 .beginReq 0, .deltaCycle, .runRequest,
    .beginReqReturns .completed .beginReq 0, .deltaCycle, .runRequest,
    .beginReqReturns .accepted .beginReq 0, .runResponse, .beginRespReturns .completed 10,
    .advance 10, .targetNBTransport 0 1 .beginResp 0, .runResponse, .runResponse,
    .beginRespReturns .completed 0, .deltaCycle, .runResponse, .endRespReturns .completed,
    .runRequest]

/-- The return of `TLM_COMPLETED` without delay, the 17th event, is the first that is off the
way. -/
theorem instantResponse_erased :
    (simpleBusAT 1 1 (.multimap Nat)).Allowed Behaves (instantResponse.take 16) ∧
      ((simpleBusAT 1 1 (.multimap Nat)).runFrom (.init 1 1 _) instantResponse).map
        (fun r => r.2.getLast?) = some (some (.failed .erased)) := by
  decide

end RenodeSystemC.SimpleBusAT
