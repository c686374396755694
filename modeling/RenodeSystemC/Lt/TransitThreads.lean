import RenodeSystemC.Lt.TransitInv

/-!
# The threads of `SimpleBusAT`

What a thread does with a transaction, from a wait or a call to the next one, keeps the invariant.

**Lemma (`Inv.finish`).** `ResponseThread` erases an entry only when `RequestThread` is through
with it.
-/

namespace RenodeSystemC.SimpleBusAT

open Lt (decode getAddressMask)
open NonBlocking (Phase SyncEnum)

variable {m n : Nat} {peq : PeqWithGet Nat}

namespace Inv

variable {s : State m n peq} {tr : List (Output m n)}

/-! ## `RequestThread` -/

/-- `RequestThread` goes on, and nothing happens to a transaction. -/
theorem setRequestPc (h : Inv s tr) {pc : RequestPc n}
    (hfits : ∀ j st, s.Shows j st → RequestFits s.now s.endRequestEvent st (pc.point j))
    (htimer : pc.timer.Pending s.now)
    (hit : ∀ k point, pc = .handling k point → point ≠ .endReq → s.it = some k) :
    Inv { s with requestPc := pc } (tr ++ []) := by
  rw [List.append_nil]
  refine ⟨h.running, ?_, h.event, htimer, hit, h.response⟩
  intro j
  obtain ⟨st, hst, hshows⟩ := h.shows_ j
  exact ⟨st, hst, hshows.entry, hshows.references, hshows.address, hshows.requestDues,
    hshows.responseDues, hfits j st hshows, hshows.response, hshows.ordered⟩

/-- It goes on to where it is with no transaction. -/
theorem freeRequestPc (h : Inv s tr) (pc : RequestPc n) (hpc : ∀ k, pc.point k = none)
    (htimer : pc.timer = .none) : Inv { s with requestPc := pc } (tr ++ []) := by
  refine h.setRequestPc ?_ ?_ ?_
  · intro j st _
    rw [hpc]
    trivial
  · rw [htimer]
    trivial
  · intro k point heq _
    have hnone := hpc k
    rw [heq, point_handling_self] at hnone
    cases hnone

theorem requestLoop (h : Inv s tr) (hpc : s.requestPc = .loop) :
    Inv s.requestLoop.1 (tr ++ s.requestLoop.2) := by
  rcases getNextTransaction_cases s.now s.requestPeq with
    ⟨queue, notified, hnext, hsame⟩ | ⟨d, k, queue, hnext, hq, hd⟩
  · simp only [State.requestLoop, hnext, List.append_nil]
    refine ⟨h.running, ?_, h.event, trivial, ?_, h.response⟩
    · intro j
      obtain ⟨st, hst, hshows⟩ := h.shows_ j
      refine ⟨st, hst, hshows.frame ?_ rfl rfl rfl⟩
      simp only [State.view, hsame, hpc]
      rfl
    · intro _ _ heq _
      cases heq
  · obtain ⟨st, hst, hshows⟩ := h.shows_ k
    have hdues : dues k (peq.scheduled s.requestPeq) = st.requestDues := hshows.requestDues
    rw [hq, dues_cons_self] at hdues
    cases st with
    | queued id port a due =>
      obtain ⟨rfl, hrest⟩ := List.cons.inj hdues
      obtain ⟨haddress, hport⟩ := hshows.address id port a d rfl
      have hentry : s.pendingTransactions k = some ⟨some id, none⟩ := hshows.entry
      have haddress' : s.address k = a := haddress
      have hresponse : s.responsePc.point k = none := hshows.response.eq_none rfl
      have hlt : (decode (s.address k)).toNat < n := by
        rw [haddress', ← hport]
        exact port.isLt
      have hfin : (⟨(decode (s.address k)).toNat, hlt⟩ : Fin n) = port := by
        apply Fin.ext
        show (decode (s.address k)).toNat = port.val
        rw [haddress']
        exact hport.symm
      have hforward : (Stage.queued id port a d).next (.target port
          (.beginReq (s.address k &&& getAddressMask (decode (s.address k)))) s.now) =
            some (.requested id port none false) := by
        rw [haddress']
        simp [Stage.next, hd]
      simp only [State.requestLoop, hnext, dif_pos hlt, hentry, hfin]
      refine ⟨h.running, ?_, h.event, trivial, ?_, h.response⟩
      · refine shows_concat h.shows_ (fun j => rfl) hst hforward ?_ ?_
        · refine ⟨?_, hshows.references, ?_, hrest, hshows.responseDues, ?_, ?_, trivial⟩
          · simp [State.view, State.setPending, Stage.entry]
          · intro _ _ _ _ heq
            cases heq
          · show RequestFits _ _ _ (RequestPc.point k (.handling k (.beginReq port)))
            rw [point_handling_self]
            refine ⟨rfl, rfl, rfl, ?_⟩
            intro u hu
            cases hu
          · exact ResponseFits.of_eq_none hresponse rfl
        · intro j hj stj hshowsj
          refine hshowsj.frame ?_ rfl rfl rfl
          simp only [State.view, State.setPending, Function.update_of_ne hj, hq, hpc,
            point_handling_of_ne hj]
          rw [dues_cons_of_ne (Ne.symm hj)]
          rfl
      · intro j point heq _
        cases heq
        rfl
    | _ => cases hdues

theorem sendEndReq (h : Inv s tr) {k : Nat} (hpc : s.requestPc = .handling k .waited) :
    Inv (s.sendEndReq k).1 (tr ++ (s.sendEndReq k).2) := by
  obtain ⟨st, hst, hshows⟩ := h.shows_ k
  have hit : s.it = some k := h.it k .waited hpc (by simp)
  have hentry : s.pendingTransactions k = st.entry := hshows.entry
  have hrequest : RequestFits _ _ st (s.requestPc.point k) := hshows.request
  rw [hpc, point_handling_self] at hrequest
  rcases st.endReq_cases hrequest.1 hrequest.2.1 s.now with
    ⟨id, to_, st', hid, hnext, htells⟩ | ⟨to_, hto⟩
  · rw [hid] at hentry
    simp only [State.sendEndReq, hit, Option.bind_some, hentry]
    refine ⟨h.running, ?_, h.event, trivial, ?_, h.response⟩
    · refine shows_concat h.shows_ (fun j => rfl) hst hnext ?_ ?_
      · refine ⟨hshows.entry.trans htells.entry.symm,
          hshows.references.trans htells.references.symm, ?_,
          hshows.requestDues.trans htells.requestDues.symm,
          hshows.responseDues.trans htells.responseDues.symm, ?_, ?_, .of_told htells.told⟩
        · intro _ _ _ _ heq
          have htold := htells.told
          rw [heq] at htold
          cases htold
        · show RequestFits _ _ _ (RequestPc.point k (.handling k .endReq))
          rw [point_handling_self]
          exact htells.told
        · exact ResponseFits.of_eq_none (hshows.response.eq_none htells.since)
            (Stage.of_told htells.told).2
      · intro j hj stj hshowsj
        refine hshowsj.frame ?_ rfl rfl rfl
        simp only [State.view, hpc, point_handling_of_ne hj]
    · intro j point heq hne
      cases heq
      exact absurd rfl hne
  · rw [hto] at hentry
    have hloop : s.sendEndReq k = ({ s with requestPc := .loop }, []) := by
      simp only [State.sendEndReq, hit, Option.bind_some, hentry]
    rw [hloop]
    exact h.freeRequestPc .loop (fun _ => rfl) rfl

theorem runRequest {s' : State m n peq} {out : List (Output m n)} (h : Inv s tr)
    (hrun : s.runRequest = some (s', out)) : Inv s' (tr ++ out) := by
  cases hpc : s.requestPc with
  | start =>
    simp only [State.runRequest, hpc, Option.some.injEq, Prod.mk.injEq] at hrun
    obtain ⟨rfl, rfl⟩ := hrun
    exact h.freeRequestPc .waitPeq (fun _ => rfl) rfl
  | loop =>
    simp only [State.runRequest, hpc, Option.some.injEq] at hrun
    have hloop := h.requestLoop hpc
    rw [hrun] at hloop
    exact hloop
  | handling k point =>
    cases point with
    | waited =>
      simp only [State.runRequest, hpc, Option.some.injEq] at hrun
      have hsend := h.sendEndReq hpc
      rw [hrun] at hsend
      exact hsend
    | _ => simp [State.runRequest, hpc] at hrun
  | _ => simp [State.runRequest, hpc] at hrun

theorem endReqReturns (h : Inv s tr) : Inv { s with requestPc := .loop } (tr ++ []) :=
  h.freeRequestPc .loop (fun _ => rfl) rfl

/-- The target has taken the request and will end its phase by a call. -/
theorem beginReqAccepted (h : Inv s tr) {k : Nat} {port : Fin n}
    (hpc : s.requestPc = .handling k (.beginReq port)) :
    Inv { s with requestPc := .handling k .waitEvent } (tr ++ []) := by
  refine h.setRequestPc ?_ trivial ?_
  · intro j st hshows
    have hrequest : RequestFits _ _ st (s.requestPc.point j) := hshows.request
    by_cases hj : j = k
    · rw [hj] at hrequest ⊢
      rw [hpc, point_handling_self] at hrequest
      rw [point_handling_self]
      exact ⟨hrequest.1, hrequest.2.1, hrequest.2.2.2⟩
    · rw [point_handling_of_ne hj]
      trivial
  · intro j point heq _
    cases heq
    exact h.it k _ hpc (by simp)

/-- It has returned the end of the phase. -/
theorem beginReqEnded (h : Inv s tr) {k : Nat} {port : Fin n} {t : ScTime}
    (hpc : s.requestPc = .handling k (.beginReq port))
    (htakes : Takes tr k (.target port .endReq (s.now + t.toNat))) :
    Inv { s with requestPc := .handling k (.waitTime (s.timer t)) }
      (tr ++ [.target port k .endReq (s.now + t.toNat)]) := by
  obtain ⟨st, st', hst, hshows, hnext⟩ := h.of_takes htakes
  obtain ⟨id, told, rfl, rfl⟩ := next_targetEndReq hnext
  have hrequest : RequestFits _ _ _ (s.requestPc.point k) := hshows.request
  rw [hpc, point_handling_self] at hrequest
  have hresponse : s.responsePc.point k = none := hshows.response.eq_none rfl
  refine ⟨h.running, ?_, h.event, ?_, ?_, h.response⟩
  · refine shows_concat h.shows_ (fun j => rfl) hst hnext ?_ ?_
    · refine ⟨hshows.entry, hshows.references, ?_, hshows.requestDues, hshows.responseDues, ?_, ?_,
        trivial⟩
      · intro _ _ _ _ heq
        cases heq
      · show RequestFits _ _ _ (RequestPc.point k (.handling k (.waitTime (s.timer t))))
        rw [point_handling_self]
        exact ⟨rfl, hrequest.2.1, _, rfl, Notification.wakesBy_notify (Nat.le_add_right _ _)⟩
      · exact ResponseFits.of_eq_none hresponse rfl
    · intro j hj stj hshowsj
      refine hshowsj.frame ?_ rfl rfl rfl
      simp only [State.view, hpc, point_handling_of_ne hj]
  · show Notification.Pending s.now (Notification.none.notify s.now (s.now + t.toNat))
    exact Notification.Pending.notify trivial
  · intro j point heq _
    cases heq
    exact h.it k _ hpc (by simp)

/-- It has returned the response. -/
theorem beginReqAnswered (h : Inv s tr) {k : Nat} {port : Fin n} {t : ScTime}
    (hpc : s.requestPc = .handling k (.beginReq port))
    (htakes : Takes tr k (.target port .beginResp (s.now + t.toNat))) :
    Inv { s.notifyResponse k t with requestPc := .loop }
      (tr ++ [.target port k .beginResp (s.now + t.toNat)]) := by
  obtain ⟨st, st', hst, hshows, hnext⟩ := h.of_takes htakes
  obtain ⟨id, taken, told, rfl, htaken, rfl⟩ := next_targetBeginResp hnext
  refine ⟨h.running, ?_, h.event, trivial, ?_, h.response⟩
  · refine shows_concat h.shows_ (fun j => rfl) hst hnext ?_ ?_
    · exact hshows.answered hshows.entry rfl rfl (peq.scheduled_notify _ _ _ _) rfl trivial
    · intro j hj stj hshowsj
      refine hshowsj.frame ?_ rfl rfl rfl
      simp only [State.view, State.notifyResponse, peq.scheduled_notify, hpc,
        point_handling_of_ne hj]
      rw [dues_schedule_of_ne (Ne.symm hj)]
      rfl
  · intro _ _ heq _
    cases heq

/-- It has completed the transaction. -/
theorem beginReqCompleted (h : Inv s tr) {k : Nat} {port : Fin n} {phase : Phase} {t : ScTime}
    (hpc : s.requestPc = .handling k (.beginReq port))
    (htakes : Takes tr k (.target port .completed (s.now + t.toNat))) :
    Inv (s.beginReqReturns k port .completed phase t).1
      (tr ++ (s.beginReqReturns k port .completed phase t).2) := by
  obtain ⟨st, st', hst, hshows, hnext⟩ := h.of_takes htakes
  obtain ⟨id, rfl, rfl⟩ := next_targetCompleted hnext
  have hentry : s.pendingTransactions k = some ⟨some id, some port⟩ := hshows.entry
  simp only [State.beginReqReturns, hentry]
  refine ⟨h.running, ?_, h.event, ?_, ?_, h.response⟩
  · refine shows_concat h.shows_ (fun j => rfl) hst hnext ?_ ?_
    · refine hshows.answered ?_ rfl rfl (peq.scheduled_notify _ _ _ _) rfl trivial
      simp [State.setPending]
    · intro j hj stj hshowsj
      refine hshowsj.frame ?_ rfl rfl rfl
      simp only [State.view, State.setPending, State.notifyResponse, peq.scheduled_notify, hpc,
        point_handling_of_ne hj, Function.update_of_ne hj]
      rw [dues_schedule_of_ne (Ne.symm hj)]
      rfl
  · show Notification.Pending s.now (Notification.none.notify s.now (s.now + t.toNat))
    exact Notification.Pending.notify trivial
  · intro _ _ heq _
    cases heq

/-! ## `ResponseThread` -/

/-- `ResponseThread` goes on, and nothing happens to a transaction. -/
theorem setResponsePc (h : Inv s tr) {pc : ResponsePc m n}
    (hfits : ∀ j st, s.Shows j st → ResponseFits s.now s.endResponseEvent st (pc.point j))
    (hawaits : s.endResponseEvent ≠ .none → pc.AwaitsEvent) :
    Inv { s with responsePc := pc } (tr ++ []) := by
  rw [List.append_nil]
  refine ⟨h.running, ?_, h.event, h.timer, h.it, hawaits⟩
  intro j
  obtain ⟨st, hst, hshows⟩ := h.shows_ j
  exact ⟨st, hst, hshows.entry, hshows.references, hshows.address, hshows.requestDues,
    hshows.responseDues, hshows.request, hfits j st hshows, hshows.ordered⟩

/-- Nobody has notified `mEndResponseEvent` while the thread does not wait for it. -/
theorem event_eq_none (h : Inv s tr) (hpc : ¬ s.responsePc.AwaitsEvent) :
    s.endResponseEvent = .none := by
  by_contra hne
  exact hpc (h.response hne)

/-- `RequestThread` waits, if it is with the transaction that `ResponseThread` passes on; it has
been or will be woken by now. -/
theorem fits_responding {k d : Nat} {id : Fin m} {to_ : Option (Fin n)} {told : Bool}
    (hshows : s.Shows k (.answered id to_ d told)) (hcall : s.requestPc.inCall = false)
    (hd : d ≤ s.now) :
    RequestFits s.now s.endRequestEvent (.responding id to_ s.now : Stage m n)
      (s.requestPc.point k) := by
  have hrequest : RequestFits _ _ _ (s.requestPc.point k) := hshows.request
  cases hpc : s.requestPc with
  | handling j point =>
    rw [hpc] at hrequest hcall
    by_cases hj : k = j
    · rw [hj, point_handling_self] at hrequest ⊢
      cases point with
      | beginReq | endReq => cases hcall
      | waitEvent =>
        refine ⟨rfl, rfl, ?_⟩
        intro u hu
        cases hu
        exact (hrequest.2.2 d rfl).mono hd
      | waitTime timer =>
        obtain ⟨u, hu, hw⟩ := hrequest.2.2
        cases hu
        exact ⟨rfl, rfl, s.now, rfl, hw.mono hd⟩
      | waited =>
        refine ⟨rfl, rfl, ?_⟩
        intro u hu
        cases hu
        exact Nat.le_refl _
    · rw [point_handling_of_ne hj]
      trivial
  | _ => trivial

theorem responseLoop (h : Inv s tr) (hpc : s.responsePc = .loop)
    (hcall : s.requestPc.inCall = false) : Inv s.responseLoop.1 (tr ++ s.responseLoop.2) := by
  have hnone : s.endResponseEvent = .none := by
    apply h.event_eq_none
    rintro ⟨k, point, heq, -⟩
    rw [hpc] at heq
    cases heq
  rcases getNextTransaction_cases s.now s.responsePeq with
    ⟨queue, notified, hnext, hsame⟩ | ⟨d, k, queue, hnext, hq, hd⟩
  · simp only [State.responseLoop, hnext, List.append_nil]
    refine ⟨h.running, ?_, h.event, h.timer, h.it, fun hne => absurd hnone hne⟩
    intro j
    obtain ⟨st, hst, hshows⟩ := h.shows_ j
    refine ⟨st, hst, hshows.frame ?_ rfl rfl rfl⟩
    simp only [State.view, hsame, hpc]
    rfl
  · obtain ⟨st, hst, hshows⟩ := h.shows_ k
    have hdues : dues k (peq.scheduled s.responsePeq) = st.responseDues := hshows.responseDues
    rw [hq, dues_cons_self] at hdues
    cases st with
    | answered id to_ due told =>
      obtain ⟨rfl, hrest⟩ := List.cons.inj hdues
      have hentry : s.pendingTransactions k = some ⟨some id, to_⟩ := hshows.entry
      have hrequest := fits_responding hshows hcall hd
      have hpass : (Stage.answered id to_ d told).next (.initiator id .beginResp s.now) =
          some (.responding id to_ s.now) := by
        simp [Stage.next, hd]
      simp only [State.responseLoop, hnext, hentry]
      refine ⟨h.running, ?_, h.event, h.timer, h.it, fun hne => absurd hnone hne⟩
      refine shows_concat h.shows_ (fun j => rfl) hst hpass ?_ ?_
      · refine ⟨?_, hshows.references, ?_, hshows.requestDues, hrest, hrequest, ?_,
          Nat.le_refl _⟩
        · simp [State.view, State.setPending, Stage.entry]
        · intro _ _ _ _ heq
          cases heq
        · show ResponseFits _ _ _ (ResponsePc.point k (.handling k (.beginResp id)))
          rw [responsePoint_handling_self]
          exact Or.inl ⟨id, to_, s.now, rfl, hnone⟩
      · intro j hj stj hshowsj
        refine hshowsj.frame ?_ rfl rfl rfl
        simp only [State.view, State.setPending, Function.update_of_ne hj, hq, hpc,
          responsePoint_handling_of_ne hj]
        rw [dues_cons_of_ne (Ne.symm hj)]
        rfl
    | _ => cases hdues

/-- **The entry is erased only when `RequestThread` is through with it.** -/
theorem finish (h : Inv s tr) {k : Nat} {to_ : Option (Fin n)} {since due : Nat} {told : Bool}
    {point : ResponsePoint m n} (hpc : s.responsePc = .handling k point)
    (hpoint : ¬ s.responsePc.AwaitsEvent) (hst : stage k tr = some (.ended to_ since due told))
    (hshows : s.Shows k (.ended to_ since due told)) (hdue : due ≤ s.now)
    (hover : to_ = none ∨ told = true) : Inv (s.finish k).1 (tr ++ (s.finish k).2) := by
  have hlt : since < s.now := Nat.lt_of_lt_of_le hshows.ordered.2 hdue
  have hrequest : s.requestPc.point k = none :=
    hshows.request.eq_none_of_lt
      (rfl : (s.view k).request = s.requestPc.point k) h.event h.timer rfl
      hlt
  have hrelease : (Stage.ended to_ since due told : Stage m n).next .release = some .idle := by
    simp [Stage.next, hover]
  have hreferences : s.references k = 1 := hshows.references
  have hnone : s.endResponseEvent = .none := h.event_eq_none hpoint
  refine ⟨h.running, ?_, h.event, h.timer, ?_, fun hne => absurd hnone hne⟩
  · refine shows_concat h.shows_ (fun j => rfl) hst hrelease ?_ ?_
    · refine ⟨?_, ?_, ?_, hshows.requestDues, hshows.responseDues, ?_, rfl, trivial⟩
      · simp [State.finish, State.view, Stage.entry]
      · simp [State.finish, State.view, Stage.references, hreferences]
      · intro _ _ _ _ heq
        cases heq
      · show RequestFits _ _ _ (s.requestPc.point k)
        rw [hrequest]
        trivial
    · intro j hj stj hshowsj
      refine hshowsj.frame ?_ rfl rfl rfl
      simp only [State.finish, State.view, Function.update_of_ne hj, hpc,
        responsePoint_handling_of_ne hj]
      rfl
  · intro j point' heq hne
    have hit : s.it = some j := h.it j point' heq hne
    have hj : j ≠ k := by
      intro hj
      have heq' : s.requestPc = .handling j point' := heq
      rw [heq', hj, point_handling_self] at hrequest
      cases hrequest
    show (if s.it = some k then none else s.it) = some j
    rw [hit, if_neg (by simpa using hj)]

theorem not_awaitsEvent {k : Nat} {point : ResponsePoint m n}
    (hwait : point ≠ .waitEvent) (hcall : ∀ id, point ≠ .beginResp id) :
    ¬ (ResponsePc.handling k point : ResponsePc m n).AwaitsEvent := by
  rintro ⟨j, point', heq, rfl | ⟨id, rfl⟩⟩
  · cases heq
    exact hwait rfl
  · cases heq
    exact hcall id rfl

theorem sendEndResp (h : Inv s tr) {k : Nat} (hpc : s.responsePc = .handling k .waited) :
    Inv (s.sendEndResp k).1 (tr ++ (s.sendEndResp k).2) := by
  obtain ⟨st, hst, hshows⟩ := h.shows_ k
  have hresponse : ResponseFits _ _ st (s.responsePc.point k) := hshows.response
  rw [hpc, responsePoint_handling_self] at hresponse
  obtain ⟨to_, since, due, rfl, hdue⟩ := hresponse
  have hentry : s.pendingTransactions k = some ⟨none, to_⟩ := hshows.entry
  have hawaits : ¬ s.responsePc.AwaitsEvent := by
    rw [hpc]
    exact not_awaitsEvent (by simp) (by simp)
  cases to_ with
  | none =>
    simp only [State.sendEndResp, hentry]
    exact h.finish hpc hawaits hst hshows hdue (Or.inl rfl)
  | some port =>
    simp only [State.sendEndResp, hentry]
    refine ⟨h.running, ?_, h.event, h.timer, h.it, fun hne => absurd (h.event_eq_none hawaits) hne⟩
    have hforward : (Stage.ended (some port) since due false : Stage m n).next
        (.target port .endResp s.now) = some (.ended (some port) since due true) := by
      simp [Stage.next, hdue]
    refine shows_concat h.shows_ (fun j => rfl) hst hforward ?_ ?_
    · refine ⟨hshows.entry, hshows.references, ?_, hshows.requestDues, hshows.responseDues,
        hshows.request.congr rfl rfl rfl rfl, ?_, hshows.ordered⟩
      · intro _ _ _ _ heq
        cases heq
      · show ResponseFits _ _ _ (ResponsePc.point k (.handling k (.endResp port)))
        rw [responsePoint_handling_self]
        exact ⟨since, due, rfl, hdue⟩
    · intro j hj stj hshowsj
      refine hshowsj.frame ?_ rfl rfl rfl
      simp only [State.view, hpc, responsePoint_handling_of_ne hj]

/-- The target has completed the transaction. -/
theorem endRespReturns (h : Inv s tr) {k : Nat} {port : Fin n}
    (hpc : s.responsePc = .handling k (.endResp port)) :
    Inv (s.finish k).1 (tr ++ (s.finish k).2) := by
  obtain ⟨st, hst, hshows⟩ := h.shows_ k
  have hresponse : ResponseFits _ _ st (s.responsePc.point k) := hshows.response
  rw [hpc, responsePoint_handling_self] at hresponse
  obtain ⟨since, due, rfl, hdue⟩ := hresponse
  refine h.finish hpc ?_ hst hshows hdue (Or.inr rfl)
  rw [hpc]
  exact not_awaitsEvent (by simp) (by simp)

theorem runResponse {s' : State m n peq} {out : List (Output m n)} (h : Inv s tr)
    (hcall : s.requestPc.inCall = false) (hrun : s.runResponse = some (s', out)) :
    Inv s' (tr ++ out) := by
  cases hpc : s.responsePc with
  | start =>
    simp only [State.runResponse, hpc, Option.some.injEq, Prod.mk.injEq] at hrun
    obtain ⟨rfl, rfl⟩ := hrun
    refine h.setResponsePc ?_ ?_
    · intro j st hshows
      have hresponse : ResponseFits _ _ st (s.responsePc.point j) := hshows.response
      rw [hpc] at hresponse
      exact hresponse
    · intro hne
      obtain ⟨_, _, heq, -⟩ := h.response hne
      rw [hpc] at heq
      cases heq
  | loop =>
    simp only [State.runResponse, hpc, Option.some.injEq] at hrun
    have hloop := h.responseLoop hpc hcall
    rw [hrun] at hloop
    exact hloop
  | handling k point =>
    cases point with
    | waited =>
      simp only [State.runResponse, hpc, Option.some.injEq] at hrun
      have hsend := h.sendEndResp hpc
      rw [hrun] at hsend
      exact hsend
    | _ => simp [State.runResponse, hpc] at hrun
  | _ => simp [State.runResponse, hpc] at hrun

/-- The initiator has taken the response and will end it by a call. -/
theorem beginRespAccepted (h : Inv s tr) {k : Nat} {id : Fin m}
    (hpc : s.responsePc = .handling k (.beginResp id)) :
    Inv { s with responsePc := .handling k .waitEvent } (tr ++ []) := by
  refine h.setResponsePc ?_ fun _ => ⟨k, .waitEvent, rfl, Or.inl rfl⟩
  intro j st hshows
  have hresponse : ResponseFits _ _ st (s.responsePc.point j) := hshows.response
  by_cases hj : j = k
  · rw [hj, hpc, responsePoint_handling_self] at hresponse
    rw [hj, responsePoint_handling_self]
    exact hresponse
  · rw [hpc, responsePoint_handling_of_ne hj] at hresponse
    rw [responsePoint_handling_of_ne hj]
    exact hresponse

/-- It has completed the transaction. -/
theorem beginRespCompleted (h : Inv s tr) {k : Nat} {id : Fin m} {t : ScTime}
    (hpc : s.responsePc = .handling k (.beginResp id))
    (htakes : Takes tr k (.initiator id .completed (s.now + t.toNat))) :
    Inv { s with responsePc := .handling k (.waitTime (s.timer t)) }
      (tr ++ [.initiator id k .completed (s.now + t.toNat)]) := by
  obtain ⟨st, st', hst, hshows, hnext⟩ := h.of_takes htakes
  obtain ⟨to_, since, rfl, hlt, rfl⟩ := next_ended (Or.inr rfl) hnext
  obtain ⟨_, -, -, hnone⟩ := hshows.awaits
  refine ⟨h.running, ?_, h.event, h.timer, h.it, fun hne => absurd hnone hne⟩
  refine shows_concat h.shows_ (fun j => rfl) hst hnext ?_ ?_
  · refine ⟨hshows.entry, hshows.references, ?_, hshows.requestDues, hshows.responseDues,
      hshows.request.congr rfl rfl rfl rfl, ?_, ⟨hshows.ordered, hlt⟩⟩
    · intro _ _ _ _ heq
      cases heq
    · show ResponseFits _ _ _ (ResponsePc.point k (.handling k (.waitTime (s.timer t))))
      rw [responsePoint_handling_self]
      exact ⟨to_, since, _, rfl, rfl⟩
  · intro j hj stj hshowsj
    refine hshowsj.frame ?_ rfl rfl rfl
    simp only [State.view, hpc, responsePoint_handling_of_ne hj]

end Inv

end RenodeSystemC.SimpleBusAT
