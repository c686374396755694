import RenodeSystemC.Peripherals.Dma

/-!
# Errors of DMA transfers

The target completes a transfer inline, with `TLM_COMPLETED` or with `BEGIN_RESP`, or later by
`nb_transport_bw(BEGIN_RESP)`. The inline paths assert that the response in the payload is OK;
`nb_transport_bw` first sets it to OK itself, in either phase, and asserts nothing about it. So an
error is lost if it comes by a backward response, and also if the target calls
`nb_transport_bw(END_REQ)` between setting the error and completing the transfer inline.

**Theorem (`errorsSeen_iff`).** In a run every error that the target gives a transfer it completes
fails the peripheral's check, if and only if no error is lost in one of these ways.
-/

namespace RenodeSystemC.Dma

open Peripherals

/-! ## What the target does -/

inductive Report where
  /-- The target sets the response status. -/
  | sets (k : Nat) (status : ResponseStatus)
  /-- It calls `nb_transport_bw(END_REQ)`. -/
  | endReq (k : Nat)
  /-- It completes the transaction, on any of the three paths. -/
  | completes (k : Nat)
  deriving DecidableEq

/-- The transaction whose request the target is called for. -/
def System.inRequest (sys : System) : Option Nat :=
  match sys.stack with
  | .beginReq k :: _ => some k
  | _ => none

def reports (sys : System) : Event → List Report
  | .setResponseStatus k status => [.sets k status]
  | .bwEndReq k => [.endReq k]
  | .complete | .updateBeginResp => (sys.inRequest.map Report.completes).toList
  | .bwBeginResp k => [.completes k]
  | .arrive _ _ | .activate | .accept | .updateEndReq | .returnEndResp => []

/-- The initiator with its assertions, seen through what the target does. -/
def completing (garbage : Bytes) : Machine System Event Report :=
  (dma false garbage).observing fun sys e _ => reports sys e

/-- The response status that the target gives a transaction: the one it has set last, or the one of
a fresh payload. -/
def given (k : Nat) (tr : List Report) : ResponseStatus :=
  tr.foldl (fun status r =>
    match r with
    | .sets j st => if j = k then st else status
    | _ => status) .incomplete

/-- `nb_transport_bw(END_REQ)` has been called since the target set the status. -/
def overwritten (k : Nat) (tr : List Report) : Bool :=
  tr.foldl (fun b r =>
    match r with
    | .sets j _ => if j = k then false else b
    | .endReq j => if j = k then true else b
    | _ => b) false

section History

variable (k j : Nat) (tr : List Report) (status : ResponseStatus)

@[simp] theorem given_sets :
    given k (tr ++ [.sets j status]) = if j = k then status else given k tr := by
  rw [given, List.foldl_append]
  rfl

@[simp] theorem given_endReq : given k (tr ++ [.endReq j]) = given k tr := by
  rw [given, List.foldl_append]
  rfl

@[simp] theorem given_completes : given k (tr ++ [.completes j]) = given k tr := by
  rw [given, List.foldl_append]
  rfl

@[simp] theorem overwritten_sets :
    overwritten k (tr ++ [.sets j status]) = if j = k then false else overwritten k tr := by
  rw [overwritten, List.foldl_append]
  rfl

@[simp] theorem overwritten_endReq :
    overwritten k (tr ++ [.endReq j]) = if j = k then true else overwritten k tr := by
  rw [overwritten, List.foldl_append]
  rfl

@[simp] theorem overwritten_completes :
    overwritten k (tr ++ [.completes j]) = overwritten k tr := by
  rw [overwritten, List.foldl_append]
  rfl

end History

/-! ## Checks -/

/-- The check of the response of `k` has failed, and stopped the program. -/
def CheckFailed (sys : System) (k : Nat) : Prop := sys.stack.head? = some (.failed k)

instance (sys : System) (k : Nat) : Decidable (CheckFailed sys k) :=
  inferInstanceAs (Decidable (_ = _))

/-- Every transaction that was completed with an error has failed the check. -/
def ErrorsSeen (sys : System) (tr : List Report) : Prop :=
  ∀ pre k post, tr = pre ++ .completes k :: post → given k pre ≠ .ok → CheckFailed sys k

/-- The event loses no error: a backward response brings none, and an inline completion brings none
that `nb_transport_bw(END_REQ)` has overwritten. -/
def KeepsError (sys : System) (tr : List Report) : Event → Prop
  | .complete | .updateBeginResp => ∀ k ∈ sys.inRequest, given k tr = .ok ∨ overwritten k tr = false
  | .bwBeginResp k => given k tr = .ok
  | _ => True

instance (sys : System) (tr : List Report) : DecidablePred (KeepsError sys tr)
  | .complete | .updateBeginResp =>
    inferInstanceAs (Decidable (∀ k ∈ sys.inRequest, given k tr = .ok ∨ overwritten k tr = false))
  | .bwBeginResp k => inferInstanceAs (Decidable (given k tr = .ok))
  | .arrive _ _ | .activate | .accept | .updateEndReq | .returnEndResp | .bwEndReq _
  | .setResponseStatus _ _ => inferInstanceAs (Decidable True)

/-! ## The payload -/

/-- What is in the payloads, from what the target has done, and what the stack can be. -/
structure FieldInv (sys : System) (tr : List Report) : Prop where
  fresh : ∀ k, sys.count ≤ k → given k tr = .incomplete ∧ overwritten k tr = false
  field : ∀ k, k < sys.count → sys.phase k ≠ .responded →
    (sys.transaction k).responseStatus = if overwritten k tr then .ok else given k tr
  bounded : ∀ k, .beginReq k ∈ sys.stack → k < sys.count
  running : ∀ k, .failed k ∉ sys.stack.tail

namespace FieldInv

variable {ndebug b : Bool} {sys sys' : System} {e : Event} {tr : List Report} {o : List Output}

/-- Nothing is set, and only the stack and the phases change. -/
theorem keep (h : FieldInv sys tr) (hcount : sys'.count = sys.count)
    (htransaction : ∀ j, sys'.phase j ≠ .responded → sys.phase j ≠ .responded ∧
      (sys'.transaction j).responseStatus = (sys.transaction j).responseStatus)
    (hbounded : ∀ k, .beginReq k ∈ sys'.stack → .beginReq k ∈ sys.stack)
    (hrunning : ∀ k, .failed k ∉ sys'.stack.tail) : FieldInv sys' tr := by
  refine ⟨?_, ?_, ?_, hrunning⟩
  · rw [hcount]
    exact h.fresh
  · intro k hlt hp
    obtain ⟨hp', hstatus⟩ := htransaction k hp
    rw [hcount] at hlt
    exact hstatus.trans (h.field k hlt hp')
  · intro k hk
    rw [hcount]
    exact h.bounded k (hbounded k hk)

/-- The transaction is completed; the payloads of the others stay as they are. -/
theorem respond (h : FieldInv sys tr) {k : Nat} {st : ResponseStatus} {stack : List Frame}
    (hbounded : ∀ j, .beginReq j ∈ stack → .beginReq j ∈ sys.stack)
    (hrunning : ∀ j, .failed j ∉ stack.tail) :
    FieldInv { sys.setPhase k .responded st with stack := stack } (tr ++ [.completes k]) := by
  have hkeep : FieldInv { sys.setPhase k .responded st with stack := stack } tr := by
    refine h.keep rfl ?_ hbounded hrunning
    intro j hp
    have hphase := phase_setPhase sys k .responded st j
    have hstatus := status_setPhase sys k .responded st j
    by_cases hj : j = k
    · rw [if_pos hj] at hphase
      exact absurd hphase hp
    · rw [if_neg hj] at hphase hstatus
      exact ⟨fun hr => hp (hphase.trans hr), hstatus⟩
  refine ⟨?_, ?_, hkeep.bounded, hkeep.running⟩
  · intro j hj
    rw [given_completes, overwritten_completes]
    exact hkeep.fresh j hj
  · intro j hlt hp
    rw [given_completes, overwritten_completes]
    exact hkeep.field j hlt hp

/-- A status is written into a payload that is under way, and the history says the same. -/
theorem writes (h : FieldInv sys tr) {k : Nat} {ph : Phase} {st : ResponseStatus} {r : Report}
    (hlt : k < sys.count)
    (hother : ∀ j, j ≠ k → given j (tr ++ [r]) = given j tr ∧
      overwritten j (tr ++ [r]) = overwritten j tr)
    (hself : st = if overwritten k (tr ++ [r]) then .ok else given k (tr ++ [r])) :
    FieldInv (sys.setPhase k ph st) (tr ++ [r]) := by
  refine ⟨?_, ?_, h.bounded, h.running⟩
  · intro j hj
    have hle : sys.count ≤ j := hj
    obtain ⟨hgiven, hover⟩ := hother j (by omega)
    rw [hgiven, hover]
    exact h.fresh j hle
  · intro j hj hpj
    rw [status_setPhase]
    by_cases hjk : j = k
    · rw [if_pos hjk, hjk]
      exact hself
    · obtain ⟨hgiven, hover⟩ := hother j hjk
      rw [phase_setPhase, if_neg hjk] at hpj
      rw [if_neg hjk, hgiven, hover]
      exact h.field j hj hpj

/-- The innermost call has returned. -/
theorem stack_rest {f : Frame} {rest : List Frame} (h : FieldInv sys tr)
    (hs : sys.stack = f :: rest) : (∀ k, .beginReq k ∈ rest → .beginReq k ∈ sys.stack) ∧
      ∀ k, .failed k ∉ rest := by
  refine ⟨fun k hk => ?_, fun k hk => ?_⟩
  · rw [hs]
    exact List.mem_cons_of_mem f hk
  · have htail := h.running k
    rw [hs] at htail
    exact htail hk

/-- Another frame, which is no request, is in its place. -/
theorem stack_replace {f : Frame} {rest : List Frame} (h : FieldInv sys tr)
    (hs : sys.stack = f :: rest) (f' : Frame) (hf : ∀ k, .beginReq k ≠ f') :
    (∀ k, .beginReq k ∈ f' :: rest → .beginReq k ∈ sys.stack) ∧
      ∀ k, .failed k ∉ (f' :: rest).tail := by
  obtain ⟨hrest, hfailed⟩ := h.stack_rest hs
  exact ⟨fun k hk => hrest k ((List.mem_cons.1 hk).resolve_left (hf k)), hfailed⟩

/-- Only the stack changes: the innermost call returns. -/
theorem pop {f : Frame} {rest : List Frame} (h : FieldInv sys tr) (hs : sys.stack = f :: rest) :
    FieldInv { sys with stack := rest } tr ∧ ∀ k, .failed k ∉ rest := by
  obtain ⟨hrest, hfailed⟩ := h.stack_rest hs
  refine ⟨h.keep rfl (fun _ hp => ⟨hp, rfl⟩) hrest ?_, hfailed⟩
  exact fun k hk => hfailed k (List.mem_of_mem_tail hk)

/-- The target has done nothing. -/
theorem silent (h : FieldInv sys' tr) (hr : reports sys e = []) :
    FieldInv sys' (tr ++ reports sys e) := by
  rw [hr, List.append_nil]
  exact h

theorem reports_inline {k : Nat} {rest : List Frame} (hs : sys.stack = .beginReq k :: rest)
    (he : e = .complete ∨ e = .updateBeginResp) : reports sys e = [.completes k] := by
  have hrequest : sys.inRequest = some k := by rw [System.inRequest, hs]
  rcases he with rfl | rfl
  · rw [reports, hrequest]
    rfl
  · rw [reports, hrequest]
    rfl

theorem settled (h : FieldInv sys tr) (hs : Settled ndebug sys e sys' o b) :
    FieldInv sys' (tr ++ reports sys e) ∧ (b = true → ∀ k, .failed k ∉ sys'.stack) := by
  cases hs with
  | @arrive bytes t hstack =>
    have hI : FieldInv { sys with now := t, available := sys.available ++ bytes } tr :=
      h.keep rfl (fun _ hp => ⟨hp, rfl⟩) (fun _ hk => hk) h.running
    exact ⟨hI.silent rfl, fun hb => by cases hb⟩
  | activate hstack =>
    refine ⟨h.silent rfl, fun _ k => ?_⟩
    rw [hstack]
    exact List.not_mem_nil
  | accept hstack =>
    obtain ⟨hI, hfailed⟩ := h.pop hstack
    exact ⟨hI.silent rfl, fun _ => hfailed⟩
  | @endReq k rest hstack hp status hstatus =>
    obtain ⟨hI, hfailed⟩ := h.pop hstack
    refine ⟨silent (hI.keep rfl ?_ (fun _ hk => hk) hI.running) rfl, fun _ => hfailed⟩
    intro j hpj
    have hphase : (sys.setPhase k .accepted status).phase j ≠ .responded := hpj
    have hfield := status_setPhase sys k .accepted status j
    rw [phase_setPhase] at hphase
    split_ifs at hphase hfield with hj
    · subst hj
      exact ⟨by show sys.phase j ≠ _; rw [hp]; decide, hfield.trans hstatus⟩
    · exact ⟨hphase, hfield⟩
  | @beginResp k rest hstack hp status hpass =>
    obtain ⟨hstay, hfailed⟩ := h.stack_replace hstack (.endResp k) fun _ heq => by cases heq
    rw [reports_inline hstack (.inr rfl)]
    exact ⟨h.respond hstay hfailed, fun hb => by cases hb⟩
  | @beginRespFailed k rest hstack hp status hfail =>
    obtain ⟨hstay, hfailed⟩ := h.stack_replace hstack (.failed k) fun _ heq => by cases heq
    rw [reports_inline hstack (.inr rfl)]
    exact ⟨h.respond hstay hfailed, fun hb => by cases hb⟩
  | @complete k rest hstack hp status hpass =>
    obtain ⟨hrest, hfailed⟩ := h.stack_rest hstack
    rw [reports_inline hstack (.inl rfl)]
    exact ⟨h.respond hrest fun k hk => hfailed k (List.mem_of_mem_tail hk), fun _ => hfailed⟩
  | @completeFailed k rest hstack hp status hfail =>
    obtain ⟨hstay, hfailed⟩ := h.stack_replace hstack (.failed k) fun _ heq => by cases heq
    rw [reports_inline hstack (.inl rfl)]
    exact ⟨h.respond hstay hfailed, fun hb => by cases hb⟩
  | endResp hstack =>
    obtain ⟨hI, hfailed⟩ := h.pop hstack
    exact ⟨hI.silent rfl, fun _ => hfailed⟩
  | @endRespFailed k rest hstack =>
    obtain ⟨hstay, hfailed⟩ := h.stack_replace hstack (.failed k) fun _ heq => by cases heq
    have hI : FieldInv { sys with stack := .failed k :: rest } tr :=
      h.keep rfl (fun _ hp => ⟨hp, rfl⟩) hstay hfailed
    exact ⟨hI.silent rfl, fun hb => by cases hb⟩
  | bwReturn hstack =>
    obtain ⟨hI, -⟩ := h.pop hstack
    exact ⟨hI.silent rfl, fun hb => by cases hb⟩
  | @bwEndReq k hlt hp =>
    refine ⟨h.writes hlt ?_ (by simp), fun hb => by cases hb⟩
    intro j hj
    simp [Ne.symm hj]
  | @bwBeginResp k hlt hp hrunning =>
    refine ⟨h.respond ?_ ?_, fun hb => by cases hb⟩
    · intro j hj
      exact (List.mem_cons.1 hj).resolve_left (by intro heq; cases heq)
    · intro j hj
      have hmem : .failed j ∈ sys.stack := hj
      -- the innermost call is not a failed check, and the others never are
      cases hstack : sys.stack with
      | nil =>
        rw [hstack] at hmem
        cases hmem
      | cons f rest =>
        obtain ⟨-, hfailed⟩ := h.stack_rest hstack
        rw [hstack] at hmem
        rcases List.mem_cons.1 hmem with rfl | hmem
        · rw [System.stopped, hstack] at hrunning
          cases hrunning
        · exact hfailed j hmem
  | @setResponseStatus k hlt hp status =>
    refine ⟨h.writes hlt ?_ (by simp), fun hb => by cases hb⟩
    intro j hj
    simp [Ne.symm hj]

theorem drain (h : FieldInv sys tr) (hfailed : ∀ k, .failed k ∉ sys.stack) :
    FieldInv (drain sys).1 tr := by
  unfold Dma.drain
  split
  · exact h
  · refine ⟨?_, ?_, ?_, hfailed⟩
    · intro k hk
      exact h.fresh k (Nat.le_of_succ_le hk)
    · intro k hlt hp
      by_cases hk : k = sys.count
      · obtain ⟨hgiven, hover⟩ := h.fresh k hk.ge
        rw [hgiven, hover, hk]
        show (Function.update sys.transaction sys.count _ sys.count).responseStatus = _
        rw [Function.update_self]
        rfl
      · have hlt' : k < sys.count := by
          have hlt : k < sys.count + 1 := hlt
          omega
        simp only [System.phase, Function.update_of_ne hk] at hp ⊢
        exact h.field k hlt' hp
    · intro k hk
      rcases List.mem_cons.1 hk with heq | hk
      · cases heq
        exact Nat.lt_succ_self _
      · exact Nat.lt_succ_of_lt (h.bounded k hk)

theorem step (h : FieldInv sys tr) (hs : Dma.step ndebug sys e = some (sys', o)) :
    FieldInv sys' (tr ++ reports sys e) := by
  rcases step_eq_some hs with hset | ⟨sys₁, o₁, hset, rfl, -⟩
  · exact (h.settled hset).1
  · obtain ⟨hI, hfailed⟩ := h.settled hset
    exact hI.drain (hfailed rfl)

/-- What has not been overwritten is in the payload. -/
theorem field_of_kept (h : FieldInv sys tr) {k : Nat} (hlt : k < sys.count)
    (hp : sys.phase k ≠ .responded) (hk : given k tr = .ok ∨ overwritten k tr = false) :
    (sys.transaction k).responseStatus = given k tr := by
  rw [h.field k hlt hp]
  rcases hk with hok | hover
  · rw [hok, ite_self]
  · rw [hover]
    rfl

/-- What has been overwritten is OK. -/
theorem field_of_overwritten (h : FieldInv sys tr) {k : Nat} (hlt : k < sys.count)
    (hp : sys.phase k ≠ .responded) (hk : overwritten k tr ≠ false) :
    (sys.transaction k).responseStatus = .ok := by
  rw [h.field k hlt hp, if_pos (Bool.eq_true_of_not_eq_false hk)]

end FieldInv

/-- No payload has been allocated. -/
theorem fieldInv_init (garbage : Bytes) : FieldInv (completing garbage).init [] := by
  refine ⟨fun k _ => ⟨rfl, rfl⟩, ?_, ?_, ?_⟩
  · intro k hk
    exact absurd hk (Nat.not_lt_zero k)
  · intro k hk
    cases hk
  · intro k hk
    cases hk

/-! ## Steps -/

section Steps

variable {ndebug : Bool} {sys sys' : System} {e : Event} {tr : List Report} {o : List Output}
    {k : Nat}

/-- Nothing happens after a failed check. -/
theorem step_of_checkFailed (h : CheckFailed sys k) : step ndebug sys e = none := by
  obtain ⟨rest, hstack⟩ := List.head?_eq_some_iff.1 h
  have hstopped : sys.stopped = true := by rw [System.stopped, hstack]
  cases e <;> simp [step, settle, hstack, hstopped]

theorem stack_of_inRequest (h : sys.inRequest = some k) :
    ∃ rest, sys.stack = .beginReq k :: rest := by
  unfold System.inRequest at h
  split at h
  · rename_i rest hstack
    cases h
    exact ⟨rest, hstack⟩
  · cases h

/-- No check fails in the loop. -/
theorem drain_failed (h : CheckFailed (drain sys).1 k) : .failed k ∈ sys.stack := by
  unfold drain at h
  split at h
  · exact List.mem_of_mem_head? h
  · cases h

/-- An event reports one thing at most. -/
theorem first_of_reports {a post : List Report} {r : Report} (h : reports sys e = a ++ r :: post) :
    a = [] := by
  have hlen : (reports sys e).length ≤ 1 := by
    cases e with
    | complete | updateBeginResp =>
      show ((sys.inRequest.map Report.completes).toList).length ≤ 1
      rw [Option.length_toList]
      split_ifs <;> omega
    | _ => simp [reports]
  rw [h, List.length_append, List.length_cons] at hlen
  exact List.eq_nil_of_length_eq_zero (by omega)

/-- A completion is inline, in the request that it completes, or comes by a backward call. -/
theorem completes_cases (h : .completes k ∈ reports sys e) :
    ((∃ rest, sys.stack = .beginReq k :: rest) ∧ (e = .complete ∨ e = .updateBeginResp)) ∨
      e = .bwBeginResp k := by
  have hrequest (hmem : Report.completes k ∈ (sys.inRequest.map Report.completes).toList) :
      ∃ rest, sys.stack = .beginReq k :: rest := by
    obtain ⟨j, hj, heq⟩ := Option.mem_map.1 (Option.mem_toList.1 hmem)
    cases heq
    exact stack_of_inRequest hj
  cases e with
  | complete => exact Or.inl ⟨hrequest h, Or.inl rfl⟩
  | updateBeginResp => exact Or.inl ⟨hrequest h, Or.inr rfl⟩
  | bwBeginResp j =>
    cases List.mem_singleton.1 h
    exact Or.inr rfl
  | setResponseStatus j status => cases List.mem_singleton.1 h
  | bwEndReq j => cases List.mem_singleton.1 h
  | arrive | activate | accept | updateEndReq | returnEndResp => cases h

/-- A request completed inline is checked against what is in its payload. -/
theorem step_inline {rest : List Frame} (hstack : sys.stack = .beginReq k :: rest)
    (he : e = .complete ∨ e = .updateBeginResp) (hs : step false sys e = some (sys', o)) :
    sys.phase k ≠ .responded ∧
      (((sys.transaction k).responseStatus ≠ .ok ∧ CheckFailed sys' k) ∨
        ((sys.transaction k).responseStatus = .ok ∧
          ∀ j, .failed j ∉ rest → ¬ CheckFailed sys' j)) := by
  rcases he with rfl | rfl
  all_goals
    simp only [step, settle, hstack] at hs
    by_cases hp : sys.phase k ≠ .responded
    · refine ⟨hp, ?_⟩
      rw [if_pos hp] at hs
      by_cases hfield : (sys.transaction k).responseStatus = .ok
      · right
        rw [if_pos (by simp [passes, hfield])] at hs
        refine ⟨hfield, fun j hj hfailed => ?_⟩
        cases hs
        first
          | exact hj (drain_failed hfailed)
          | cases hfailed
      · left
        rw [if_neg (by simp [passes, hfield])] at hs
        cases hs
        exact ⟨hfield, rfl⟩
    · rw [if_neg hp] at hs
      cases hs

/-- **A backward response is not checked.** -/
theorem not_checkFailed_of_backward (hs : step ndebug sys (.bwBeginResp k) = some (sys', o))
    (j : Nat) : ¬ CheckFailed sys' j := by
  rcases step_eq_some hs with hset | ⟨sys₁, o₁, hset, -⟩
  · cases hset
    intro hfailed
    cases hfailed
  · cases hset

end Steps

/-! ## Runs -/

theorem errorsSeen_step {garbage : Bytes} {sys sys' : System} {tr o : List Report} {e : Event}
    (hI : FieldInv sys tr) (h : ErrorsSeen sys tr) (hG : KeepsError sys tr e)
    (hs : (completing garbage).step sys e = some (sys', o)) :
    FieldInv sys' (tr ++ o) ∧ ErrorsSeen sys' (tr ++ o) := by
  obtain ⟨⟨out, hstep⟩, rfl⟩ := Machine.observing_step hs
  refine ⟨hI.step hstep, ?_⟩
  intro pre k post heq hgiven
  rcases append_eq_append_cons heq with ⟨t, htr, -⟩ | ⟨a, rfl, ho⟩
  · -- nothing goes on after the check of an earlier transaction has failed
    have hnone : step false sys e = none := step_of_checkFailed (h pre k t htr hgiven)
    cases hnone.symm.trans hstep
  · have hmem : .completes k ∈ reports sys e := by
      rw [ho]
      exact List.mem_append_right a List.mem_cons_self
    have ha : a = [] := first_of_reports ho
    rw [ha, List.append_nil] at hgiven
    rcases completes_cases hmem with ⟨⟨rest, hstack⟩, hinline⟩ | rfl
    · have hlt : k < sys.count := hI.bounded k (by rw [hstack]; exact List.mem_cons_self)
      obtain ⟨hp, hchecked⟩ := step_inline hstack hinline hstep
      have hkept : given k tr = .ok ∨ overwritten k tr = false := by
        have hrequest : sys.inRequest = some k := by rw [System.inRequest, hstack]
        rcases hinline with rfl | rfl
        · exact hG k hrequest
        · exact hG k hrequest
      have hfield := hI.field_of_kept hlt hp hkept
      rcases hchecked with ⟨-, hfailed⟩ | ⟨hok, -⟩
      · exact hfailed
      · exact absurd (hfield.symm.trans hok) hgiven
    · exact absurd hG hgiven

/-- An event that loses an error leaves one unseen. -/
theorem not_errorsSeen_step {garbage : Bytes} {sys sys' : System} {tr o : List Report} {e : Event}
    (hI : FieldInv sys tr) (hG : ¬ KeepsError sys tr e)
    (hs : (completing garbage).step sys e = some (sys', o)) : ¬ ErrorsSeen sys' (tr ++ o) := by
  obtain ⟨⟨out, hstep⟩, rfl⟩ := Machine.observing_step hs
  intro hseen
  have hlost : ∀ k, sys.inRequest = some k → (e = .complete ∨ e = .updateBeginResp) →
      given k tr ≠ .ok → overwritten k tr ≠ false → False := by
    intro k hrequest hinline hgiven hover
    obtain ⟨rest, hstack⟩ := stack_of_inRequest hrequest
    obtain ⟨-, hrest⟩ := hI.stack_rest hstack
    have hlt : k < sys.count := hI.bounded k (by rw [hstack]; exact List.mem_cons_self)
    obtain ⟨hp, hchecked⟩ := step_inline hstack hinline hstep
    have hfailed : CheckFailed sys' k :=
      hseen tr k [] (by rw [FieldInv.reports_inline hstack hinline]) hgiven
    rcases hchecked with ⟨herr, -⟩ | ⟨-, hpassed⟩
    · exact herr (hI.field_of_overwritten hlt hp hover)
    · exact hpassed k (hrest k) hfailed
  cases e with
  | complete =>
    simp only [KeepsError, Classical.not_forall, not_or] at hG
    obtain ⟨k, hrequest, hgiven, hover⟩ := hG
    exact hlost k hrequest (.inl rfl) hgiven hover
  | updateBeginResp =>
    simp only [KeepsError, Classical.not_forall, not_or] at hG
    obtain ⟨k, hrequest, hgiven, hover⟩ := hG
    exact hlost k hrequest (.inr rfl) hgiven hover
  | bwBeginResp k => exact not_checkFailed_of_backward hstep k (hseen tr k [] rfl hG)
  | _ => exact hG trivial

/-- **Errors are seen exactly if none is lost.** -/
theorem errorsSeen_iff {garbage : Bytes} {es : List Event} {sys : System} {tr : List Report}
    (h : (completing garbage).Run es sys tr) :
    (∀ pre s t, pre <+: es → (completing garbage).Run pre s t → ErrorsSeen s t) ↔
      (completing garbage).Allowed KeepsError es := by
  refine Machine.forall_prefix_iff_allowed (I := fun s t => FieldInv s t ∧ ErrorsSeen s t) ?_ ?_
    (fun _ _ hI => hI.2) ?_ h
  · exact ⟨fieldInv_init garbage, fun pre k post heq => by simp at heq⟩
  · exact fun s t e s' o hI hG hs => errorsSeen_step hI.1 hI.2 hG hs
  · exact fun s t e s' o hI hG hs => not_errorsSeen_step hI.1 hG hs

/-- Two bytes: a response that is OK by a backward call, and an inline error after an `END_REQ`. -/
def inlineError : List Event :=
  [.arrive [1, 2] 5, .activate, .setResponseStatus 0 .ok, .bwBeginResp 0, .returnEndResp, .accept,
    .bwEndReq 1, .setResponseStatus 1 .genericError, .complete]

theorem errorsSeen_inlineError :
    ∃ sys tr, (completing fun _ => 0).Run inlineError sys tr ∧ CheckFailed sys 1 ∧
      ∀ pre s t, pre <+: inlineError → (completing fun _ => 0).Run pre s t → ErrorsSeen s t :=
  have h : (completing fun _ => 0).Run inlineError _
    [.sets 0 .ok, .completes 0, .endReq 1, .sets 1 .genericError, .completes 1] := rfl
  ⟨_, _, h, by decide, (errorsSeen_iff h).2 (by decide)⟩

/-- **An error that comes by a backward call is taken for success.** -/
theorem backwardError_unseen :
    ¬ ∀ es sys tr, (completing fun _ => 0).Run es sys tr → ErrorsSeen sys tr := by
  intro h
  have hrun : (completing fun _ => 0).Run
      [.arrive [1] 5, .activate, .accept, .setResponseStatus 0 .addressError, .bwBeginResp 0,
        .returnEndResp] _ [.sets 0 .addressError, .completes 0] := rfl
  exact absurd (h _ _ _ hrun [.sets 0 .addressError] 0 [] rfl (by decide)) (by decide)

/-- So is an error that is completed inline after an `END_REQ`. -/
theorem overwrittenError_unseen : ¬ ∀ es sys tr, (∀ k, .bwBeginResp k ∉ es) →
    (completing fun _ => 0).Run es sys tr → ErrorsSeen sys tr := by
  intro h
  have hrun : (completing fun _ => 0).Run
      [.arrive [1] 5, .activate, .setResponseStatus 0 .addressError, .bwEndReq 0, .complete] _
      [.sets 0 .addressError, .endReq 0, .completes 0] := rfl
  exact absurd (h _ _ _ (by simp) hrun [.sets 0 .addressError, .endReq 0] 0 [] rfl (by decide))
    (by decide)

end RenodeSystemC.Dma
