import RenodeSystemC.Peripherals.DmaPayload

/-!
# The DMA initiator and the base protocol

The base protocol lets an initiator send a request only when the one before it has ended, and send
`END_RESP` once for each transaction.

* `dma_breaks_protocol`: the peripheral does neither. Its loop sends the next request whatever the
  target answered to the last one, and its backward path sends `END_RESP` in a call and returns it
  as well, where its inline path sends it once.
* `protocol_of_disciplined`: these are the only two ways. As long as the method never goes on to a
  byte while the last request is open, and no response comes by a backward call, the peripheral
  keeps to the protocol.
* `breaks_of_not_disciplined`: any step that breaks this discipline breaks the protocol, at once or
  when the target returns.
-/

namespace RenodeSystemC.Dma

open Peripherals

/-! ## The protocol -/

/-- The request of `k` has ended: the trace has its `END_REQ`, its `BEGIN_RESP` or its
completion. -/
def Closed (k : Nat) (tr : List Output) : Prop :=
  .endReq k ∈ tr ∨ .beginResp k ∈ tr ∨ .completed k ∈ tr

/-- The initiator's side of the base protocol. Requests are numbered in the order in which they
are sent. -/
structure ObeysBaseProtocol (tr : List Output) : Prop where
  /-- A request is sent only when the one before it has ended. -/
  exclusive : ∀ pre k post, tr = pre ++ .beginReq (k + 1) :: post → Closed k pre
  /-- `END_RESP` is sent at most once. -/
  single : ∀ k, tr.count (.endResp k) ≤ 1

/-- The target accepts a request without ending it, and the next byte is there. -/
def acceptedRequest : List Event := [.arrive [1, 2] 5, .activate, .accept]

/-- The response comes by a backward call. -/
def backwardResponse : List Event :=
  [.arrive [1] 5, .activate, .accept, .bwBeginResp 0, .returnEndResp]

/-- Requests overlap. -/
theorem acceptedRequest_overlaps :
    ∃ sys tr, (dma false fun _ => 0).Run acceptedRequest sys tr ∧
      ∃ pre post, tr = pre ++ .beginReq 1 :: post ∧ ¬ Closed 0 pre :=
  ⟨_, _, rfl, [.acquire 0, .touch 0, .beginReq 0, .acquire 1, .touch 1], [], rfl,
    by unfold Closed; decide⟩

/-- The response is ended twice. -/
theorem backwardResponse_ends_twice :
    ∃ sys tr, (dma false fun _ => 0).Run backwardResponse sys tr ∧ tr.count (.endResp 0) = 2 :=
  ⟨_, _, rfl, by decide⟩

/-- **The peripheral breaks the protocol.** -/
theorem dma_breaks_protocol :
    ¬ ∀ es sys tr, (dma false fun _ => 0).Run es sys tr → ObeysBaseProtocol tr := by
  intro h
  obtain ⟨sys, tr, hrun, pre, post, htr, hopen⟩ := acceptedRequest_overlaps
  exact hopen ((h _ _ _ hrun).exclusive pre 0 post htr)

/-! ## When a request has ended -/

section Closed

variable {j k : Nat} {tr o : List Output}

theorem closed_append : Closed k (tr ++ o) ↔ Closed k tr ∨ Closed k o := by
  simp only [Closed, List.mem_append]
  tauto

@[simp] theorem not_closed_nil : ¬ Closed k [] := by simp [Closed]

@[simp] theorem closed_cons_endReq : Closed j (.endReq k :: o) ↔ j = k ∨ Closed j o := by
  simp only [Closed, List.mem_cons, Output.endReq.injEq, reduceCtorEq, false_or, or_assoc]

@[simp] theorem closed_cons_beginResp : Closed j (.beginResp k :: o) ↔ j = k ∨ Closed j o := by
  simp only [Closed, List.mem_cons, Output.beginResp.injEq, reduceCtorEq, false_or]
  tauto

@[simp] theorem closed_cons_completed : Closed j (.completed k :: o) ↔ j = k ∨ Closed j o := by
  simp only [Closed, List.mem_cons, Output.completed.injEq, reduceCtorEq, false_or]
  tauto

@[simp] theorem closed_cons_acquire : Closed j (.acquire k :: o) ↔ Closed j o := by simp [Closed]
@[simp] theorem closed_cons_touch : Closed j (.touch k :: o) ↔ Closed j o := by simp [Closed]
@[simp] theorem closed_cons_release : Closed j (.release k :: o) ↔ Closed j o := by simp [Closed]
@[simp] theorem closed_cons_beginReq : Closed j (.beginReq k :: o) ↔ Closed j o := by simp [Closed]
@[simp] theorem closed_cons_endResp : Closed j (.endResp k :: o) ↔ Closed j o := by simp [Closed]

@[simp] theorem not_closed_check {ndebug : Bool} : ¬ Closed j (check ndebug k) := by
  unfold check
  split_ifs <;> simp

end Closed

/-! ## What holds in every run -/

/-- A call of `fifo_data_received_method`. -/
def Frame.isMethod : Frame → Bool
  | .beginReq _ | .endResp _ => true
  | .bwEndResp _ | .failed _ => false

/-- The method's calls on the stack. -/
def System.methodFrames (sys : System) : List Frame := sys.stack.filter Frame.isMethod

structure OpenInv (sys : System) (tr : List Output) : Prop where
  /-- The phases are those of the trace. -/
  closed_iff : ∀ k, Closed k tr ↔ k < sys.count ∧ sys.phase k ≠ .requested
  /-- The method is in one call at a time, about the last transaction. -/
  method : sys.methodFrames = [] ∨ ∃ f, sys.methodFrames = [f] ∧ f.index + 1 = sys.count

theorem openInv_init (ndebug : Bool) (garbage : Bytes) : OpenInv (dma ndebug garbage).init [] where
  closed_iff := by
    intro k
    simp [dma]
  method := Or.inl rfl

/-- The method's call on top of the stack is its only one. -/
theorem OpenInv.top {sys : System} {tr : List Output} (h : OpenInv sys tr) {f : Frame}
    {rest : List Frame} (hs : sys.stack = f :: rest) (hf : f.isMethod = true) :
    { sys with stack := rest }.methodFrames = [] ∧ f.index + 1 = sys.count := by
  have hframes : sys.methodFrames = f :: { sys with stack := rest }.methodFrames := by
    rw [System.methodFrames, hs]
    exact List.filter_cons_of_pos hf
  have hmethod := h.method
  rw [hframes] at hmethod
  rcases hmethod with hnil | ⟨g, hg, hindex⟩
  · cases hnil
  · rw [List.cons.injEq] at hg
    exact ⟨hg.2, by rw [hg.1]; exact hindex⟩

theorem OpenInv.lt_of_top {sys : System} {tr : List Output} (h : OpenInv sys tr) {f : Frame}
    {rest : List Frame} (hs : sys.stack = f :: rest) (hf : f.isMethod = true) :
    f.index < sys.count := by
  have hlast := (h.top hs hf).2
  omega

theorem openInv_drain {sys : System} {tr : List Output} (h : OpenInv sys tr)
    (hm : sys.methodFrames = []) : OpenInv (drain sys).1 (tr ++ (drain sys).2) := by
  unfold drain
  split
  · rwa [List.append_nil]
  · refine ⟨fun k => ?_, Or.inr ⟨.beginReq sys.count, ?_, rfl⟩⟩
    · rw [closed_append, h.closed_iff]
      simp only [closed_cons_acquire, closed_cons_touch, closed_cons_beginReq, not_closed_nil,
        or_false, System.phase]
      by_cases hk : k = sys.count
      · subst hk
        simp
      · rw [Function.update_of_ne hk]
        have hlt : k < sys.count + 1 ↔ k < sys.count := by omega
        rw [hlt]
    · show Frame.beginReq sys.count :: sys.methodFrames = _
      rw [hm]

/-- The stack changes and nothing ends. -/
theorem openInv_stack {sys : System} {tr o : List Output} {stack : List Frame}
    (h : OpenInv sys tr) (ho : ∀ k, ¬ Closed k o)
    (hm : { sys with stack := stack }.methodFrames = [] ∨
      ∃ f, { sys with stack := stack }.methodFrames = [f] ∧ f.index + 1 = sys.count) :
    OpenInv { sys with stack := stack } (tr ++ o) := by
  refine ⟨fun k => ?_, hm⟩
  rw [closed_append, or_iff_left (ho k), h.closed_iff]
  rfl

/-- The request of `k` ends. -/
theorem openInv_setPhase {sys : System} {tr o : List Output} {k : Nat} (ph : Phase)
    (st : ResponseStatus) (h : OpenInv sys tr) (hlt : k < sys.count) (hph : ph ≠ .requested)
    (ho : ∀ j, Closed j o ↔ j = k) : OpenInv (sys.setPhase k ph st) (tr ++ o) := by
  refine ⟨fun j => ?_, h.method⟩
  rw [closed_append, h.closed_iff, ho, phase_setPhase, count_setPhase]
  by_cases hj : j = k
  · subst hj
    simp [hlt, hph]
  · simp [hj]

/-- Before the loop goes on, the method is in no call. -/
theorem openInv_settled {ndebug : Bool} {sys sys' : System} {tr : List Output} {e : Event}
    {o : List Output} {b : Bool} (h : OpenInv sys tr) (hs : Settled ndebug sys e sys' o b) :
    OpenInv sys' (tr ++ o) ∧ (b = true → sys'.methodFrames = []) := by
  cases hs with
  | arrive =>
    rw [List.append_nil]
    exact ⟨⟨h.closed_iff, h.method⟩, fun hb => by cases hb⟩
  | activate hs =>
    rw [List.append_nil]
    exact ⟨h, fun _ => by rw [System.methodFrames, hs]; rfl⟩
  | accept hs =>
    have htop := (h.top hs rfl).1
    exact ⟨openInv_stack h (fun _ => not_closed_nil) (Or.inl htop), fun _ => htop⟩
  | @endReq k rest hs hp status =>
    have htop := (h.top hs rfl).1
    have hset := openInv_setPhase (k := k) (o := [.endReq k]) .accepted status h
      (h.lt_of_top hs rfl)
      (by decide) (by simp)
    exact ⟨⟨hset.closed_iff, Or.inl htop⟩, fun _ => htop⟩
  | @beginResp k rest hs hp status =>
    have htop := (h.top hs rfl).1
    have hlast : k + 1 = sys.count := (h.top hs rfl).2
    have hset := openInv_setPhase (k := k)
      (o := Output.beginResp k :: check ndebug k ++ [Output.touch k, .endResp k])
      .responded status h
      (h.lt_of_top hs rfl) (by decide) (by simp [closed_append])
    refine ⟨⟨hset.closed_iff, Or.inr ⟨.endResp k, ?_, hlast⟩⟩, fun hb => by cases hb⟩
    show Frame.endResp k :: { sys with stack := rest }.methodFrames = _
    rw [htop]
  | @beginRespFailed k rest hs hp status =>
    have hset := openInv_setPhase (k := k) (o := Output.beginResp k :: check ndebug k) .responded
      status h (h.lt_of_top hs rfl) (by decide) (by simp)
    exact ⟨⟨hset.closed_iff, Or.inl (h.top hs rfl).1⟩, fun hb => by cases hb⟩
  | @complete k rest hs hp status =>
    have htop := (h.top hs rfl).1
    have hset := openInv_setPhase (k := k)
      (o := Output.completed k :: check ndebug k ++ [Output.release k]) .responded status h
      (h.lt_of_top hs rfl) (by decide) (by simp [closed_append])
    exact ⟨⟨hset.closed_iff, Or.inl htop⟩, fun _ => htop⟩
  | @completeFailed k rest hs hp status =>
    have hset := openInv_setPhase (k := k) (o := Output.completed k :: check ndebug k) .responded
      status h (h.lt_of_top hs rfl) (by decide) (by simp)
    exact ⟨⟨hset.closed_iff, Or.inl (h.top hs rfl).1⟩, fun hb => by cases hb⟩
  | endResp hs =>
    have htop := (h.top hs rfl).1
    exact ⟨openInv_stack h (by simp [closed_append]) (Or.inl htop), fun _ => htop⟩
  | endRespFailed hs =>
    exact ⟨openInv_stack h (fun _ => not_closed_check) (Or.inl (h.top hs rfl).1),
      fun hb => by cases hb⟩
  | @bwReturn k rest hs =>
    have hframes : sys.methodFrames = { sys with stack := rest }.methodFrames := by
      rw [System.methodFrames, hs]
      rfl
    refine ⟨openInv_stack h (by simp) ?_, fun hb => by cases hb⟩
    rw [← hframes]
    exact h.method
  | bwEndReq hlt hp =>
    exact ⟨openInv_setPhase .accepted .ok h hlt (by decide) (by simp), fun hb => by cases hb⟩
  | @bwBeginResp k hlt hp =>
    have hset := openInv_setPhase (k := k) (o := [.beginResp k, .touch k, .touch k, .endResp k])
      .responded .ok h hlt (by decide) (by simp)
    exact ⟨⟨hset.closed_iff, hset.method⟩, fun hb => by cases hb⟩
  | setResponseStatus hlt hp status =>
    refine ⟨⟨fun j => ?_, h.method⟩, fun hb => by cases hb⟩
    rw [List.append_nil, h.closed_iff, count_setPhase, phase_setPhase_self]

theorem openInv_step {ndebug : Bool} {sys sys' : System} {tr : List Output} {e : Event}
    {o : List Output} (h : OpenInv sys tr) (hs : step ndebug sys e = some (sys', o)) :
    OpenInv sys' (tr ++ o) := by
  refine step_rule (I := OpenInv) tr (fun hsettled => ?_) hs
  obtain ⟨hI, hm⟩ := openInv_settled h hsettled
  exact ⟨hI, fun hb => openInv_drain hI (hm hb)⟩

theorem openInv_run {ndebug : Bool} {garbage : Bytes} {es : List Event} {sys : System}
    {tr : List Output} (h : (dma ndebug garbage).Run es sys tr) : OpenInv sys tr :=
  Machine.inv_run (M := dma ndebug garbage) (I := OpenInv) (openInv_init ndebug garbage)
    (fun _ _ _ _ _ hI hs => openInv_step hI hs) h

/-! ## Disciplined runs -/

/-- The last request, if there is one, has ended. -/
def System.LastEnded (sys : System) : Prop :=
  sys.count = 0 ∨ sys.phase (sys.count - 1) ≠ .requested

instance (sys : System) : Decidable sys.LastEnded :=
  inferInstanceAs (Decidable (sys.count = 0 ∨ sys.phase (sys.count - 1) ≠ .requested))

/-- The method does not go on to a byte while the last request is open, and no response comes by a
backward call. -/
def Disciplined (sys : System) : Event → Prop
  | .activate | .accept => sys.available = [] ∨ sys.LastEnded
  | .bwBeginResp _ => False
  | _ => True

instance (sys : System) : ∀ e, Decidable (Disciplined sys e)
  | .activate | .accept => inferInstanceAs (Decidable (sys.available = [] ∨ sys.LastEnded))
  | .bwBeginResp _ => inferInstanceAs (Decidable False)
  | .arrive _ _ | .updateEndReq | .updateBeginResp | .complete | .returnEndResp | .bwEndReq _
  | .setResponseStatus _ _ => inferInstanceAs (Decidable True)

/-- The protocol so far, and what keeps it. -/
structure OrderInv (sys : System) (tr : List Output) : Prop where
  noBackward : ∀ k, .bwEndResp k ∉ sys.stack
  ended : ∀ k, .endResp k ∈ tr → k < sys.count ∧ sys.phase k = .responded
  obeys : ObeysBaseProtocol tr

theorem orderInv_init (ndebug : Bool) (garbage : Bytes) :
    OrderInv (dma ndebug garbage).init [] where
  noBackward := fun _ => List.not_mem_nil
  ended := by intro k hk; cases hk
  obeys := by
    refine ⟨?_, fun _ => Nat.zero_le 1⟩
    intro pre k post heq
    cases pre <;> cases heq

/-- Entries that send nothing. -/
def Silent (o : List Output) : Prop := ∀ k, .beginReq k ∉ o ∧ .endResp k ∉ o

theorem obeys_append {tr o : List Output} (h : ObeysBaseProtocol tr) (hreq : ∀ k, .beginReq k ∉ o)
    (hend : ∀ k, .endResp k ∈ o → .endResp k ∉ tr ∧ o.count (.endResp k) ≤ 1) :
    ObeysBaseProtocol (tr ++ o) where
  exclusive := by
    intro pre k post heq
    rcases append_eq_append_cons heq with ⟨t, htr, -⟩ | ⟨a, -, rfl⟩
    · exact h.exclusive pre k t htr
    · exact absurd (List.mem_append_right a List.mem_cons_self) (hreq (k + 1))
  single := by
    intro k
    rw [List.count_append]
    by_cases hk : .endResp k ∈ o
    · rw [List.count_eq_zero_of_not_mem (hend k hk).1, Nat.zero_add]
      exact (hend k hk).2
    · rw [List.count_eq_zero_of_not_mem hk]
      exact h.single k

/-- The loop goes on after the last request has ended. -/
theorem orderInv_drain {sys : System} {tr : List Output} (h : OrderInv sys tr)
    (hopen : OpenInv sys tr) (hlast : sys.available = [] ∨ sys.LastEnded) :
    OrderInv (drain sys).1 (tr ++ (drain sys).2) := by
  unfold drain
  split
  · rwa [List.append_nil]
  · rename_i byte rest havail
    have hlast := hlast.resolve_left (by rw [havail]; exact List.cons_ne_nil _ _)
    refine ⟨?_, ?_, ?_, ?_⟩
    · intro k hk
      exact h.noBackward k ((List.mem_cons.1 hk).resolve_left (by intro heq; cases heq))
    · intro k hk
      have hk' : .endResp k ∈ tr := by simpa using hk
      obtain ⟨hlt, hphase⟩ := h.ended k hk'
      refine ⟨Nat.lt_succ_of_lt hlt, ?_⟩
      show (Function.update sys.transaction sys.count _ k).phase = _
      rw [Function.update_of_ne (Nat.ne_of_lt hlt)]
      exact hphase
    · intro pre k post heq
      rcases append_eq_append_cons heq with ⟨t, htr, -⟩ | ⟨a, rfl, ho⟩
      · exact h.obeys.exclusive pre k t htr
      · -- The new request: its number is the count, so the one before it is the last.
        replace ho : [Output.acquire sys.count, .touch sys.count, .beginReq sys.count] =
          a ++ .beginReq (k + 1) :: post := ho
        have hk : k + 1 = sys.count := by
          have hmem := List.mem_append_right a (List.mem_cons_self (a := Output.beginReq (k + 1))
            (l := post))
          rw [← ho] at hmem
          simpa using hmem
        refine closed_append.2 (Or.inl ((hopen.closed_iff k).2 ⟨by omega, ?_⟩))
        rcases hlast with hzero | hlast
        · omega
        · rwa [← hk] at hlast
    · intro k
      rw [List.count_append]
      simpa using h.obeys.single k

/-- Nothing is sent, and no response is forgotten. -/
theorem orderInv_silent {sys sys' : System} {tr o : List Output} (h : OrderInv sys tr)
    (ho : Silent o) (hstack : ∀ k, .bwEndResp k ∉ sys'.stack) (hc : sys'.count = sys.count)
    (hp : ∀ k, sys.phase k = .responded → sys'.phase k = .responded) : OrderInv sys' (tr ++ o) where
  noBackward := hstack
  ended := by
    intro k hk
    have hk' := (List.mem_append.1 hk).resolve_right (ho k).2
    rw [hc]
    exact ⟨(h.ended k hk').1, hp k (h.ended k hk').2⟩
  obeys := obeys_append h.obeys (fun k => (ho k).1) fun k hk => absurd hk (ho k).2

theorem silent_append {o o' : List Output} (h : Silent o) (h' : Silent o') : Silent (o ++ o') := by
  intro k
  simp only [List.mem_append, not_or]
  exact ⟨⟨(h k).1, (h' k).1⟩, (h k).2, (h' k).2⟩

theorem silent_check (ndebug : Bool) (k : Nat) : Silent (check ndebug k) := by
  intro j
  unfold check
  split_ifs <;> simp

theorem lastEnded_setPhase {sys : System} {k : Nat} (h : k + 1 = sys.count) {ph : Phase}
    (hph : ph ≠ .requested) (st : ResponseStatus) : (sys.setPhase k ph st).LastEnded := by
  right
  rw [count_setPhase, ← h, Nat.add_sub_cancel, phase_setPhase, if_pos rfl]
  exact hph

theorem responded_setPhase {sys : System} {k : Nat} {ph : Phase} (st : ResponseStatus)
    (h : sys.phase k ≠ .responded ∨ ph = .responded) (j : Nat) (hj : sys.phase j = .responded) :
    (sys.setPhase k ph st).phase j = .responded := by
  rw [phase_setPhase]
  split_ifs with hjk
  · rw [hjk] at hj
    exact h.resolve_left fun hne => hne hj
  · exact hj

/-- **A disciplined event keeps to the protocol**, and where the loop goes on to a byte the last
request has ended. -/
theorem orderInv_settled {ndebug : Bool} {sys sys' : System} {tr : List Output} {e : Event}
    {o : List Output} {b : Bool} (h : OrderInv sys tr) (hopen : OpenInv sys tr)
    (hlife : LifeInv sys tr) (hG : Disciplined sys e) (hs : Settled ndebug sys e sys' o b) :
    OrderInv sys' (tr ++ o) ∧ (b = true → sys'.available = [] ∨ sys'.LastEnded) := by
  have hrest : ∀ {f : Frame} {rest : List Frame}, sys.stack = f :: rest →
      ∀ k, .bwEndResp k ∉ rest := by
    intro f rest hstack k hk
    exact h.noBackward k (by rw [hstack]; exact List.mem_cons_of_mem _ hk)
  have hpush : ∀ {f g : Frame} {rest : List Frame}, sys.stack = f :: rest →
      (∀ k, g ≠ .bwEndResp k) → ∀ k, .bwEndResp k ∉ g :: rest := by
    intro f g rest hstack hg k hk
    exact (List.mem_cons.1 hk).elim (fun heq => hg k heq.symm) (hrest hstack k)
  cases hs with
  | arrive =>
    refine ⟨?_, fun hb => by cases hb⟩
    exact orderInv_silent h (by intro k; simp) h.noBackward rfl fun _ hk => hk
  | activate => exact ⟨by rwa [List.append_nil], fun _ => hG⟩
  | accept hs =>
    exact ⟨orderInv_silent h (by intro k; simp) (hrest hs) rfl fun _ hk => hk, fun _ => hG⟩
  | @endReq k rest hs hp status =>
    refine ⟨?_, fun _ => Or.inr (lastEnded_setPhase (hopen.top hs rfl).2 (by decide) status)⟩
    refine orderInv_silent h (by intro j; simp) (hrest hs) rfl ?_
    exact responded_setPhase status (Or.inl (by rw [hp]; decide))
  | @beginResp k rest hs hp status =>
    have hmem : ∀ j,
        Output.endResp j ∈ Output.beginResp k :: check ndebug k ++ [Output.touch k, .endResp k] ↔
          j = k := by
      intro j
      simp [(silent_check ndebug k j).2]
    refine ⟨⟨hpush hs (by intro j heq; cases heq), ?_, ?_⟩, fun hb => by cases hb⟩
    · intro j hj
      rcases List.mem_append.1 hj with hj | hj
      · exact ⟨(h.ended j hj).1, responded_setPhase status (Or.inr rfl) j (h.ended j hj).2⟩
      · rw [hmem] at hj
        subst hj
        exact ⟨hopen.lt_of_top hs rfl, by rw [System.phase]; simp [System.setPhase]⟩
    · refine obeys_append h.obeys ?_ fun j hj => ?_
      · intro j
        simpa using (silent_check ndebug k j).1
      · rw [hmem] at hj
        subst hj
        refine ⟨fun hold => hp (h.ended j hold).2, ?_⟩
        simp [List.count_append, List.count_eq_zero_of_not_mem (silent_check ndebug j j).2]
  | @beginRespFailed k rest hs hp status =>
    refine ⟨?_, fun hb => by cases hb⟩
    refine orderInv_silent h ?_ (hpush hs (by intro j heq; cases heq)) rfl
      (responded_setPhase status (Or.inr rfl))
    exact silent_append (o := [_]) (by intro j; simp) (silent_check ndebug k)
  | @complete k rest hs hp status =>
    refine ⟨?_, fun _ => Or.inr (lastEnded_setPhase (hopen.top hs rfl).2 (by decide) status)⟩
    refine orderInv_silent h ?_ (hrest hs) rfl (responded_setPhase status (Or.inr rfl))
    exact silent_append (silent_append (o := [_]) (by intro j; simp) (silent_check ndebug k))
      (by intro j; simp)
  | @completeFailed k rest hs hp status =>
    refine ⟨?_, fun hb => by cases hb⟩
    refine orderInv_silent h ?_ (hpush hs (by intro j heq; cases heq)) rfl
      (responded_setPhase status (Or.inr rfl))
    exact silent_append (o := [_]) (by intro j; simp) (silent_check ndebug k)
  | @endResp k rest hs =>
    have hlast : k + 1 = sys.count := (hopen.top hs rfl).2
    refine ⟨orderInv_silent h (silent_append (silent_check ndebug k) (by intro j; simp)) (hrest hs)
      rfl fun _ hk => hk, fun _ => Or.inr (Or.inr ?_)⟩
    show sys.phase (sys.count - 1) ≠ .requested
    rw [← hlast, Nat.add_sub_cancel, hlife.responded k (mem_handling_of_stack hs rfl)]
    decide
  | @endRespFailed k rest hs =>
    refine ⟨?_, fun hb => by cases hb⟩
    exact orderInv_silent h (silent_check ndebug k) (hpush hs (by intro j heq; cases heq)) rfl
      fun _ hk => hk
  | @bwReturn k rest hs =>
    exact absurd (by rw [hs]; exact List.mem_cons_self) (h.noBackward k)
  | bwEndReq hlt hp =>
    refine ⟨?_, fun hb => by cases hb⟩
    refine orderInv_silent h (by intro j; simp) h.noBackward rfl ?_
    exact responded_setPhase .ok (Or.inl (by rw [hp]; decide))
  | bwBeginResp => exact absurd hG id
  | @setResponseStatus k hlt hp status =>
    refine ⟨?_, fun hb => by cases hb⟩
    refine orderInv_silent h (by intro j; simp) h.noBackward rfl ?_
    intro j hj
    rw [phase_setPhase_self]
    exact hj

theorem orderInv_step {ndebug : Bool} {sys sys' : System} {tr : List Output} {e : Event}
    {o : List Output} (h : OrderInv sys tr) (hopen : OpenInv sys tr) (hlife : LifeInv sys tr)
    (hG : Disciplined sys e) (hs : step ndebug sys e = some (sys', o)) :
    OrderInv sys' (tr ++ o) := by
  refine step_rule (I := OrderInv) tr (fun hsettled => ?_) hs
  obtain ⟨hI, hlast⟩ := orderInv_settled h hopen hlife hG hsettled
  exact ⟨hI, fun hb => orderInv_drain hI (openInv_settled hopen hsettled).1 (hlast hb)⟩

/-- **A disciplined run keeps to the protocol.** -/
theorem protocol_of_disciplined {ndebug : Bool} {garbage : Bytes} {es : List Event} {sys : System}
    {tr : List Output} (h : (dma ndebug garbage).Run es sys tr)
    (hG : (dma ndebug garbage).AllSteps Disciplined (dma ndebug garbage).init es) :
    ObeysBaseProtocol tr := by
  have hinv : OrderInv sys tr ∧ OpenInv sys tr ∧ LifeInv sys tr :=
    Machine.inv_run_of_allSteps (M := dma ndebug garbage)
      (I := fun sys tr => OrderInv sys tr ∧ OpenInv sys tr ∧ LifeInv sys tr)
      ⟨orderInv_init ndebug garbage, openInv_init ndebug garbage, lifeInv_init ndebug garbage⟩
      (fun _ _ _ _ _ hI hg hs => ⟨orderInv_step hI.1 hI.2.1 hI.2.2 hg hs, openInv_step hI.2.1 hs,
        lifeInv_step hI.2.2 hs⟩) hG h
  exact hinv.1.obeys

/-- Two bytes: the first request is completed inline, the second one answered with an inline
response. -/
def inlineAnswers : List Event :=
  [.arrive [1, 2] 5, .activate, .setResponseStatus 0 .ok, .complete, .bwEndReq 1, .updateBeginResp,
    .returnEndResp]

theorem protocol_of_disciplined_inlineAnswers :
    ∃ sys tr, (dma false fun _ => 0).Run inlineAnswers sys tr ∧
      (dma false fun _ => 0).AllSteps Disciplined (dma false fun _ => 0).init inlineAnswers ∧
      sys.count = 2 ∧ ObeysBaseProtocol tr :=
  have h : (dma false fun _ => 0).Run inlineAnswers _ _ := rfl
  have hG : (dma false fun _ => 0).AllSteps Disciplined (dma false fun _ => 0).init
      inlineAnswers := by
    decide
  ⟨_, _, h, hG, rfl, protocol_of_disciplined h hG⟩

/-- The loop sends a request although the last one is open. -/
theorem drain_breaks {sys : System} {tr : List Output} (h : OpenInv sys tr)
    (hG : ¬ (sys.available = [] ∨ sys.LastEnded)) : ¬ ObeysBaseProtocol (tr ++ (drain sys).2) := by
  intro hobeys
  obtain ⟨havail, hlast⟩ := not_or.1 hG
  obtain ⟨hpos, hphase⟩ := not_or.1 hlast
  obtain ⟨k, hk⟩ : ∃ k, sys.count = k + 1 := Nat.exists_eq_succ_of_ne_zero hpos
  obtain ⟨byte, rest, hbytes⟩ := List.exists_cons_of_ne_nil havail
  have hout : (drain sys).2 = [Output.acquire (k + 1), .touch (k + 1)] ++
    [Output.beginReq (k + 1)] := by
    rw [drain, hbytes, ← hk]
    rfl
  rw [hout, ← List.append_assoc] at hobeys
  have hclosed := hobeys.exclusive _ k [] rfl
  simp only [closed_append, closed_cons_acquire, closed_cons_touch, not_closed_nil,
    or_false] at hclosed
  rw [h.closed_iff] at hclosed
  rw [hk, Nat.add_sub_cancel] at hphase
  exact hphase hclosed.2

/-- **The discipline leaves out only runs that break the protocol**: a step that is not disciplined
breaks it at once, or when the target returns from the call it is in. -/
theorem breaks_of_not_disciplined {ndebug : Bool} {garbage : Bytes} {es : List Event}
    {sys sys' : System} {tr o : List Output} {e : Event} (h : (dma ndebug garbage).Run es sys tr)
    (hs : step ndebug sys e = some (sys', o)) (hG : ¬ Disciplined sys e) :
    ∃ es' sys'' tr', (dma ndebug garbage).Run (es ++ e :: es') sys'' tr' ∧
      ¬ ObeysBaseProtocol tr' := by
  have hinv := openInv_run h
  have hrun : (dma ndebug garbage).runFrom sys [e] = some (sys', o) := by
    simp [Machine.runFrom, dma, hs]
  cases e with
  | activate =>
    rcases step_eq_some hs with hset | ⟨sys₁, o₁, hset, -, rfl⟩
    · cases hset
    · cases hset
      exact ⟨[], _, _, Machine.runFrom_append h hrun, drain_breaks hinv hG⟩
  | accept =>
    rcases step_eq_some hs with hset | ⟨sys₁, o₁, hset, -, rfl⟩
    · cases hset
    · have hinv₁ := (openInv_settled hinv hset).1
      cases hset
      rw [List.append_nil] at hinv₁
      exact ⟨[], _, _, Machine.runFrom_append h hrun, drain_breaks hinv₁ hG⟩
  | bwBeginResp k =>
    rcases step_eq_some hs with hset | ⟨sys₁, o₁, hset, -, -⟩
    · cases hset
      refine ⟨[.returnEndResp], { sys.setPhase k .responded .ok with stack := sys.stack },
        tr ++ ([Output.beginResp k, .touch k, .touch k, .endResp k] ++
          [Output.release k, .endResp k]),
        Machine.runFrom_append h (Machine.runFrom_append hrun rfl), fun hobeys => ?_⟩
      have hsingle := hobeys.single k
      simp [List.count_append] at hsingle
    · cases hset
  | arrive | updateEndReq | updateBeginResp | complete | returnEndResp | bwEndReq
  | setResponseStatus =>
    exact absurd trivial hG

end RenodeSystemC.Dma
