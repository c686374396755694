import RenodeSystemC.Dmac.Dmac

/-!
# When the DMA controller uses the bus

* `dmac_arbitration`: every access to the bus falls in a window that the controller opens by
  raising `bus_request`, that a later rising edge of `bus_free` grants, and that closes when it
  lowers `bus_request`; and while an access is in progress the request line is high.
* `releases_iff`: the line is low again whenever no transfer is in progress, and the controller
  is ready for the next start, exactly as long as every access is answered with `TLM_OK_RESPONSE`.
  An access that is not ends the thread with the line high (`failedRead_keeps_bus`).

Both are read off one invariant that says, for every place the thread can be in, which part of
the window it is in.
-/

namespace RenodeSystemC.Dmac

/-! ## Windows -/

/-- The request line is not touched. -/
def KeepsRequest (o : List Output) : Prop := ∀ x ∈ o, x ≠ .raise ∧ x ≠ .lower

/-- The trace ends after a request, which is not withdrawn. -/
def Requested (tr : List Output) : Prop := ∃ a b, tr = a ++ .raise :: b ∧ KeepsRequest b

/-- The trace ends after a request and a later edge, and the request is not withdrawn. -/
def InWindow (tr : List Output) : Prop :=
  ∃ a b c, tr = a ++ .raise :: b ++ .posedge :: c ∧ KeepsRequest b ∧ KeepsRequest c

theorem KeepsRequest.append {o o' : List Output} (h : KeepsRequest o) (h' : KeepsRequest o') :
    KeepsRequest (o ++ o') := by
  intro x hx
  rcases List.mem_append.1 hx with hx | hx
  · exact h x hx
  · exact h' x hx

theorem Requested.append {tr o : List Output} (h : Requested tr) (ho : KeepsRequest o) :
    Requested (tr ++ o) := by
  obtain ⟨a, b, rfl, hb⟩ := h
  exact ⟨a, b ++ o, by simp, hb.append ho⟩

theorem InWindow.append {tr o : List Output} (h : InWindow tr) (ho : KeepsRequest o) :
    InWindow (tr ++ o) := by
  obtain ⟨a, b, c, rfl, hb, hc⟩ := h
  exact ⟨a, b, c ++ o, by simp, hb, hc.append ho⟩

theorem Requested.posedge {tr : List Output} (h : Requested tr) : InWindow (tr ++ [.posedge]) := by
  obtain ⟨a, b, rfl, hb⟩ := h
  exact ⟨a, b, [], by simp, hb, by simp [KeepsRequest]⟩

/-! ## The invariant -/

inductive Window where
  | closed
  | requested
  | granted
  deriving DecidableEq

/-- The window a place of the thread belongs to. A thread that returns does so in the middle of
a transfer. -/
def LoopPc.window : LoopPc → Window
  | .start | .waitStart | .started => .closed
  | .waitGrant => .requested
  | .granted | .reading | .writing | .returned => .granted

/-- Every access so far fell in a window. -/
def AccessesInWindow (tr : List Output) : Prop :=
  ∀ pre p post, tr = pre ++ .access p :: post → InWindow pre

structure ArbInv (sys : System) (tr : List Output) : Prop where
  accesses : AccessesInWindow tr
  closed : sys.loop.window = .closed → sys.busRequest.next = false
  requested : sys.loop.window = .requested → Requested tr ∧ sys.busRequest.next = true
  granted : sys.loop.window = .granted →
    InWindow tr ∧ sys.busRequest.current = true ∧ sys.busRequest.next = true

theorem accesses_append {tr o : List Output} (h : AccessesInWindow tr)
    (ho : ∀ pre p post, o = pre ++ .access p :: post → InWindow (tr ++ pre)) :
    AccessesInWindow (tr ++ o) := by
  intro pre p post heq
  rcases append_eq_append_cons heq with ⟨t, htr, -⟩ | ⟨a, rfl, ha⟩
  · exact h pre p t htr
  · exact ho a p post ha

theorem accesses_silent {tr o : List Output} (h : AccessesInWindow tr)
    (ho : ∀ p, .access p ∉ o) : AccessesInWindow (tr ++ o) :=
  accesses_append h fun pre p post heq => absurd (by rw [heq]; simp) (ho p)

theorem arbInv_init (ndebug : Bool) (garbage : Registers) (data : UInt8) :
    ArbInv (dmac ndebug garbage data).init [] where
  accesses := by intro pre p post heq; simp at heq
  closed := fun _ => rfl
  requested := by intro h; cases h
  granted := by intro h; cases h

/-- The thread stays in its window, and the request line as it is. -/
theorem ArbInv.stay {sys sys' : System} {tr : List Output} (h : ArbInv sys tr)
    (hw : sys'.loop.window = sys.loop.window) (hr : sys'.busRequest = sys.busRequest) :
    ArbInv sys' tr where
  accesses := h.accesses
  closed := by rw [hw, hr]; exact h.closed
  requested := by rw [hw, hr]; exact h.requested
  granted := by rw [hw, hr]; exact h.granted

/-- The head of the `for` loop, inside a window. -/
theorem arbInv_turns (sys : System) {sys₀ sys' : System} {tr o : List Output} (h : ArbInv sys₀ tr)
    (hw : sys₀.loop.window = .granted) (hr : sys.busRequest = sys₀.busRequest)
    (ht : Turns sys sys' o) : ArbInv sys' (tr ++ o) := by
  obtain ⟨hin, hcur, hnext⟩ := h.granted hw
  cases ht with
  | next =>
    refine ⟨accesses_append h.accesses ?_, ?_, ?_, ?_⟩
    · intro pre p post heq
      cases pre with
      | nil => rwa [List.append_nil]
      | cons x pre => simp at heq
    · intro hc; cases hc
    · intro hc; cases hc
    · intro _
      refine ⟨hin.append (by simp [KeepsRequest]), ?_, ?_⟩
      · show sys.busRequest.current = true
        rw [hr, hcur]
      · show sys.busRequest.next = true
        rw [hr, hnext]
  | done =>
    refine ⟨accesses_silent h.accesses (by simp), fun _ => rfl, ?_, ?_⟩
    · intro hc; cases hc
    · intro hc; cases hc

theorem arbInv_granted {sys : System} {tr o : List Output} (h : ArbInv sys tr)
    (hw : sys.loop.window = .granted) (ho : KeepsRequest o) (hacc : ∀ p, .access p ∉ o) :
    ArbInv sys (tr ++ o) where
  accesses := accesses_silent h.accesses hacc
  closed := by intro hc; rw [hw] at hc; cases hc
  requested := by intro hc; rw [hw] at hc; cases hc
  granted := fun _ => ⟨(h.granted hw).1.append ho, (h.granted hw).2⟩

theorem arbInv_delta {sys : System} {tr : List Output} (h : ArbInv sys tr) :
    ArbInv (afterDelta sys) (tr ++ if sys.rises then [.posedge] else []) := by
  have hacc : AccessesInWindow (tr ++ if sys.rises then [.posedge] else []) :=
    accesses_silent h.accesses (by intro p; split_ifs <;> simp)
  have hkeep : KeepsRequest (if sys.rises then [.posedge] else []) := by
    split_ifs <;> simp [KeepsRequest]
  by_cases hg : sys.rises = true ∧ sys.loop = .waitGrant
  · -- The edge is seen: the request has been made, and by now it is visible.
    have hloop : (afterDelta sys).loop = .granted := if_pos hg
    obtain ⟨hreq, hnext⟩ := h.requested (by rw [hg.2]; rfl)
    refine ⟨hacc, ?_, ?_, fun _ => ⟨?_, hnext, hnext⟩⟩
    · intro hc; rw [hloop] at hc; cases hc
    · intro hc; rw [hloop] at hc; cases hc
    · rw [if_pos hg.1]
      exact hreq.posedge
  · have hloop : (afterDelta sys).loop = sys.loop := if_neg hg
    refine ⟨hacc, ?_, ?_, ?_⟩
    · intro hc
      rw [hloop] at hc
      exact h.closed hc
    · intro hc
      rw [hloop] at hc
      exact ⟨(h.requested hc).1.append hkeep, (h.requested hc).2⟩
    · intro hc
      rw [hloop] at hc
      obtain ⟨hin, -, hnext⟩ := h.granted hc
      exact ⟨hin.append hkeep, hnext, hnext⟩

theorem arbInv_step {ndebug : Bool} {sys sys' : System} {tr : List Output} {e : Event}
    {o : List Output} (h : ArbInv sys tr) (hs : step ndebug sys e = some (sys', o)) :
    ArbInv sys' (tr ++ o) := by
  obtain ⟨-, hst⟩ := stepped hs
  cases hst with
  | request req =>
    have hserves := serves_receiveBTransport ndebug sys req
    rw [List.append_nil]
    refine h.stay ?_ hserves.busRequest
    rcases hserves.loop with hl | ⟨hl, hl'⟩
    · rw [hl]
    · rw [hl, hl']; rfl
  | busFree level => rw [List.append_nil]; exact h.stay rfl rfl
  | start hl => rw [List.append_nil]; exact h.stay (by rw [hl]; rfl) rfl
  | raise hl =>
    refine ⟨accesses_silent h.accesses (by simp), ?_, ?_, ?_⟩
    · intro hc; cases hc
    · exact fun _ => ⟨⟨tr, [], rfl, by simp [KeepsRequest]⟩, rfl⟩
    · intro hc; cases hc
  | granted hl ht =>
    have hw : sys.loop.window = .granted := by rw [hl]; rfl
    rw [List.append_cons]
    exact arbInv_turns sys.beginCopy
      (arbInv_granted h hw (by simp [KeepsRequest]) (by simp)) hw rfl ht
  | read hl byte =>
    have hw : sys.loop.window = .granted := by rw [hl]; rfl
    obtain ⟨hin, hreq⟩ := h.granted hw
    refine ⟨accesses_append h.accesses ?_, ?_, ?_, ?_⟩
    · intro pre p post heq
      match pre with
      | [] => simp at heq
      | [x] =>
        rw [List.cons_append, List.cons.injEq] at heq
        rw [← heq.1]
        exact hin.append (by simp [KeepsRequest])
      | x :: y :: pre => simp at heq
    · intro hc; cases hc
    · intro hc; cases hc
    · exact fun _ => ⟨hin.append (by simp [KeepsRequest]), hreq⟩
  | readFailed hl => rw [List.append_nil]; exact h.stay (by rw [hl]; rfl) rfl
  | written hl ht => exact arbInv_turns sys.nextByte h (by rw [hl]; rfl) rfl ht
  | writeFailed hl => rw [List.append_nil]; exact h.stay (by rw [hl]; rfl) rfl
  | delta => exact arbInv_delta h

theorem arbInv_run {ndebug : Bool} {garbage : Registers} {data : UInt8} {es : List Event}
    {sys : System} {tr : List Output} (h : (dmac ndebug garbage data).Run es sys tr) :
    ArbInv sys tr :=
  Machine.inv_run (M := dmac ndebug garbage data) (I := ArbInv) (arbInv_init ndebug garbage data)
    (fun _ _ _ _ _ hI hs => arbInv_step hI hs) h

/-- **Bus arbitration.** Before every access there is a request and, after it, an edge, and the
request is not withdrawn in between; and the request line is high as long as an access is in
progress. -/
theorem dmac_arbitration {ndebug : Bool} {garbage : Registers} {data : UInt8} {es : List Event}
    {sys : System} {tr : List Output} (h : (dmac ndebug garbage data).Run es sys tr) :
    (∀ pre p post, tr = pre ++ .access p :: post → InWindow pre) ∧
      (sys.loop = .reading ∨ sys.loop = .writing →
        sys.busRequest.current = true ∧ sys.busRequest.next = true) := by
  have hinv := arbInv_run h
  refine ⟨hinv.accesses, ?_⟩
  rintro (hl | hl)
  · exact (hinv.granted (by rw [hl]; rfl)).2
  · exact (hinv.granted (by rw [hl]; rfl)).2

/-- The start command. -/
def startCommand : Request := ⟨true, 0x10, 1⟩

/-- An edge before the request, a start while the controller waits for the grant, and then a
transfer of one byte with its read in progress. -/
def strayStarts : List Event :=
  [.runLoop, .request ⟨true, 0xC, 1⟩, .busFree true, .delta, .request startCommand, .runLoop,
    .busFree false, .delta, .request startCommand, .busFree true, .delta, .runLoop]

theorem dmac_arbitration_strayStarts :
    ∃ sys tr, (dmac false ⟨0, 0, 0⟩ 0).Run strayStarts sys tr ∧ sys.loop = .reading ∧
      tr.map (fun x => x == .posedge || x == .raise) = [true, true, true, false, false] ∧
      (∀ pre p post, tr = pre ++ .access p :: post → InWindow pre) ∧
      sys.busRequest.current = true :=
  have h : (dmac false ⟨0, 0, 0⟩ 0).Run strayStarts _ _ := rfl
  ⟨_, _, h, rfl, by decide, (dmac_arbitration h).1, ((dmac_arbitration h).2 (Or.inl rfl)).1⟩

/-! ## Failed transfers -/

/-- The event is no answer of the bus, or a good one. -/
def Event.AnsweredOk : Event → Prop
  | .readReturn status _ | .writeReturn status => status = .ok
  | _ => True

/-- A transfer is in progress: the bus has been requested for it, and it has not ended. -/
def System.inTransfer (sys : System) : Bool :=
  match sys.loop with
  | .waitGrant | .granted | .reading | .writing => true
  | .start | .waitStart | .started | .returned => false

/-- A start command, once the thread has come to its wait, begins a transfer. -/
def StartsOnCommand (sys : System) : Prop :=
  ∃ k sys' tr, (dmac true sys.registers sys.data).runFrom sys
    (List.replicate k .runLoop ++ [.request startCommand, .runLoop]) = some (sys', tr) ∧ .raise ∈ tr

/-- As soon as no transfer is in progress, `bus_request` is low or scheduled to become so, and the
controller takes start commands. -/
def ReleasesBus (sys : System) : Prop :=
  sys.inTransfer = false → sys.busRequest.next = false ∧ StartsOnCommand sys

/-- The first read of a transfer is refused. -/
def failedRead : List Event :=
  [.runLoop, .request ⟨true, 0xC, 1⟩, .request startCommand, .runLoop, .busFree true, .delta,
    .runLoop, .readReturn .addressError 0]

/-- **A failed transfer keeps the bus.** -/
theorem failedRead_keeps_bus :
    ¬ ∀ es sys tr, (dmac true ⟨0, 0, 0⟩ 0).Run es sys tr → ReleasesBus sys := by
  intro h
  have hrun : (dmac true ⟨0, 0, 0⟩ 0).Run failedRead _ _ := rfl
  exact absurd (h _ _ _ hrun rfl).1 (by decide)

/-- With assertions compiled out, the thread has returned if and only if an access has failed, and
nothing has stopped the program. -/
structure FailInv (es : List Event) (sys : System) : Prop where
  returned_iff : sys.loop = .returned ↔ ¬ ∀ e ∈ es, e.AnsweredOk
  aborted : sys.aborted = false

theorem aborted_assert (ok : Bool) (sys : System) : (sys.assert true ok).aborted = sys.aborted :=
  Bool.or_false _

theorem aborted_receiveBTransport (sys : System) (req : Request) :
    (receiveBTransport true sys req).aborted = sys.aborted := by
  simp only [receiveBTransport, aborted_assert]
  split_ifs with ha
  · exact aborted_assert _ _
  · unfold System.writeRegister
    split_ifs
    all_goals first
      | exact aborted_assert _ _
      | exact (aborted_assert _ _).trans (aborted_assert _ _)

theorem Turns.loop_ne {sys sys' : System} {o : List Output} (h : Turns sys sys' o) :
    sys'.loop ≠ .returned ∧ sys'.aborted = sys.aborted := by
  cases h with
  | next => exact ⟨LoopPc.noConfusion, rfl⟩
  | done => exact ⟨LoopPc.noConfusion, rfl⟩

/-- A step that neither fails nor runs a thread that has returned. -/
theorem FailInv.good {es : List Event} {sys sys' : System} {e : Event} (h : FailInv es sys)
    (he : e.AnsweredOk) (hl : sys'.loop = .returned ↔ sys.loop = .returned)
    (ha : sys'.aborted = sys.aborted) : FailInv (es ++ [e]) sys' where
  returned_iff := by
    rw [hl, h.returned_iff, List.forall_mem_append]
    simp [he]
  aborted := by rw [ha, h.aborted]

theorem FailInv.failed {es : List Event} {sys' : System} {e : Event}
    (he : ¬ e.AnsweredOk) (hl : sys'.loop = .returned) (ha : sys'.aborted = false) :
    FailInv (es ++ [e]) sys' where
  returned_iff := by
    rw [List.forall_mem_append]
    simp [he, hl]
  aborted := ha

theorem failInv_step {es : List Event} {sys sys' : System} {e : Event} {o : List Output}
    (h : FailInv es sys) (hs : step true sys e = some (sys', o)) : FailInv (es ++ [e]) sys' := by
  obtain ⟨ha, hst⟩ := stepped hs
  cases hst with
  | request req =>
    refine h.good trivial ?_ (aborted_receiveBTransport sys req)
    rcases (serves_receiveBTransport true sys req).loop with hl | ⟨hl, hl'⟩
    · rw [hl]
    · rw [hl, hl']; decide
  | busFree level => exact h.good trivial Iff.rfl rfl
  | start hl | raise hl => exact h.good trivial (by simp [hl]) rfl
  | granted hl ht =>
    refine h.good trivial ?_ ht.loop_ne.2
    rw [hl]
    exact iff_of_false ht.loop_ne.1 (by decide)
  | read hl byte => exact h.good rfl (by simp [hl]) rfl
  | readFailed hl byte hst => exact .failed hst rfl (by simp [System.fail, System.assert, ha])
  | written hl ht =>
    refine h.good rfl ?_ ht.loop_ne.2
    rw [hl]
    exact iff_of_false ht.loop_ne.1 (by decide)
  | writeFailed hl hst => exact .failed hst rfl (by simp [System.fail, System.assert, ha])
  | delta =>
    refine h.good trivial ?_ rfl
    show (if sys.rises = true ∧ sys.loop = .waitGrant then LoopPc.granted else sys.loop) = _ ↔ _
    split_ifs with hg
    · rw [hg.2]; decide
    · exact Iff.rfl

theorem failInv_run {garbage : Registers} {data : UInt8} {es : List Event} {sys : System}
    {tr : List Output} (h : (dmac true garbage data).Run es sys tr) : FailInv es sys :=
  Machine.inv_run_history (M := dmac true garbage data) (I := fun es sys _ => FailInv es sys)
    ⟨iff_of_false LoopPc.noConfusion (by simp), rfl⟩ (fun _ _ _ _ _ _ hI hs => failInv_step hI hs) h

/-- A controller that neither transfers nor has returned comes to its wait, and starts. -/
theorem startsOnCommand {sys : System} (ha : sys.aborted = false) (ht : sys.inTransfer = false)
    (hl : sys.loop ≠ .returned) : StartsOnCommand sys := by
  obtain ⟨regs, request, free, loop, r, w, i, d, aborted⟩ := sys
  subst ha
  cases loop with
  | start => exact ⟨1, _, _, rfl, List.mem_singleton_self _⟩
  | waitStart => exact ⟨0, _, _, rfl, List.mem_singleton_self _⟩
  | started => exact ⟨0, _, _, rfl, List.mem_singleton_self _⟩
  | returned => exact absurd rfl hl
  | waitGrant | granted | reading | writing => cases ht

/-- **The bus is released exactly as long as no access fails.** -/
theorem releases_iff {garbage : Registers} {data : UInt8} {es : List Event} {sys : System}
    {tr : List Output} (h : (dmac true garbage data).Run es sys tr) :
    ReleasesBus sys ↔ ∀ e ∈ es, e.AnsweredOk := by
  have hfail := failInv_run h
  constructor
  · intro hrel
    by_contra hbad
    have hl := hfail.returned_iff.2 hbad
    have hlow := (hrel (by simp [System.inTransfer, hl])).1
    rw [((arbInv_run h).granted (by rw [hl]; rfl)).2.2] at hlow
    cases hlow
  · intro hok ht
    have hl : sys.loop ≠ .returned := fun hl => hfail.returned_iff.1 hl hok
    refine ⟨(arbInv_run h).closed ?_, startsOnCommand hfail.aborted ht hl⟩
    cases hloop : sys.loop with
    | start | waitStart | started => rfl
    | returned => exact absurd hloop hl
    | waitGrant | granted | reading | writing => simp [System.inTransfer, hloop] at ht

/-- A transfer of one byte, to its end. -/
def oneByte : List Event :=
  [.runLoop, .request ⟨true, 0xC, 1⟩, .request startCommand, .runLoop, .busFree true, .delta,
    .runLoop, .readReturn .ok 7, .writeReturn .ok]

theorem releases_oneByte :
    ∃ sys tr, (dmac true ⟨0, 0, 0⟩ 0).Run oneByte sys tr ∧ sys.inTransfer = false ∧
      sys.busRequest.current = true ∧ ReleasesBus sys :=
  have h : (dmac true ⟨0, 0, 0⟩ 0).Run oneByte _ _ := rfl
  ⟨_, _, h, rfl, rfl, (releases_iff h).2 (by simp [oneByte, Event.AnsweredOk])⟩

end RenodeSystemC.Dmac
