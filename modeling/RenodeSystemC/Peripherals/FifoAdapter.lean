import RenodeSystemC.Lib.Fifo
import RenodeSystemC.Lib.Machine
import RenodeSystemC.Lib.Tlm

/-!
# FIFO over Renode

`fifo_adapter` carries a FIFO from one SystemC simulation to another: `forward_fifo` drains the
upstream FIFO, one byte for each blocking write transaction, and the peer's `on_fifo_in` puts
the byte into the downstream FIFO. The bridges in between deliver each call once and return when
the peer has handled it.

The two sides have their own schedulers, so each has its own delta cycles. `forward_fifo` is a
method, and a SystemC kernel does not go on while one runs; here the producer may write and
delta cycles may end even then, and nobody hears the event that fires.

**Theorem (`channel_lossless`).** In every run the bytes consumed, held downstream, in transit and
held upstream are, in this order, the bytes written; and readable bytes upstream never wait for a
method that is neither running nor scheduled.
-/

namespace RenodeSystemC.FifoAdapter

/-! ## The adapter -/

/-- The transaction `forward_fifo` sends for one byte. -/
def forwardPayload (data : UInt8) : Payload where
  command := .write
  address := 0
  data := [data]
  responseStatus := .incomplete
  length_lt := Payload.byteLength_lt

/-- `on_fifo_in`; `none` while the FIFO is full, when its `write` blocks. -/
def onFifoIn (fifo : ScFifo UInt8) (p : Payload) : Option (ScFifo UInt8 × Payload) :=
  match p.data with
  | [] => none
  | value :: _ =>
    match fifo.nbWrite value with
    | none => none
    | some fifo => some (fifo, p.setResponseStatus .ok)

/-- Where `forward_fifo` is. -/
inductive MethodPc where
  /-- Not running, and no activation scheduled. -/
  | idle
  /-- `data_written` fired: an activation is scheduled. -/
  | scheduled
  /-- At the head of the `while` loop. -/
  | looping
  /-- In `b_transport`; the peer has not handled the payload yet. -/
  | calling (p : Payload)
  /-- In `b_transport`; the peer's `on_fifo_in` has returned. -/
  | answered (p : Payload)

/-- `forward_fifo` has been started and has not returned. -/
def MethodPc.running : MethodPc → Bool
  | .idle | .scheduled => false
  | .looping | .calling _ | .answered _ => true

/-- The byte in transit. -/
def MethodPc.transit : MethodPc → List UInt8
  | .calling p => p.data
  | _ => []

/-- `data_written` fires: a method that does not run is scheduled. -/
def MethodPc.hear (fired : Bool) : MethodPc → MethodPc
  | .idle => if fired then .scheduled else .idle
  | pc => pc

/-! ## The channel -/

structure System where
  /-- What the adapter's `fifo_in` is bound to. -/
  upstream : ScFifo UInt8
  method : MethodPc
  /-- The peer's `fifo`, which its `fifo_out` exports. -/
  downstream : ScFifo UInt8

inductive Event where
  /-- The producer's `write` succeeds. -/
  | produce (b : UInt8)
  /-- A delta cycle ends on the upstream side. -/
  | upstreamDelta
  /-- The scheduler starts `forward_fifo`. -/
  | activate
  /-- `forward_fifo` calls `nb_read`, and `b_transport` with what it gets. -/
  | poll
  /-- The peer handles the transaction. -/
  | deliver
  /-- `b_transport` returns. -/
  | busReturn
  /-- A delta cycle ends on the downstream side. -/
  | downstreamDelta
  /-- The consumer's `read` succeeds. -/
  | consume
  deriving DecidableEq

inductive Output where
  | produced (b : UInt8)
  | consumed (b : UInt8)
  deriving DecidableEq

def Output.producedByte : Output → Option UInt8
  | .produced b => some b
  | .consumed _ => none

def Output.consumedByte : Output → Option UInt8
  | .produced _ => none
  | .consumed b => some b

def step (sys : System) : Event → Option (System × List Output)
  | .produce b =>
    match sys.upstream.nbWrite b with
    | none => none
    | some fifo => some ({ sys with upstream := fifo }, [.produced b])
  | .upstreamDelta =>
    some ({ sys with
      upstream := sys.upstream.update
      method := sys.method.hear sys.upstream.dataWritten }, [])
  | .activate =>
    match sys.method with
    | .scheduled => some ({ sys with method := .looping }, [])
    | _ => none
  | .poll =>
    match sys.method with
    | .looping =>
      match sys.upstream.nbRead with
      | none => some ({ sys with method := .idle }, [])
      | some (b, fifo) =>
        some ({ sys with upstream := fifo, method := .calling (forwardPayload b) }, [])
    | _ => none
  | .deliver =>
    match sys.method with
    | .calling p =>
      match onFifoIn sys.downstream p with
      | none => none
      | some (fifo, p) => some ({ sys with downstream := fifo, method := .answered p }, [])
    | _ => none
  | .busReturn =>
    match sys.method with
    | .answered _ => some ({ sys with method := .looping }, [])
    | _ => none
  | .downstreamDelta => some ({ sys with downstream := sys.downstream.update }, [])
  | .consume =>
    match sys.downstream.nbRead with
    | none => none
    | some (b, fifo) => some ({ sys with downstream := fifo }, [.consumed b])

/-- Two FIFOs of any capacities, both empty. -/
def channel (upstreamSize downstreamSize : Nat) : Machine System Event Output where
  init :=
    { upstream := .empty _ upstreamSize
      method := .idle
      downstream := .empty _ downstreamSize }
  step := step

/-! ## The invariant -/

/-- The bytes the producer has written. -/
def written (tr : List Output) : List UInt8 := tr.filterMap Output.producedByte

/-- The bytes the consumer has read. -/
def consumed (tr : List Output) : List UInt8 := tr.filterMap Output.consumedByte

structure Lossless (sys : System) (tr : List Output) : Prop where
  /-- Every byte is in exactly one place, and the places are in order. -/
  bytes : consumed tr ++ sys.downstream.contents ++ sys.method.transit ++ sys.upstream.contents =
    written tr
  /-- One transaction carries one byte. -/
  single : ∀ p, sys.method = .calling p → ∃ b, p.data = [b]
  /-- Readable bytes do not wait for a method that sleeps. -/
  awake : sys.upstream.readable ≠ [] → sys.method ≠ .idle

theorem lossless_init (m n : Nat) : Lossless (channel m n).init [] where
  bytes := rfl
  single := by intro p h; cases h
  awake := by intro h; exact absurd rfl h

theorem written_append (tr o : List Output) : written (tr ++ o) = written tr ++ written o :=
  List.filterMap_append

theorem consumed_append (tr o : List Output) : consumed (tr ++ o) = consumed tr ++ consumed o :=
  List.filterMap_append

@[simp] theorem written_produced (b : UInt8) : written [.produced b] = [b] := rfl
@[simp] theorem written_consumed (b : UInt8) : written [.consumed b] = [] := rfl
@[simp] theorem consumed_produced (b : UInt8) : consumed [.produced b] = [] := rfl
@[simp] theorem consumed_consumed (b : UInt8) : consumed [.consumed b] = [b] := rfl

theorem onFifoIn_eq_some {fifo fifo' : ScFifo UInt8} {p p' : Payload}
    (h : onFifoIn fifo p = some (fifo', p')) :
    ∃ b bs, p.data = b :: bs ∧ fifo.nbWrite b = some fifo' := by
  unfold onFifoIn at h
  split at h
  · cases h
  · rename_i b bs hdata
    split at h
    · cases h
    · rename_i hw
      cases h
      exact ⟨b, bs, hdata, hw⟩

/-- The method goes on, with the same byte in transit. -/
theorem lossless_goOn {sys : System} {tr : List Output} (h : Lossless sys tr) {pc : MethodPc}
    (htransit : pc.transit = sys.method.transit)
    (hsingle : ∀ p, pc = .calling p → ∃ b, p.data = [b]) (hidle : pc ≠ .idle) :
    Lossless { sys with method := pc } tr where
  bytes := by
    show consumed tr ++ sys.downstream.contents ++ pc.transit ++ sys.upstream.contents = written tr
    rw [htransit]
    exact h.bytes
  single := hsingle
  awake := fun _ => hidle

/-- An idle method has drained everything readable, so new bytes come from a write, which
it hears. -/
theorem lossless_upstreamDelta {sys : System} {tr : List Output} (h : Lossless sys tr) :
    Lossless { sys with
      upstream := sys.upstream.update
      method := sys.method.hear sys.upstream.dataWritten } tr := by
  obtain ⟨up, pc, down⟩ := sys
  cases pc with
  | idle =>
    have hempty : up.readable = [] := by
      by_contra hne
      exact h.awake hne rfl
    cases hfired : up.dataWritten with
    | false =>
      refine ⟨?_, ?_, ?_⟩
      · simpa [MethodPc.hear, MethodPc.transit] using h.bytes
      · intro p hp; cases hp
      · intro hne
        rw [ScFifo.readable_update, ScFifo.dataWritten_eq_false hfired, hempty] at hne
        exact absurd rfl hne
    | true =>
      refine ⟨?_, ?_, ?_⟩
      · simpa [MethodPc.hear, MethodPc.transit] using h.bytes
      · intro p hp; cases hp
      · intro _ hp; cases hp
  | scheduled | looping | calling | answered =>
    refine ⟨?_, h.single, ?_⟩
    · simpa [MethodPc.hear] using h.bytes
    · intro _ hp; cases hp

/-- A poll takes the oldest readable byte into transit, or leaves the loop when there is none. -/
theorem lossless_poll {up : ScFifo UInt8} {down : ScFifo UInt8} {sys' : System} {tr : List Output}
    {o : List Output} (h : Lossless ⟨up, .looping, down⟩ tr)
    (hs : step ⟨up, .looping, down⟩ .poll = some (sys', o)) : Lossless sys' (tr ++ o) := by
  simp only [step] at hs
  split at hs
  · rename_i hr
    cases hs
    rw [List.append_nil]
    refine ⟨h.bytes, ?_, ?_⟩
    · intro p hp; cases hp
    · intro hne; exact absurd (ScFifo.nbRead_eq_none hr) hne
  · rename_i b fifo hr
    cases hs
    obtain ⟨-, hcont⟩ := ScFifo.nbRead_eq_some hr
    rw [List.append_nil]
    refine ⟨?_, ?_, ?_⟩
    · rw [← h.bytes, hcont]
      simp [MethodPc.transit, forwardPayload]
    · intro p hp
      cases hp
      exact ⟨b, rfl⟩
    · intro _ hp; cases hp

/-- A delivery takes the one byte in transit into the downstream FIFO. -/
theorem lossless_deliver {up : ScFifo UInt8} {down : ScFifo UInt8} {p : Payload} {sys' : System}
    {tr : List Output} {o : List Output} (h : Lossless ⟨up, .calling p, down⟩ tr)
    (hs : step ⟨up, .calling p, down⟩ .deliver = some (sys', o)) : Lossless sys' (tr ++ o) := by
  simp only [step] at hs
  split at hs
  · cases hs
  · rename_i fifo p' hin
    cases hs
    obtain ⟨b, bs, hdata, hw⟩ := onFifoIn_eq_some hin
    obtain ⟨c, hc⟩ := h.single p rfl
    obtain ⟨-, hcont⟩ := ScFifo.nbWrite_eq_some hw
    rw [hc, List.cons.injEq] at hdata
    rw [List.append_nil]
    refine ⟨?_, ?_, ?_⟩
    · rw [← h.bytes, hcont, ← hdata.1]
      simp [MethodPc.transit, hc]
    · intro q hq; cases hq
    · intro _ hq; cases hq

theorem lossless_step {sys sys' : System} {tr : List Output} {e : Event} {o : List Output}
    (h : Lossless sys tr) (hs : step sys e = some (sys', o)) : Lossless sys' (tr ++ o) := by
  obtain ⟨up, pc, down⟩ := sys
  cases e with
  | produce b =>
    simp only [step] at hs
    split at hs
    · cases hs
    · rename_i fifo hw
      cases hs
      obtain ⟨hread, hcont⟩ := ScFifo.nbWrite_eq_some hw
      refine ⟨?_, h.single, by rw [hread]; exact h.awake⟩
      rw [written_append, consumed_append, ← h.bytes, hcont]
      simp
  | upstreamDelta =>
    cases hs
    rw [List.append_nil]
    exact lossless_upstreamDelta h
  | activate =>
    cases pc <;> cases hs
    rw [List.append_nil]
    exact lossless_goOn h rfl (by intro p hp; cases hp) (by intro hp; cases hp)
  | poll =>
    cases pc with
    | looping => exact lossless_poll h hs
    | idle | scheduled | calling | answered => cases hs
  | deliver =>
    cases pc with
    | calling p => exact lossless_deliver h hs
    | idle | scheduled | looping | answered => cases hs
  | busReturn =>
    cases pc <;> cases hs
    rw [List.append_nil]
    exact lossless_goOn h rfl (by intro p hp; cases hp) (by intro hp; cases hp)
  | downstreamDelta =>
    cases hs
    rw [List.append_nil]
    exact ⟨by rw [ScFifo.contents_update]; exact h.bytes, h.single, h.awake⟩
  | consume =>
    simp only [step] at hs
    split at hs
    · cases hs
    · rename_i b fifo hr
      cases hs
      obtain ⟨-, hcont⟩ := ScFifo.nbRead_eq_some hr
      have hbytes := h.bytes
      refine ⟨?_, h.single, h.awake⟩
      rw [written_append, consumed_append]
      simp only [hcont] at hbytes
      simpa using hbytes

theorem lossless_run {m n : Nat} {es : List Event} {sys : System} {tr : List Output}
    (h : (channel m n).Run es sys tr) : Lossless sys tr :=
  Machine.inv_run (M := channel m n) (I := Lossless) (lossless_init m n)
    (fun _ _ _ _ _ hI hs => lossless_step hI hs) h

theorem MethodPc.eq_scheduled {pc : MethodPc} (hidle : pc ≠ .idle) (hrun : pc.running = false) :
    pc = .scheduled := by
  cases pc with
  | idle => exact absurd rfl hidle
  | scheduled => rfl
  | looping | calling | answered => cases hrun

/-- **The channel loses nothing and forgets no wakeup.** -/
theorem channel_lossless {upstreamSize downstreamSize : Nat} {es : List Event} {sys : System}
    {tr : List Output} (h : (channel upstreamSize downstreamSize).Run es sys tr) :
    consumed tr ++ sys.downstream.contents ++ sys.method.transit ++ sys.upstream.contents =
        written tr ∧
      (sys.upstream.readable ≠ [] → sys.method.running = false → sys.method = .scheduled) :=
  ⟨(lossless_run h).bytes, fun hr => MethodPc.eq_scheduled ((lossless_run h).awake hr)⟩

/-- Three bytes through FIFOs of one cell each: the second is in transit while the first fills the
downstream FIFO, and the third is written while the drain loop runs. -/
def crowded : List Event :=
  [.produce 7, .upstreamDelta, .activate, .poll, .deliver, .upstreamDelta, .produce 8,
    .upstreamDelta, .busReturn, .poll, .upstreamDelta, .produce 9]

theorem channel_lossless_crowded :
    ∃ sys tr, (channel 1 1).Run crowded sys tr ∧ step sys .deliver = none ∧
      sys.method.transit = [8] ∧
      consumed tr ++ sys.downstream.contents ++ sys.method.transit ++ sys.upstream.contents =
        [7, 8, 9] :=
  have h : (channel 1 1).Run crowded _ _ := rfl
  ⟨_, _, h, rfl, rfl, (channel_lossless h).1⟩

end RenodeSystemC.FifoAdapter
