import RenodeSystemC.Lib.Tlm
import RenodeSystemC.Lib.Machine

/-!
# `dmac` under the SystemC scheduler

A DMA controller with one thread. `dmac_loop` waits for `start_event`, raises `bus_request`, waits
for the next rising edge of `bus_free`, copies `data_len` bytes over the bus, one read and one write
each, and lowers `bus_request`. `receive_b_transport` serves the register writes, in whatever
place the thread is suspended at that moment.

The events are register accesses, level changes of `bus_free`, the answers of the bus, and the
scheduler's choices. A delta cycle ends only when the thread is not runnable; `start_event` is
notified immediately and therefore heard at once or never.

With `ndebug` the assertions of the source are compiled out; without it a failed one stops the
program.
-/

namespace RenodeSystemC.Dmac

/-! ## State -/

/-- The registers. They have no initializers. -/
structure Registers where
  addrSrc : UInt32
  addrDst : UInt32
  dataLen : UInt32
  deriving DecidableEq, Repr

/-- Where `dmac_loop` is suspended, or runnable. -/
inductive LoopPc where
  /-- Runnable, at the top of the thread. -/
  | start
  /-- In `wait()`, sensitive to `start_event`. -/
  | waitStart
  /-- Runnable: `start_event` was notified. -/
  | started
  /-- In `wait(bus_free.posedge_event())`. -/
  | waitGrant
  /-- Runnable: `bus_free` rose. -/
  | granted
  /-- In `b_transport`, with a read. -/
  | reading
  /-- In `b_transport`, with a write. -/
  | writing
  /-- The thread has returned. -/
  | returned
  deriving DecidableEq, Repr

def LoopPc.runnable : LoopPc → Bool
  | .start | .started | .granted => true
  | .waitStart | .waitGrant | .reading | .writing | .returned => false

/-- The module's members and ports, the locals of `dmac_loop`, and where it is. -/
structure System where
  registers : Registers
  busRequest : Signal Bool
  busFree : Signal Bool
  loop : LoopPc
  rAddr : UInt32
  wAddr : UInt32
  i : Int32
  data : UInt8
  /-- An assertion has failed. -/
  aborted : Bool

/-- What `receive_b_transport` reads of a transaction. -/
structure Request where
  isWrite : Bool
  address : UInt64
  /-- The 32-bit word behind the data pointer. -/
  word : UInt32
  deriving DecidableEq

inductive Event where
  /-- A transaction on `bus_target_socket`. -/
  | request (req : Request)
  /-- `bus_free` is written. -/
  | busFree (level : Bool)
  /-- The scheduler runs `dmac_loop` to its next suspension. -/
  | runLoop
  /-- The read returns, leaving `byte` behind the data pointer. -/
  | readReturn (status : ResponseStatus) (byte : UInt8)
  /-- The write returns. -/
  | writeReturn (status : ResponseStatus)
  /-- The delta cycle ends. -/
  | delta
  deriving DecidableEq

inductive Output where
  /-- `bus_request.write(true)`. -/
  | raise
  /-- `bus_free` rises. -/
  | posedge
  /-- The thread has seen the edge, with these values in the registers. -/
  | granted (r : Registers)
  /-- `b_transport` is called on `bus_initiator_socket`. -/
  | access (p : Payload)
  /-- The read has returned this byte. -/
  | got (byte : UInt8)
  /-- `bus_request.write(false)`. -/
  | lower
  deriving DecidableEq

/-! ## The register interface -/

/-- An assertion that fails when `ok` is false. -/
def System.assert (ndebug ok : Bool) (sys : System) : System :=
  { sys with aborted := sys.aborted || !(ndebug || ok) }

/-- `start_event.notify()`: immediate, so only a thread that waits now hears it. -/
def System.notifyStart (sys : System) : System :=
  { sys with loop := if sys.loop = .waitStart then .started else sys.loop }

/-- The `switch` of `receive_b_transport`. -/
def System.writeRegister (ndebug : Bool) (address value : UInt32) (sys : System) : System :=
  if address = 0x4 then { sys with registers := { sys.registers with addrSrc := value } }
  else if address = 0x8 then { sys with registers := { sys.registers with addrDst := value } }
  else if address = 0xC then { sys with registers := { sys.registers with dataLen := value } }
  else if address = 0x10 then
    if value &&& 0xf = 1 then sys.notifyStart else sys.assert ndebug false
  else sys.assert ndebug false

/-- `receive_b_transport`. The command is only asserted on: with assertions compiled out a read
writes a register, too. -/
def receiveBTransport (ndebug : Bool) (sys : System) (req : Request) : System :=
  let sys := sys.assert ndebug req.isWrite
  if sys.aborted then sys else sys.writeRegister ndebug req.address.toUInt32 req.word

/-! ## The loop -/

/-- `reset_payload`, with the array behind the data pointer that is set later. -/
def resetPayload (data : UInt8) : Payload where
  command := .ignore
  address := 0
  data := [data]
  responseStatus := .incomplete
  length_lt := by rw [List.length_singleton]; decide

/-- The payload of the read. -/
def System.readPayload (sys : System) : Payload :=
  { resetPayload sys.data with command := .read, address := sys.rAddr.toUInt64 }

/-- The payload of the write. -/
def System.writePayload (sys : System) : Payload :=
  { resetPayload sys.data with command := .write, address := sys.wAddr.toUInt64 }

/-- The head of the `for` loop: the next read, or the end of the transfer. The comparison of the
signed counter with the unsigned length is unsigned. -/
def loopHead (sys : System) : System × List Output :=
  if sys.i.toUInt32 < sys.registers.dataLen then
    ({ sys with loop := .reading }, [.access sys.readPayload])
  else
    ({ sys with busRequest := sys.busRequest.write fun _ => false, loop := .waitStart }, [.lower])

/-- The copies made when the edge has been seen. -/
def System.beginCopy (sys : System) : System :=
  { sys with rAddr := sys.registers.addrSrc, wAddr := sys.registers.addrDst, i := 0 }

/-- The end of the body of the `for` loop. The counter is signed; what happens past `INT_MAX` is
undefined in the source and wraps around here. -/
def System.nextByte (sys : System) : System :=
  { sys with rAddr := sys.rAddr + 1, wAddr := sys.wAddr + 1, i := sys.i + 1 }

/-- `assert(false); return;` -/
def System.fail (ndebug : Bool) (sys : System) : System :=
  { sys.assert ndebug false with loop := .returned }

/-- `dmac_loop` runs from `start`, `started` or `granted` to its next suspension. -/
def runLoop (sys : System) : Option (System × List Output) :=
  match sys.loop with
  | .start => some ({ sys with loop := .waitStart }, [])
  | .started =>
    some ({ sys with busRequest := sys.busRequest.write fun _ => true, loop := .waitGrant },
      [.raise])
  | .granted =>
    some ((loopHead sys.beginCopy).1, .granted sys.registers :: (loopHead sys.beginCopy).2)
  | _ => none

/-- `bus_free` rises at the end of this delta cycle. -/
def System.rises (sys : System) : Bool := !sys.busFree.current && sys.busFree.next

/-- The update and the delta notification phase. -/
def afterDelta (sys : System) : System :=
  { sys with
    busRequest := sys.busRequest.update
    busFree := sys.busFree.update
    loop := if sys.rises = true ∧ sys.loop = .waitGrant then .granted else sys.loop }

/-! ## The machine -/

def step (ndebug : Bool) (sys : System) (e : Event) : Option (System × List Output) :=
  if sys.aborted then none
  else
    match e with
    | .request req => some (receiveBTransport ndebug sys req, [])
    | .busFree level => some ({ sys with busFree := sys.busFree.write fun _ => level }, [])
    | .runLoop => runLoop sys
    | .readReturn status byte =>
      if sys.loop = .reading then
        let sys := { sys with data := byte }
        if status = .ok then
          some ({ sys with loop := .writing }, [.got byte, .access sys.writePayload])
        else some (sys.fail ndebug, [])
      else none
    | .writeReturn status =>
      if sys.loop = .writing then
        if status = .ok then some (loopHead sys.nextByte) else some (sys.fail ndebug, [])
      else none
    | .delta =>
      if sys.loop.runnable then none
      else some (afterDelta sys, if sys.rises then [.posedge] else [])

/-- The system after elaboration; `garbage` and `data` are what the members and the local that have
no initializer hold. -/
def dmac (ndebug : Bool) (garbage : Registers) (data : UInt8) : Machine System Event Output where
  init :=
    { registers := garbage
      busRequest := { current := false, next := false }
      busFree := { current := false, next := false }
      loop := .start
      rAddr := 0
      wAddr := 0
      i := 0
      data := data
      aborted := false }
  step := step ndebug

/-! ## What a step does -/

/-- What `receive_b_transport` leaves alone, and what it can do to the thread. -/
structure Serves (sys sys' : System) : Prop where
  busRequest : sys'.busRequest = sys.busRequest
  busFree : sys'.busFree = sys.busFree
  locals : sys'.rAddr = sys.rAddr ∧ sys'.wAddr = sys.wAddr ∧ sys'.i = sys.i ∧ sys'.data = sys.data
  loop : sys'.loop = sys.loop ∨ sys.loop = .waitStart ∧ sys'.loop = .started

theorem serves_writeRegister (ndebug : Bool) (address value : UInt32) (sys : System) :
    Serves sys (sys.writeRegister ndebug address value) := by
  unfold System.writeRegister
  split_ifs
  · exact ⟨rfl, rfl, ⟨rfl, rfl, rfl, rfl⟩, Or.inl rfl⟩
  · exact ⟨rfl, rfl, ⟨rfl, rfl, rfl, rfl⟩, Or.inl rfl⟩
  · exact ⟨rfl, rfl, ⟨rfl, rfl, rfl, rfl⟩, Or.inl rfl⟩
  · refine ⟨rfl, rfl, ⟨rfl, rfl, rfl, rfl⟩, ?_⟩
    by_cases hw : sys.loop = .waitStart
    · exact Or.inr ⟨hw, if_pos hw⟩
    · exact Or.inl (if_neg hw)
  · exact ⟨rfl, rfl, ⟨rfl, rfl, rfl, rfl⟩, Or.inl rfl⟩
  · exact ⟨rfl, rfl, ⟨rfl, rfl, rfl, rfl⟩, Or.inl rfl⟩

theorem serves_receiveBTransport (ndebug : Bool) (sys : System) (req : Request) :
    Serves sys (receiveBTransport ndebug sys req) := by
  simp only [receiveBTransport]
  split_ifs
  · exact ⟨rfl, rfl, ⟨rfl, rfl, rfl, rfl⟩, Or.inl rfl⟩
  · have h := serves_writeRegister ndebug req.address.toUInt32 req.word
      (sys.assert ndebug req.isWrite)
    exact ⟨h.busRequest, h.busFree, h.locals, h.loop⟩

/-- Everything the head of the `for` loop can do. -/
inductive Turns (sys : System) : System → List Output → Prop
  | next (h : sys.i.toUInt32 < sys.registers.dataLen) :
      Turns sys { sys with loop := .reading } [.access sys.readPayload]
  | done (h : ¬ sys.i.toUInt32 < sys.registers.dataLen) :
      Turns sys { sys with busRequest := sys.busRequest.write fun _ => false, loop := .waitStart }
        [.lower]

theorem turns (sys : System) : Turns sys (loopHead sys).1 (loopHead sys).2 := by
  unfold loopHead
  split_ifs with h
  · exact .next h
  · exact .done h

/-- Everything an event can do. -/
inductive Stepped (ndebug : Bool) (sys : System) : Event → System → List Output → Prop
  | request (req : Request) :
      Stepped ndebug sys (.request req) (receiveBTransport ndebug sys req) []
  | busFree (level : Bool) :
      Stepped ndebug sys (.busFree level)
        { sys with busFree := sys.busFree.write fun _ => level } []
  | start (hl : sys.loop = .start) : Stepped ndebug sys .runLoop { sys with loop := .waitStart } []
  | raise (hl : sys.loop = .started) :
      Stepped ndebug sys .runLoop
        { sys with busRequest := sys.busRequest.write fun _ => true, loop := .waitGrant } [.raise]
  | granted (hl : sys.loop = .granted) {sys' : System} {o : List Output}
      (ht : Turns sys.beginCopy sys' o) :
      Stepped ndebug sys .runLoop sys' (.granted sys.registers :: o)
  | read (hl : sys.loop = .reading) (byte : UInt8) :
      Stepped ndebug sys (.readReturn .ok byte) { sys with data := byte, loop := .writing }
        [.got byte, .access { sys with data := byte }.writePayload]
  | readFailed (hl : sys.loop = .reading) {status : ResponseStatus} (byte : UInt8)
      (hs : status ≠ .ok) :
      Stepped ndebug sys (.readReturn status byte) ({ sys with data := byte }.fail ndebug) []
  | written (hl : sys.loop = .writing) {sys' : System} {o : List Output}
      (ht : Turns sys.nextByte sys' o) : Stepped ndebug sys (.writeReturn .ok) sys' o
  | writeFailed (hl : sys.loop = .writing) {status : ResponseStatus} (hs : status ≠ .ok) :
      Stepped ndebug sys (.writeReturn status) (sys.fail ndebug) []
  | delta (hr : sys.loop.runnable = false) :
      Stepped ndebug sys .delta (afterDelta sys) (if sys.rises then [.posedge] else [])

theorem stepped {ndebug : Bool} {sys sys' : System} {e : Event} {o : List Output}
    (h : step ndebug sys e = some (sys', o)) :
    sys.aborted = false ∧ Stepped ndebug sys e sys' o := by
  unfold step at h
  by_cases ha : sys.aborted = true
  · rw [if_pos ha] at h
    cases h
  rw [if_neg ha] at h
  refine ⟨by simpa using ha, ?_⟩
  cases e with
  | request req => cases h; exact .request req
  | busFree level => cases h; exact .busFree level
  | runLoop =>
    simp only [runLoop] at h
    split at h
    · rename_i hl; cases h; exact .start hl
    · rename_i hl; cases h; exact .raise hl
    · rename_i hl; cases h; exact .granted hl (turns _)
    · cases h
  | readReturn status byte =>
    simp only at h
    split_ifs at h with hl hs
    · subst hs; cases h; exact .read hl byte
    · cases h; exact .readFailed hl byte hs
  | writeReturn status =>
    simp only at h
    split_ifs at h with hl hs
    · subst hs
      rw [Option.some.injEq] at h
      have ht := turns sys.nextByte
      rw [h] at ht
      exact .written hl ht
    · cases h; exact .writeFailed hl hs
  | delta =>
    by_cases hr : sys.loop.runnable = true
    · rw [if_pos hr] at h; cases h
    · rw [if_neg hr] at h; cases h; exact .delta (by simpa using hr)

/-! ## Good answers -/

theorem step_readReturn (ndebug : Bool) {sys : System} (ha : sys.aborted = false)
    (hl : sys.loop = .reading) (byte : UInt8) :
    step ndebug sys (.readReturn .ok byte) =
      some ({ sys with data := byte, loop := .writing },
        [.got byte, .access { sys with data := byte }.writePayload]) := by
  simp only [step, ha, hl]
  rfl

theorem step_writeReturn (ndebug : Bool) {sys : System} (ha : sys.aborted = false)
    (hl : sys.loop = .writing) :
    step ndebug sys (.writeReturn .ok) = some (loopHead sys.nextByte) := by
  simp only [step, ha, hl]
  rfl

theorem step_runLoop (ndebug : Bool) {sys : System} (ha : sys.aborted = false) :
    step ndebug sys .runLoop = runLoop sys := by
  simp only [step, ha]
  rfl

theorem loopHead_of_lt {sys : System} (h : sys.i.toUInt32 < sys.registers.dataLen) :
    loopHead sys = ({ sys with loop := .reading }, [.access sys.readPayload]) :=
  if_pos h

theorem loopHead_of_not_lt {sys : System} (h : ¬ sys.i.toUInt32 < sys.registers.dataLen) :
    loopHead sys =
      ({ sys with busRequest := sys.busRequest.write fun _ => false, loop := .waitStart },
        [.lower]) :=
  if_neg h

end RenodeSystemC.Dmac
