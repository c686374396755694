import RenodeSystemC.Lib.Bytes

/-!
# Payloads, sockets and signals

The parts of the TLM generic payload and of SystemC channels that a memory-mapped target uses. The
array behind the data pointer is a list, and the data length is its length; a payload carries
the proof that the length fits the 32-bit attribute, so every payload is one a caller can
build.
-/

namespace RenodeSystemC

/-- `tlm_command`. -/
inductive Command where
  | read
  | write
  | ignore
  deriving DecidableEq, Repr

/-- `tlm_response_status`. -/
inductive ResponseStatus where
  | ok
  | incomplete
  | genericError
  | addressError
  | commandError
  | burstError
  | byteEnableError
  deriving DecidableEq, Repr

/-- The generic payload attributes a memory-mapped target reads and sets. -/
structure Payload where
  command : Command
  address : UInt64
  /-- The array behind `data_ptr`. -/
  data : List UInt8
  responseStatus : ResponseStatus
  length_lt : data.length < 2 ^ 32
  streamingWidth : UInt32 := UInt32.ofNat data.length
  /-- `byte_enable_ptr` is not null. -/
  byteEnable : Bool := false
  deriving DecidableEq

namespace Payload

/-- The length of a byte fits the attribute. -/
theorem byteLength_lt : 1 < 2 ^ 32 := by decide

/-- The length of a word fits the attribute. -/
theorem wordLength_lt : 4 < 2 ^ 32 := by decide

/-- `get_data_length()`. -/
def dataLength (p : Payload) : UInt32 := UInt32.ofNat p.data.length

def setAddress (p : Payload) (a : UInt64) : Payload := { p with address := a }

def setResponseStatus (p : Payload) (r : ResponseStatus) : Payload := { p with responseStatus := r }

/-- Overwrite the array behind the data pointer with as many bytes. -/
def setData (p : Payload) (d : List UInt8) (h : d.length = p.data.length) : Payload :=
  { p with data := d, length_lt := by rw [h]; exact p.length_lt }

@[simp] theorem toNat_dataLength (p : Payload) : p.dataLength.toNat = p.data.length := by
  rw [dataLength, UInt32.toNat_ofNat_of_lt' p.length_lt]

@[simp] theorem setAddress_address (p : Payload) (a : UInt64) : (p.setAddress a).address = a := rfl
@[simp] theorem setAddress_command (p : Payload) (a : UInt64) :
    (p.setAddress a).command = p.command := rfl
@[simp] theorem setAddress_data (p : Payload) (a : UInt64) : (p.setAddress a).data = p.data := rfl
@[simp] theorem setAddress_dataLength (p : Payload) (a : UInt64) :
    (p.setAddress a).dataLength = p.dataLength := rfl

@[simp] theorem setResponseStatus_responseStatus (p : Payload) (r : ResponseStatus) :
    (p.setResponseStatus r).responseStatus = r := rfl

end Payload

/-- What a target does with a call: the state and payload on return, and the bytes of its array
that it copied to or from. -/
structure Outcome (σ : Type*) where
  state : σ
  payload : Payload
  touched : Span

/-- A blocking transport function of a target with state `σ`. -/
abbrev Transport (σ : Type*) := σ → Payload → Outcome σ

/-- A group of signals: the values read now, and those the last writes requested. -/
structure Signal (α : Type*) where
  current : α
  next : α

namespace Signal

variable {α : Type*}

/-- Request a change; the last write before the update phase wins. -/
def write (f : α → α) (x : Signal α) : Signal α := { x with next := f x.next }

/-- The update phase at the end of a delta cycle. -/
def update (x : Signal α) : Signal α := { x with current := x.next }

@[simp] theorem write_next (f : α → α) (x : Signal α) : (x.write f).next = f x.next := rfl

/-- A signal that nobody has changed stays as it is. -/
theorem update_of_settled {x : Signal α} (h : x.current = x.next) : x.update = x := by
  cases x with
  | mk current next =>
    cases h
    rfl

end Signal

/-- `sc_time`: a 64-bit count of ticks, one picosecond each at the default resolution. -/
abbrev ScTime := UInt64

/-- `sc_time(ns, SC_NS)`, exact for every 32-bit number of nanoseconds. -/
def ScTime.ofNs (ns : UInt32) : ScTime := ns.toUInt64 * 1000

end RenodeSystemC
