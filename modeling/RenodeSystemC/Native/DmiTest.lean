import RenodeSystemC.Native.TestState

/-!
# The DMI test

On a rising edge of `test_begin` the thread of `dmi_test` writes a word to Renode's memory with
`b_transport` and reads it back through the pointer that `get_direct_mem_ptr` grants, then writes
another word through a pointer and reads it back with `b_transport`. The CPU accesses its target
and the other masters of the bus write the memory between any two of these operations.

**Theorem (`test_passes`).** If pointers and bus transfers reach the same bytes and the other
masters keep off the two words while a test runs and after it has succeeded, every rising edge is
served by one test, no test fails, and `test_done` is lit only while both words are in place.
-/

namespace RenodeSystemC.DmiTest

open Dmi

/-! ## Renode and the memory transport -/

/-- Renode as `renode_memory_transport` sees it. -/
structure Renode where
  writeBytesToBus : Bytes → UInt64 → List UInt8 → Bytes
  readBytesFromBus : Bytes → UInt64 → Nat → List UInt8
  length_read : ∀ memory address length, (readBytesFromBus memory address length).length = length
  /-- The pointer, as an index of the memory, the start and the end of a region. -/
  directMemPtr : UInt64 → Option (Nat × UInt64 × UInt64)

namespace Renode

variable (r : Renode)

/-- `renode_memory_transport::b_transport`, and whether it sets `dmi_allowed`. -/
def bTransport (memory : Bytes) (trans : Payload) : Bytes × Payload × Bool :=
  if trans.command = .write then
    (r.writeBytesToBus memory trans.address trans.data, trans.setResponseStatus .ok, true)
  else
    let data := r.readBytesFromBus memory trans.address trans.data.length
    (memory, (trans.setData data (r.length_read ..)).setResponseStatus .ok, true)

/-- `renode_memory_transport::get_direct_mem_ptr`. -/
def getDirectMemPtr (trans : Payload) : Option Region :=
  match r.directMemPtr trans.address with
  | none => none
  | some (dmiPtr, startAddress, endAddress) => some ⟨dmiPtr, startAddress, endAddress, true⟩

end Renode

/-! ## State -/

/-- Where the thread is. -/
inductive Point where
  | waiting
  | resetDone
  | writeTransport
  | acquireFirst
  | readDirect
  | acquireSecond
  | writeDirect
  | readTransport
  /-- `return`, after a message. -/
  | returned
  deriving DecidableEq, Repr

/-- The thread does not wait. -/
def Point.runnable (p : Point) : Bool := p ≠ .waiting ∧ p ≠ .returned

/-- It has called `reset_done`. -/
def Point.begun (p : Point) : Bool := p.runnable ∧ p ≠ .resetDone

/-- It has written the first word. -/
def Point.wroteFirst (p : Point) : Bool := p.begun ∧ p ≠ .writeTransport

theorem Point.eq_waiting {p : Point} (h : p.runnable = false) (hp : p ≠ .returned) :
    p = .waiting := by
  simp only [runnable, decide_eq_false_iff_not, not_and_or, not_not] at h
  exact h.resolve_right hp

theorem Point.runnable_of_begun {p : Point} (h : p.begun = true) : p.runnable = true := by
  simp only [begun, decide_eq_true_eq] at h
  exact h.1

theorem Point.begun_of_wroteFirst {p : Point} (h : p.wroteFirst = true) : p.begun = true := by
  simp only [wroteFirst, decide_eq_true_eq] at h
  exact h.1

structure State where
  /-- The memory of Renode. -/
  memory : Bytes
  target : Target
  testBegin : Signal Bool
  point : Point
  payload : Payload
  readDataWord : UInt32
  dmiData : Region

def firstAddress : UInt64 := 0x20001230
def firstWord : UInt32 := 0xb1e55ed
def secondAddress : UInt64 := 0x20002468
def secondWord : UInt32 := 0xc0ffee

/-- `reset_payload`; there is no byte behind the null pointer. -/
def resetPayload : Payload where
  command := .ignore
  address := 0
  data := [0]
  responseStatus := .incomplete
  length_lt := Payload.byteLength_lt
  streamingWidth := 1
  byteEnable := false

/-- The payload of a transfer of one word. -/
def wordPayload (command : Command) (address : UInt64) (word : UInt32) : Payload :=
  { resetPayload with
    command := command
    address := address
    data := Bytes.leBytes 4 word.toNat
    length_lt := by
      rw [Bytes.length_leBytes]
      exact Payload.wordLength_lt
    streamingWidth := 4 }

def State.init : State where
  memory := fun _ => 0
  target := .init
  testBegin := ⟨false, false⟩
  point := .waiting
  payload := resetPayload
  readDataWord := 0
  dmiData := ⟨0, 0, 0xFFFFFFFFFFFFFFFF, false⟩

/-! ## Steps -/

inductive Event where
  /-- `top::gpio_port_write`. -/
  | gpioPortWrite (number : Int) (value : Bool)
  /-- The update phase, once no thread can run. -/
  | delta
  /-- The thread performs one operation. -/
  | thread
  /-- The CPU accesses its target. -/
  | cpu (e : Dmi.Event)
  /-- Another master writes the memory. -/
  | master (index : Nat) (data : List UInt8)
  deriving DecidableEq

inductive Output where
  | posedge
  /-- `renode_invalidate_translation_blocks`. -/
  | invalidated (startAddress endAddress : UInt64)
  | done
  | failed (message : String)
  | cpu (o : Dmi.Output)
  deriving DecidableEq

/-- A message and `return`. -/
def State.fail (s : State) (message : String) : State × List Output :=
  ({ s with point := .returned }, [.failed message])

/-- One operation of `dmi_test_sequence`. -/
def threadStep (r : Renode) (s : State) : Option (State × List Output) :=
  match s.point with
  | .waiting | .returned => none
  | .resetDone => some ({ s with target := s.target.reset, point := .writeTransport }, [])
  | .writeTransport =>
    let (memory, payload, dmiAllowed) :=
      r.bTransport s.memory (wordPayload .write firstAddress firstWord)
    let s := { s with memory := memory, payload := payload }
    if payload.responseStatus ≠ .ok then some (s.fail "Failed to write to system bus")
    else if dmiAllowed = false then some (s.fail "Target did not set DMI hint")
    else some ({ s with point := .acquireFirst }, [])
  | .acquireFirst =>
    match r.getDirectMemPtr s.payload with
    | none => some (s.fail "get_direct_mem_ptr() did not succeed")
    | some dmiData => some ({ s with dmiData := dmiData, point := .readDirect }, [])
  | .readDirect =>
    let word := s.memory.word32 (s.dmiData.index firstAddress)
    let s := { s with readDataWord := word }
    if word = firstWord then some ({ s with point := .acquireSecond }, [])
    else some (s.fail "DMI read data mismatched")
  | .acquireSecond =>
    let s := { s with payload := s.payload.setAddress secondAddress }
    match r.getDirectMemPtr s.payload with
    | none => some (s.fail "get_direct_mem_ptr() did not succeed")
    | some dmiData => some ({ s with dmiData := dmiData, point := .writeDirect }, [])
  | .writeDirect =>
    let memory := s.memory.store (s.dmiData.index secondAddress) (Bytes.leBytes 4 secondWord.toNat)
    some ({ s with memory := memory, point := .readTransport },
      [.invalidated secondAddress (secondAddress + 4)])
  | .readTransport =>
    let (memory, payload, _) :=
      r.bTransport s.memory (wordPayload .read secondAddress s.readDataWord)
    let word := UInt32.ofNat (Bytes.leWord payload.data)
    let s := { s with memory := memory, payload := payload, readDataWord := word }
    if payload.responseStatus ≠ .ok then some (s.fail "Failed to read from system bus")
    else if word = secondWord then
      some ({ s with target := s.target.markMemoryDone, point := .waiting }, [.done])
    else some (s.fail "DMI write data mismatched")

/-- The update phase: a rising edge wakes the thread if it waits for one. -/
def State.delta (s : State) : State × List Output :=
  if s.testBegin.next && !s.testBegin.current then
    ({ s with
      testBegin := s.testBegin.update
      point := if s.point = .waiting then .resetDone else s.point }, [.posedge])
  else ({ s with testBegin := s.testBegin.update }, [])

def step (r : Renode) (s : State) : Event → Option (State × List Output)
  | .gpioPortWrite number value =>
    if number = 1 then some ({ s with testBegin := s.testBegin.write fun _ => value }, [])
    else some (s, [])
  | .delta => if s.point.runnable then none else some s.delta
  | .thread => threadStep r s
  | .cpu e =>
    if e = .reset ∨ e = .markMemoryDone then none
    else
      match Dmi.step s.target e with
      | none => none
      | some (target, o) => some ({ s with target := target }, o.map .cpu)
  | .master index data => some ({ s with memory := s.memory.store index data }, [])

/-- The test, the CPU target and the memory. -/
def dmiNative (r : Renode) : Machine State Event Output where
  init := .init
  step := step r

/-! ## The environment -/

/-- A pointer to the word at `address` and bus transfers of the word reach the same four bytes, from
`index` on. -/
structure Shared (r : Renode) (address : UInt64) (index : Nat) : Prop where
  granted : ∃ region : Region, region.index address = index ∧
    ∀ trans : Payload, trans.address = address → r.getDirectMemPtr trans = some region
  write : ∀ memory data, data.length = 4 →
    r.writeBytesToBus memory address data = memory.store index data
  read : ∀ memory, r.readBytesFromBus memory address 4 = memory.load index 4

/-- Ranges of bytes without a common index. -/
def Apart (index length index' length' : Nat) : Prop :=
  index + length ≤ index' ∨ index' + length' ≤ index

instance (index length index' length' : Nat) : Decidable (Apart index length index' length') :=
  inferInstanceAs (Decidable (_ ∨ _))

/-- The words lie in memory from `i` and from `j` on, apart from each other. -/
structure Backed (r : Renode) (i j : Nat) : Prop where
  first : Shared r firstAddress i
  second : Shared r secondAddress j
  apart : Apart i 4 j 4

/-- The other masters keep off the words while a test runs and after it has succeeded. -/
def KeepsOff (i j : Nat) (s : State) : Event → Prop
  | .master index data => s.point.begun = true ∨ s.target.memoryDone = true →
      Apart i 4 index data.length ∧ Apart j 4 index data.length
  | _ => True

instance (i j : Nat) (s : State) : ∀ e, Decidable (KeepsOff i j s e)
  | .master _ _ => inferInstanceAs (Decidable (_ → _))
  | .gpioPortWrite _ _ | .delta | .thread | .cpu _ => inferInstanceAs (Decidable True)

theorem word32_store_of_apart {b : Bytes} {i index : Nat} {data : List UInt8}
    (h : Apart i 4 index data.length) : (b.store index data).word32 i = b.word32 i := by
  rw [Bytes.word32, Bytes.word32, Bytes.load_store_of_disjoint h]

/-! ## Transfers -/

section Transfers

variable {r : Renode} {address : UInt64} {i : Nat} (memory : Bytes) (word : UInt32)

theorem Shared.bTransport_write (h : Shared r address i) :
    r.bTransport memory (wordPayload .write address word) =
      (memory.store i (Bytes.leBytes 4 word.toNat),
        (wordPayload .write address word).setResponseStatus .ok, true) := by
  have hw := h.write memory (Bytes.leBytes 4 word.toNat) (Bytes.length_leBytes _ _)
  have hcommand : (wordPayload .write address word).command = .write := rfl
  rw [Renode.bTransport, if_pos hcommand]
  exact congrArg (fun m => (m, _, true)) hw

theorem Shared.bTransport_read (h : Shared r address i) : ∃ trans : Payload,
    r.bTransport memory (wordPayload .read address word) = (memory, trans, true) ∧
      trans.responseStatus = .ok ∧ trans.data = memory.load i 4 := by
  refine ⟨_, rfl, rfl, ?_⟩
  have hlen : (wordPayload .read address word).data.length = 4 := Bytes.length_leBytes _ _
  change r.readBytesFromBus memory address (wordPayload .read address word).data.length = _
  rw [hlen]
  exact h.read memory

end Transfers

/-! ## The invariant -/

/-- Where the words are, and what the thread has of them. -/
structure Placed (i j : Nat) (s : State) : Prop where
  first : s.point.wroteFirst = true ∨ s.target.memoryDone = true → s.memory.word32 i = firstWord
  second : s.point = .readTransport ∨ s.target.memoryDone = true → s.memory.word32 j = secondWord
  address : s.point = .acquireFirst → s.payload.address = firstAddress
  firstIndex : s.point = .readDirect → s.dmiData.index firstAddress = i
  secondIndex : s.point = .writeDirect → s.dmiData.index secondAddress = j

structure Inv (i j : Nat) (s : State) (tr : List Output) : Prop where
  target : ∃ es tr', cpuTarget.Run es s.target tr'
  noFailure : ∀ message, .failed message ∉ tr
  running : s.point ≠ .returned
  count : tr.count .posedge = tr.count .done + if s.point.runnable then 1 else 0
  memoryDone : s.target.memoryDone = true ↔ .done ∈ tr ∧ s.point.begun = false
  placed : Placed i j s

/-- Not about a rising edge or the end of a test. -/
def Output.quiet : Output → Bool
  | .invalidated _ _ | .cpu _ => true
  | _ => false

namespace Inv

variable {r : Renode} {i j : Nat} {s s' : State} {tr o : List Output}

theorem memoryDone_eq_false (h : Inv i j s tr) (hb : s.point.begun = true) :
    s.target.memoryDone = false := by
  rw [Bool.eq_false_iff]
  intro hd
  have hb' := (h.memoryDone.1 hd).2
  rw [hb] at hb'
  cases hb'

/-- A step that neither starts nor ends a test. -/
theorem quiet (h : Inv i j s tr) (htarget : ∃ es tr', cpuTarget.Run es s'.target tr')
    (hdone : s'.target.memoryDone = s.target.memoryDone) (hp : s'.point ≠ .returned)
    (hrun : s'.point.runnable = s.point.runnable) (hbegun : s'.point.begun = s.point.begun)
    (ho : ∀ x ∈ o, x.quiet = true) (hplaced : Placed i j s') : Inv i j s' (tr ++ o) := by
  have hno : ∀ x : Output, x.quiet = false → x ∉ o := by
    intro x hx hmem
    rw [ho x hmem] at hx
    cases hx
  refine ⟨htarget, ?_, hp, ?_, ?_, hplaced⟩
  · intro message hmem
    rcases List.mem_append.1 hmem with hmem | hmem
    · exact h.noFailure message hmem
    · exact hno _ rfl hmem
  · rw [List.count_append, List.count_append, List.count_eq_zero_of_not_mem (hno .posedge rfl),
      List.count_eq_zero_of_not_mem (hno .done rfl), hrun]
    exact h.count
  · rw [hdone, hbegun, h.memoryDone, List.mem_append, or_iff_left (hno .done rfl)]

/-- An operation inside a test. -/
theorem operation (h : Inv i j s tr) (hb : s.point.begun = true) (hb' : s'.point.begun = true)
    (htarget : s'.target = s.target) (ho : ∀ x ∈ o, x.quiet = true)
    (hfirst : s'.memory.word32 i = firstWord)
    (hsecond : s'.point = .readTransport → s'.memory.word32 j = secondWord)
    (haddress : s'.point = .acquireFirst → s'.payload.address = firstAddress)
    (hi : s'.point = .readDirect → s'.dmiData.index firstAddress = i)
    (hj : s'.point = .writeDirect → s'.dmiData.index secondAddress = j) :
    Inv i j s' (tr ++ o) := by
  have hdone := h.memoryDone_eq_false hb
  refine h.quiet ?_ ?_ ?_ ?_ ?_ ho ⟨fun _ => hfirst, ?_, haddress, hi, hj⟩
  · rw [htarget]
    exact h.target
  · rw [htarget]
  · intro hp
    rw [hp] at hb'
    cases hb'
  · rw [Point.runnable_of_begun hb, Point.runnable_of_begun hb']
  · rw [hb, hb']
  · intro hc
    rw [htarget, hdone] at hc
    exact hsecond (hc.resolve_right Bool.false_ne_true)

/-- The thread takes its next operation. -/
theorem thread (hr : Backed r i j) (h : Inv i j s tr) (hs : threadStep r s = some (s', o)) :
    Inv i j s' (tr ++ o) := by
  unfold threadStep at hs
  cases hp : s.point with
  | waiting =>
    rw [hp] at hs
    cases hs
  | returned =>
    rw [hp] at hs
    cases hs
  | resetDone =>
    rw [hp] at hs
    cases hs
    obtain ⟨es, tr', hrun⟩ := h.target
    rw [List.append_nil]
    refine ⟨⟨_, _, hrun.concat (e := .reset) rfl⟩, h.noFailure, by simp, ?_, ?_, ?_⟩
    · rw [h.count, hp]
      rfl
    · exact iff_of_false Bool.false_ne_true (by simp [Point.begun, Point.runnable])
    · constructor <;> simp [Point.wroteFirst, Target.reset, Target.gpioUpdate]
  | writeTransport =>
    simp only [hp, hr.first.bTransport_write] at hs
    cases hs
    refine h.operation (by rw [hp]; rfl) rfl rfl (List.forall_mem_nil _) ?_ ?_ ?_ ?_ ?_
    · exact Bytes.word32_store_leBytes ..
    · simp
    · exact fun _ => rfl
    all_goals simp
  | acquireFirst =>
    obtain ⟨region, hindex, hgrant⟩ := hr.first.granted
    simp only [hp, hgrant _ (h.placed.address hp)] at hs
    cases hs
    refine h.operation (by rw [hp]; rfl) rfl rfl (List.forall_mem_nil _) ?_ ?_ ?_ ?_ ?_
    · exact h.placed.first (Or.inl (by rw [hp]; rfl))
    all_goals simp [hindex]
  | readDirect =>
    have hword := h.placed.first (Or.inl (by rw [hp]; rfl))
    simp only [hp, h.placed.firstIndex hp, hword, if_true] at hs
    cases hs
    refine h.operation (by rw [hp]; rfl) rfl rfl (List.forall_mem_nil _) ?_ ?_ ?_ ?_ ?_
    · exact hword
    all_goals simp
  | acquireSecond =>
    obtain ⟨region, hindex, hgrant⟩ := hr.second.granted
    simp only [hp, hgrant _ (Payload.setAddress_address ..)] at hs
    cases hs
    refine h.operation (by rw [hp]; rfl) rfl rfl (List.forall_mem_nil _) ?_ ?_ ?_ ?_ ?_
    · exact h.placed.first (Or.inl (by rw [hp]; rfl))
    all_goals simp [hindex]
  | writeDirect =>
    simp only [hp, h.placed.secondIndex hp] at hs
    cases hs
    have hapart : Apart i 4 j (Bytes.leBytes 4 secondWord.toNat).length := by
      rw [Bytes.length_leBytes]
      exact hr.apart
    refine h.operation (by rw [hp]; rfl) rfl rfl (List.forall_mem_singleton.2 rfl) ?_ ?_ ?_ ?_ ?_
    · exact (word32_store_of_apart hapart).trans (h.placed.first (Or.inl (by rw [hp]; rfl)))
    all_goals simp [Bytes.word32_store_leBytes]
  | readTransport =>
    obtain ⟨trans, hread, hok, hdata⟩ :=
      hr.second.bTransport_read s.memory s.readDataWord
    have hfirst := h.placed.first (Or.inl (by rw [hp]; rfl))
    have hsecond := h.placed.second (Or.inl hp)
    have hword : UInt32.ofNat (Bytes.leWord trans.data) = secondWord := by
      rw [hdata]
      exact hsecond
    simp only [hp, hread, hok, hword, ne_eq, not_true, if_false, if_true] at hs
    cases hs
    obtain ⟨es, tr', hrun⟩ := h.target
    refine ⟨⟨_, _, hrun.concat (e := .markMemoryDone) rfl⟩, ?_, by simp, ?_, ?_, ?_⟩
    · intro message hmem
      rcases List.mem_append.1 hmem with hmem | hmem
      · exact h.noFailure message hmem
      · simp at hmem
    · rw [List.count_append, List.count_append, h.count, hp]
      rfl
    · have hm : s.target.markMemoryDone.memoryDone = true :=
        (flags_update { s.target with memoryDone := true }).1
      exact iff_of_true hm ⟨by simp, rfl⟩
    · refine ⟨fun _ => hfirst, fun _ => hsecond, ?_, ?_, ?_⟩ <;> simp

/-- A change of the signal alone. -/
theorem testBegin (h : Inv i j s tr) (x : Signal Bool) : Inv i j { s with testBegin := x } tr :=
  ⟨h.target, h.noFailure, h.running, h.count, h.memoryDone, h.placed.first, h.placed.second,
    h.placed.address, h.placed.firstIndex, h.placed.secondIndex⟩

/-- The update phase, with a rising edge or without. -/
theorem delta (h : Inv i j s tr) (hp : s.point.runnable = false) :
    Inv i j s.delta.1 (tr ++ s.delta.2) := by
  have hwaiting : s.point = .waiting := Point.eq_waiting hp h.running
  unfold State.delta
  split_ifs with hedge
  · have hdone := h.memoryDone
    have hcount := h.count
    rw [hp] at hcount
    rw [hwaiting] at hdone
    refine ⟨h.target, ?_, by simp, ?_, ?_, ?_, ?_, ?_, ?_, ?_⟩
    · intro message hmem
      rcases List.mem_append.1 hmem with hmem | hmem
      · exact h.noFailure message hmem
      · simp at hmem
    · rw [List.count_append, List.count_append, hcount]
      rfl
    · rw [List.mem_append, or_iff_left (by simp)]
      exact hdone
    · exact fun hc => h.placed.first (Or.inr (hc.resolve_left Bool.false_ne_true))
    · exact fun hc => h.placed.second (Or.inr (hc.resolve_left (by simp)))
    all_goals simp
  · rw [List.append_nil]
    exact h.testBegin _

/-- The CPU accesses its target. -/
theorem cpu (h : Inv i j s tr) {e : Dmi.Event} (hreset : e ≠ .reset) (hmark : e ≠ .markMemoryDone)
    {target : Target} {o : List Dmi.Output} (hs : Dmi.step s.target e = some (target, o)) :
    Inv i j { s with target := target } (tr ++ o.map .cpu) := by
  obtain ⟨es, tr', hrun⟩ := h.target
  have hrun' := hrun.concat hs
  have hdone : target.memoryDone = s.target.memoryDone := by
    rw [Bool.eq_iff_iff, (lit_run hrun').memoryDone, (lit_run hrun).memoryDone, sinceReset_concat,
      if_neg hreset, List.mem_append, List.mem_singleton]
    exact or_iff_left hmark.symm
  refine h.quiet ⟨_, _, hrun'⟩ hdone h.running rfl rfl ?_ ?_
  · intro x hx
    obtain ⟨o', -, rfl⟩ := List.mem_map.1 hx
    rfl
  · refine ⟨?_, ?_, h.placed.address, h.placed.firstIndex, h.placed.secondIndex⟩
    · rw [hdone]
      exact h.placed.first
    · rw [hdone]
      exact h.placed.second

/-- Another master writes the memory. -/
theorem master (h : Inv i j s tr) {index : Nat} {data : List UInt8}
    (hkeep : KeepsOff i j s (.master index data)) :
    Inv i j { s with memory := s.memory.store index data } tr := by
  refine ⟨h.target, h.noFailure, h.running, h.count, h.memoryDone, ?_, ?_, h.placed.address,
    h.placed.firstIndex, h.placed.secondIndex⟩
  · intro hc
    have hapart := (hkeep (hc.imp_left Point.begun_of_wroteFirst)).1
    exact (word32_store_of_apart hapart).trans (h.placed.first hc)
  · intro hc
    have hbegun : s.point = .readTransport → s.point.begun = true := by
      intro hp
      rw [hp]
      rfl
    have hapart := (hkeep (hc.imp_left hbegun)).2
    exact (word32_store_of_apart hapart).trans (h.placed.second hc)

theorem step (hr : Backed r i j) (h : Inv i j s tr) {e : Event} (hkeep : KeepsOff i j s e)
    (hs : step r s e = some (s', o)) : Inv i j s' (tr ++ o) := by
  cases e with
  | gpioPortWrite number value =>
    simp only [DmiTest.step] at hs
    split_ifs at hs <;> cases hs <;> rw [List.append_nil]
    · exact h.testBegin _
    · exact h
  | delta =>
    simp only [DmiTest.step] at hs
    split_ifs at hs with hp
    have hdelta := h.delta (Bool.eq_false_iff.2 hp)
    rw [Option.some.inj hs] at hdelta
    exact hdelta
  | thread => exact h.thread hr hs
  | cpu e =>
    simp only [DmiTest.step] at hs
    split_ifs at hs with he
    obtain ⟨hreset, hmark⟩ := not_or.1 he
    split at hs
    · cases hs
    · rename_i target o hstep
      cases hs
      exact h.cpu hreset hmark hstep
  | master index data =>
    cases hs
    rw [List.append_nil]
    exact h.master hkeep

end Inv

/-- The tests of a run, as far as it has come. -/
structure Passes (i j : Nat) (s : State) (tr : List Output) : Prop where
  noFailure : ∀ message, .failed message ∉ tr
  /-- Every rising edge has been served by a test, but for the one whose test is running. -/
  count : tr.count .posedge = tr.count .done + if s.point.runnable then 1 else 0
  lamp : s.target.gpio .testDone = true ↔
    .done ∈ tr ∧ s.point.begun = false ∧ s.target.cpuDone = true
  placed : s.target.gpio .testDone = true →
    s.memory.word32 i = firstWord ∧ s.memory.word32 j = secondWord

/-- **No test fails, and the lamp vouches for both words.** -/
theorem test_passes {r : Renode} {i j : Nat} (hr : Backed r i j) {es : List Event} {s : State}
    {tr : List Output} (h : (dmiNative r).Run es s tr)
    (hkeep : (dmiNative r).AllSteps (KeepsOff i j) .init es) : Passes i j s tr := by
  have hinit : Inv i j (dmiNative r).init [] := by
    refine ⟨⟨[], [], rfl⟩, fun _ => List.not_mem_nil, by simp [dmiNative, State.init], rfl, ?_, ?_⟩
    · exact iff_of_false Bool.false_ne_true (fun hc => List.not_mem_nil hc.1)
    · constructor <;> simp [dmiNative, State.init, Target.init, Point.wroteFirst, Point.begun,
        Point.runnable]
  have hinv : Inv i j s tr :=
    Machine.inv_run_of_allSteps hinit (fun _ _ _ _ _ hI hG hs => hI.step hr hG hs) hkeep h
  obtain ⟨es', tr', hrun⟩ := hinv.target
  have hlamp := (lit_run hrun).testDone
  refine ⟨hinv.noFailure, hinv.count, ?_, ?_⟩
  · rw [hlamp, Bool.and_eq_true, hinv.memoryDone, and_assoc]
  · intro hlit
    rw [hlamp, Bool.and_eq_true] at hlit
    exact ⟨hinv.placed.first (Or.inr hlit.1), hinv.placed.second (Or.inr hlit.1)⟩

/-- 16 MiB of memory at 0x20000000. -/
def mappedMemory : Renode where
  writeBytesToBus memory address data :=
    if 0x20000000 ≤ address ∧ address < 0x21000000 then
      memory.store (address - 0x20000000).toNat data
    else memory
  readBytesFromBus memory address length :=
    if 0x20000000 ≤ address ∧ address < 0x21000000 then
      memory.load (address - 0x20000000).toNat length
    else List.replicate length 0
  length_read memory address length := by split <;> simp
  directMemPtr address :=
    if 0x20000000 ≤ address ∧ address < 0x21000000 then some (0, 0x20000000, 0x20FFFFFF) else none

theorem mappedMemory_backed : Backed mappedMemory 0x1230 0x2468 := by
  refine ⟨⟨⟨⟨0, 0x20000000, 0x20FFFFFF, true⟩, rfl, ?_⟩, ?_, ?_⟩,
    ⟨⟨⟨0, 0x20000000, 0x20FFFFFF, true⟩, rfl, ?_⟩, ?_, ?_⟩, by decide⟩
  · intro trans htrans
    rw [Renode.getDirectMemPtr, htrans]
    rfl
  · exact fun memory data _ => rfl
  · exact fun memory => rfl
  · intro trans htrans
    rw [Renode.getDirectMemPtr, htrans]
    rfl
  · exact fun memory data _ => rfl
  · exact fun memory => rfl

/-- A master clears both words before the test and writes between them during it; the CPU is done
first. -/
def busyTest : List Event :=
  [.master 0x1230 [0, 0, 0, 0], .master 0x2468 [0, 0, 0, 0], .gpioPortWrite 1 true, .delta, .thread,
    .cpu writeRegister, .thread, .gpioPortWrite 1 false, .thread, .master 0x1234 [8, 9], .thread,
    .thread, .thread, .cpu writeRegister, .thread, .delta]

theorem test_passes_busyTest : ∃ s tr, (dmiNative mappedMemory).Run busyTest s tr ∧
    s.target.gpio .testDone = true ∧ s.memory.word32 0x1230 = firstWord ∧
      s.memory.word32 0x2468 = secondWord := by
  have hrun : (dmiNative mappedMemory).Run busyTest _ _ := rfl
  refine ⟨_, _, hrun, rfl, ?_⟩
  exact (test_passes mappedMemory_backed hrun (by decide)).placed rfl

end RenodeSystemC.DmiTest
