import RenodeSystemC.Lt.TrafficGenerator

/-!
# What a traffic generator asks for

A generator goes through two passes of sixteen writes and sixteen reads. Here is what the
transactions in flight are, as long as the bus answers every request with its response (`Answers`):
they carry consecutive words of the current loop, those that the bus has seen before those that it
has not.

`callsMade` counts the calls so far; the one with the number `c` is determined by `c` alone
(`Scheduled.next`).
-/

namespace RenodeSystemC.Lt

open Bytes

/-! ## Words -/

/-- The word with the index `w` of the pass `i`, as written: its bus address, inverted on the second
pass. -/
def passWord (i w : Nat) : UInt32 :=
  if i = 1 then ~~~ UInt32.ofNat (i * 2 ^ 28 + 4 * w) else UInt32.ofNat (i * 2 ^ 28 + 4 * w)

/-- The request for the word `w` of the pass `i`. -/
structure IsRequest (i : Nat) (reading : Bool) (w : Nat) (p : Payload) : Prop where
  command : p.command = if reading then .read else .write
  address : p.address.toNat = i * 2 ^ 28 + 4 * w
  length : p.data.length = 4
  data : reading = false → p.data = leBytes 4 (passWord i w).toNat

/-- What may be known of the response to the word `w` of the pass `i`. -/
abbrev Property := Nat → Bool → Nat → Payload → Prop

/-- Its response, with a property `R`: the bus has masked the address. -/
structure IsResponse (R : Property) (i : Nat) (reading : Bool) (w : Nat) (p : Payload) : Prop where
  status : p.responseStatus = .ok
  command : p.command = if reading then .read else .write
  address : p.address.toNat = 4 * w
  length : p.data.length = 4
  property : R i reading w p

/-! ## The thread's variables -/

/-- How many transactions the current loop has issued. -/
def Generator.issued (g : Generator) : Nat :=
  match g.point with
  | .send _ | .check false | .receive false => g.k + 1
  | .body | .check true | .receive true | .checkAll | .complete => g.k

/-- The generator is in the body of a loop. -/
def GeneratorPoint.inLoop : GeneratorPoint → Bool
  | .body | .send _ | .check false | .receive false => true
  | .check true | .receive true | .checkAll | .complete => false

structure Loops (g : Generator) : Prop where
  baseAddress1 : g.baseAddress1 = 0
  baseAddress2 : g.baseAddress2 = 0x10000000
  i_le : g.i ≤ 1
  k : if g.point.inLoop = true then g.k < 16 else g.k = 16
  memAddress : g.memAddress.toNat = g.i * 2 ^ 28 + 4 * g.issued
  complete : g.point = .complete → g.i = 1 ∧ g.reading = true

namespace Loops

variable {g : Generator}

theorem issued_le (h : Loops g) : g.issued ≤ 16 := by
  have hk := h.k
  unfold Generator.issued
  cases hp : g.point with
  | body | send | checkAll | complete =>
    simp only [hp, GeneratorPoint.inLoop, if_true] at hk ⊢
    first
    | omega
    | exact hk.le
  | check all | receive all =>
    cases all
    · simp only [hp, GeneratorPoint.inLoop, if_true] at hk ⊢
      omega
    · simp only [hp, GeneratorPoint.inLoop] at hk ⊢
      exact hk.le

theorem toNat_baseAddress (h : Loops g) : g.baseAddress.toNat = g.i * 2 ^ 28 := by
  have hle := h.i_le
  unfold Generator.baseAddress
  split_ifs with hi
  · have hone : g.i = 1 := by omega
    rw [h.baseAddress2, hone]
    rfl
  · have hzero : g.i = 0 := by omega
    rw [h.baseAddress1, hzero]
    rfl

/-- The thread goes to another point of the same iteration. -/
theorem setPoint (h : Loops g) {g' : Generator}
    (hg : g' = { g with
      point := g'.point
      checkAll := g'.checkAll
      activeTxnCount := g'.activeTxnCount
      transactionQueue := g'.transactionQueue })
    (hin : g'.point.inLoop = g.point.inLoop) (hissued : g'.issued = g.issued)
    (hcomplete : g'.point ≠ .complete) : Loops g' := by
  obtain ⟨hid, hbase1, hbase2, hi, hreading, hk, hmem⟩ : g'.id = g.id ∧
      g'.baseAddress1 = g.baseAddress1 ∧ g'.baseAddress2 = g.baseAddress2 ∧ g'.i = g.i ∧
      g'.reading = g.reading ∧ g'.k = g.k ∧ g'.memAddress = g.memAddress := by
    rw [hg]
    exact ⟨rfl, rfl, rfl, rfl, rfl, rfl, rfl⟩
  refine ⟨hbase1.trans h.baseAddress1, hbase2.trans h.baseAddress2, hi ▸ h.i_le, ?_, ?_,
    fun hp => absurd hp hcomplete⟩
  · rw [hin, hk]
    exact h.k
  · rw [hmem, hi, hissued]
    exact h.memAddress

/-- `check_complete` returns. -/
theorem checked (h : Loops g) (all : Bool) (hin : g.point.inLoop = !all)
    (hissued : g.issued = if all then g.k else g.k + 1) :
    Loops (g.checked all) ∧ (g.checked all).issued = g.issued := by
  have hk := h.k
  rw [hin] at hk
  have hsame : (g.checked all).issued = g.issued := by
    rw [hissued]
    cases all
    · by_cases hlt : g.k + 1 < 16 <;>
        simp [Generator.checked, Generator.nextIteration, Generator.issued, hlt]
    · rfl
  refine ⟨⟨?_, ?_, ?_, ?_, ?_, ?_⟩, hsame⟩
  · cases all <;> exact h.baseAddress1
  · cases all <;> exact h.baseAddress2
  · cases all <;> exact h.i_le
  · cases all
    · simp only [Bool.not_false, if_true] at hk
      by_cases hlt : g.k + 1 < 16
      · simp [Generator.checked, Generator.nextIteration, GeneratorPoint.inLoop, hlt]
      · simp [Generator.checked, Generator.nextIteration, GeneratorPoint.inLoop, hlt]
        omega
    · exact hk
  · rw [hsame]
    cases all <;> exact h.memAddress
  · cases all
    · simp only [Generator.checked, Generator.nextIteration]
      split_ifs <;> intro hp <;> cases hp
    · intro hp
      cases hp

/-- `check_all_complete` returns: the next loop starts at its base address. -/
theorem nextLoop (h : Loops g) (hp : g.point = .checkAll) :
    Loops g.nextLoop ∧
      (if g.nextLoop.point = .complete then
        g.nextLoop.i = g.i ∧ g.nextLoop.reading = g.reading ∧ g.nextLoop.issued = g.issued
      else 32 * g.nextLoop.i + (if g.nextLoop.reading then 16 else 0) =
          32 * g.i + (if g.reading then 16 else 0) + 16 ∧ g.nextLoop.issued = 0) := by
  have hk : g.k = 16 := by
    have hk := h.k
    rw [hp] at hk
    exact hk
  have hi := h.i_le
  have hissued : g.issued = 16 := by
    rw [Generator.issued, hp]
    exact hk
  have hmem := h.memAddress
  rw [hissued] at hmem
  unfold Generator.nextLoop
  dsimp only
  by_cases hr : g.reading = true
  · rw [if_pos hr]
    by_cases hlast : g.i + 1 < 2
    · have hzero : g.i = 0 := by omega
      rw [if_pos hlast]
      refine ⟨⟨h.baseAddress1, h.baseAddress2, ?_, ?_, ?_, ?_⟩, ?_⟩
      · show g.i + 1 ≤ 1
        omega
      · exact Nat.zero_lt_succ 15
      · show (if g.i + 1 ≠ 0 then g.baseAddress2 else g.baseAddress1).toNat =
          (g.i + 1) * 2 ^ 28 + 4 * 0
        rw [if_pos (Nat.succ_ne_zero g.i), h.baseAddress2, hzero]
        rfl
      · intro hc
        cases hc
      · rw [if_neg (by simp)]
        refine ⟨?_, rfl⟩
        simp only [hr, if_true, Bool.false_eq_true, if_false]
        omega
    · rw [if_neg hlast]
      have hone : g.i = 1 := by omega
      refine ⟨⟨h.baseAddress1, h.baseAddress2, hi, hk, ?_, fun _ => ⟨hone, hr⟩⟩, ?_⟩
      · show g.memAddress.toNat = g.i * 2 ^ 28 + 4 * g.k
        rw [hmem, hk]
      · rw [if_pos rfl]
        exact ⟨rfl, rfl, hk.trans hissued.symm⟩
  · rw [if_neg hr]
    refine ⟨⟨h.baseAddress1, h.baseAddress2, hi, Nat.zero_lt_succ 15, ?_, ?_⟩, ?_⟩
    · show g.baseAddress.toNat = g.i * 2 ^ 28 + 4 * 0
      rw [h.toNat_baseAddress, Nat.mul_zero, Nat.add_zero]
    · intro hc
      cases hc
    · rw [if_neg (by simp)]
      refine ⟨?_, rfl⟩
      simp only [hr, if_true, Bool.false_eq_true, if_false]

end Loops

/-! ## The transactions in flight -/

/-- How many calls of `b_transport` the initiator has made. -/
def InitiatorTop.callsMade (s : InitiatorTop) : Nat :=
  32 * s.gen.i + (if s.gen.reading then 16 else 0) + (s.gen.issued - s.untransported.length)

/-- The bus answers the request `t`, which is next, with its response. -/
def Answers (R : Property) (s : InitiatorTop) (t : Nat) (p : Payload) : Prop :=
  ∀ w, w < 16 → s.callsMade = 32 * s.gen.i + (if s.gen.reading then 16 else 0) + w →
    IsRequest s.gen.i s.gen.reading w (s.txn t).payload → IsResponse R s.gen.i s.gen.reading w p

structure Scheduled (R : Property) (s : InitiatorTop) : Prop where
  loops : Loops s.gen
  buffers : ∀ t, (s.txn t).payload.data.length = 4
  le : s.flight.length ≤ s.gen.issued
  responses : Numbered (fun w t => IsResponse R s.gen.i s.gen.reading w (s.txn t).payload)
    (s.gen.issued - s.flight.length) s.transportedTxns
  requests : Numbered (fun w t => IsRequest s.gen.i s.gen.reading w (s.txn t).payload)
    (s.gen.issued - s.untransported.length) s.untransported

theorem length_flight (s : InitiatorTop) :
    s.flight.length = s.transportedTxns.length + s.untransported.length :=
  List.length_append

@[simp] theorem i_checked (g : Generator) (all : Bool) : (g.checked all).i = g.i := by
  cases all <;> rfl

@[simp] theorem reading_checked (g : Generator) (all : Bool) :
    (g.checked all).reading = g.reading := by
  cases all <;> rfl

/-- What `check_complete` does to the generator. -/
theorem gen_received (s : InitiatorTop) (all : Bool) (t : Nat) (f : ScFifo Nat) :
    ∃ queue active, (s.received all t f).gen =
      ({ s.gen with transactionQueue := queue, activeTxnCount := active } : Generator).checked
        all := by
  simp only [InitiatorTop.received, InitiatorTop.release]
  split_ifs <;> exact ⟨_, _, rfl⟩

namespace Scheduled

variable {R : Property} {s s' : InitiatorTop}

/-- Nothing moves, and the thread stays in its iteration. -/
theorem quiet (h : Scheduled R s) (hloops : Loops s'.gen) (hi : s'.gen.i = s.gen.i)
    (hr : s'.gen.reading = s.gen.reading) (hissued : s'.gen.issued = s.gen.issued)
    (hsame : SamePlaces s s') (hx : s'.txn = s.txn) :
    Scheduled R s' ∧ s'.callsMade = s.callsMade := by
  refine ⟨⟨hloops, ?_, ?_, ?_, ?_⟩, ?_⟩
  · rw [hx]
    exact h.buffers
  · rw [hsame.flight, hissued]
    exact h.le
  · rw [hsame.flight, hissued, hsame.transported, hi, hr, hx]
    exact h.responses
  · rw [hissued, hsame.untransported, hi, hr, hx]
    exact h.requests
  · rw [InitiatorTop.callsMade, hi, hr, hissued, hsame.untransported]
    rfl

/-- The same, when the generator is not involved. -/
theorem quiet_of_gen (h : Scheduled R s) (hg : s'.gen = s.gen) (hsame : SamePlaces s s')
    (hx : s'.txn = s.txn) : Scheduled R s' ∧ s'.callsMade = s.callsMade :=
  h.quiet (hg ▸ h.loops) (by rw [hg]) (by rw [hg]) (by rw [hg]) hsame hx

/-- In the body of a loop, the word to be issued has the number `k`. -/
theorem issued_body (hp : s.gen.point = .body) : s.gen.issued = s.gen.k := by
  rw [Generator.issued, hp]

/-- The loop goes on to the next word. -/
theorem loops_issue (h : Loops s.gen) (hp : s.gen.point = .body) (t : Nat) (queue : List Nat) :
    Loops (s.issue t queue).gen := by
  have hk := h.k
  have hmem := h.memAddress
  have hi := h.i_le
  rw [hp] at hk
  rw [issued_body hp] at hmem
  have hlt : s.gen.k < 16 := hk
  refine ⟨h.baseAddress1, h.baseAddress2, hi, hk, ?_, ?_⟩
  · show (s.gen.memAddress + txnDataSize).toNat = s.gen.i * 2 ^ 28 + 4 * (s.gen.k + 1)
    rw [UInt64.toNat_add, hmem]
    show (s.gen.i * 2 ^ 28 + 4 * s.gen.k + 4) % 2 ^ 64 = _
    omega
  · intro hc
    cases hc

/-- The transaction taken from the pool becomes the request for that word. -/
theorem isRequest_issue (h : Scheduled R s) (hp : s.gen.point = .body) (t : Nat)
    (queue : List Nat) :
    IsRequest s.gen.i s.gen.reading s.gen.k ((s.issue t queue).txn t).payload := by
  have hmem := h.loops.memAddress
  rw [issued_body hp] at hmem
  have hself : ((s.issue t queue).txn t).payload =
      if s.gen.reading then readRequest (s.txn t).payload s.gen.memAddress
      else writeRequest (s.txn t).payload s.gen.memAddress s.gen.wData := by
    show (Function.update s.txn t _ t).payload = _
    rw [Function.update_self]
  have hdata : s.gen.wData = passWord s.gen.i s.gen.k := by
    have hto : s.gen.memAddress.toUInt32 = UInt32.ofNat (s.gen.i * 2 ^ 28 + 4 * s.gen.k) := by
      rw [← hmem, ← UInt32.toNat_inj, UInt64.toNat_toUInt32, UInt32.toNat_ofNat']
    unfold Generator.wData passWord
    rw [hto]
  rw [hself]
  cases hr : s.gen.reading
  · exact ⟨rfl, hmem, length_leBytes _ _, fun _ => by rw [← hdata]; rfl⟩
  · exact ⟨rfl, hmem, h.buffers t, fun hf => absurd hf (by simp)⟩

/-- A loop issues its next word. -/
theorem issue (hpool : Pool s) (h : Scheduled R s) {t : Nat} {queue : List Nat}
    (hp : s.gen.point = .body) (hq : s.gen.transactionQueue = t :: queue) :
    Scheduled R (s.issue t queue) ∧ (s.issue t queue).callsMade = s.callsMade := by
  have hrequest := h.isRequest_issue hp t queue
  have hissued := issued_body hp
  have hissued' : (s.issue t queue).gen.issued = s.gen.k + 1 := rfl
  have hunt : (s.issue t queue).untransported = s.untransported ++ [t] := untransported_issue hp
  have htr : (s.issue t queue).transportedTxns = s.transportedTxns := rfl
  have hflight : (s.issue t queue).flight.length = s.flight.length + 1 := by
    rw [length_flight, length_flight, htr, hunt, List.length_append, List.length_singleton,
      Nat.add_assoc]
  have hle := h.le
  have hlen := length_flight s
  rw [hissued] at hle
  -- the new request does not change the numbers of those in front of it
  have hnum : s.gen.k + 1 - (s.untransported.length + 1) =
      s.gen.issued - s.untransported.length := by
    rw [hissued]
    omega
  have hout : t ∉ s.flight := by
    have hnodup := hpool.nodup
    rw [hq] at hnodup
    exact fun hin => (List.nodup_cons.1 hnodup).1 (List.mem_append_right _ hin)
  have hother : ∀ u, u ≠ t → ((s.issue t queue).txn u) = s.txn u := fun u hu =>
    Function.update_of_ne hu _ _
  refine ⟨⟨loops_issue h.loops hp t queue, ?_, ?_, ?_, ?_⟩, ?_⟩
  · intro u
    by_cases hu : u = t
    · rw [hu]
      exact hrequest.length
    · rw [hother u hu]
      exact h.buffers u
  · rw [hflight, hissued']
    omega
  · have hfirst : s.gen.k + 1 - (s.flight.length + 1) = s.gen.issued - s.flight.length := by
      rw [hissued]
      omega
    rw [hissued', hflight, htr, hfirst]
    apply h.responses.imp
    intro w u hu hresp
    have hne : u ≠ t := fun heq => hout (heq ▸ List.mem_append_left _ hu)
    rw [hother u hne]
    exact hresp
  · rw [hissued', hunt, List.length_append, List.length_singleton, hnum, Numbered.concat]
    constructor
    · apply h.requests.imp
      intro w u hu hreq
      have hne : u ≠ t := fun heq => hout (heq ▸ List.mem_append_right _ hu)
      rw [hother u hne]
      exact hreq
    · have hlast : s.gen.issued - s.untransported.length + s.untransported.length = s.gen.k := by
        rw [hissued]
        omega
      rw [hlast]
      exact hrequest
  · rw [InitiatorTop.callsMade, hissued', hunt, List.length_append, List.length_singleton, hnum]
    rfl

/-- A response is received: the flight loses its oldest transaction. -/
theorem received (h : Scheduled R s) {all : Bool} {t : Nat} {f : ScFifo Nat}
    (hp : s.gen.point = .receive all) (hr : s.response.nbRead = some (t, f)) :
    Scheduled R (s.received all t f) ∧ (s.received all t f).callsMade = s.callsMade := by
  obtain ⟨htr, hunt⟩ := places_received all (by rw [hp]; rfl) hr
  have hpayload : ∀ u, ((s.received all t f).txn u).payload = (s.txn u).payload := by
    intro u
    rw [txn_received]
    by_cases hu : u = t
    · rw [hu, Function.update_self]
    · rw [Function.update_of_ne hu]
  obtain ⟨queue, active, hgen⟩ := gen_received s all t f
  have hpoint : Loops { s.gen with transactionQueue := queue, activeTxnCount := active } :=
    h.loops.setPoint rfl rfl rfl (by simp [hp])
  obtain ⟨hloops, hissued⟩ := hpoint.checked all (by simp only [hp]; cases all <;> rfl)
    (by simp only [Generator.issued, hp]; cases all <;> rfl)
  rw [← hgen] at hloops hissued
  have hissued : (s.received all t f).gen.issued = s.gen.issued := hissued
  have hi : (s.received all t f).gen.i = s.gen.i := by
    rw [hgen, i_checked]
  have hread : (s.received all t f).gen.reading = s.gen.reading := by
    rw [hgen, reading_checked]
  have hlen := length_flight s
  have hlen' := length_flight (s.received all t f)
  have hle := h.le
  have hresponses := h.responses
  rw [hunt] at hlen'
  rw [htr, List.length_cons] at hlen
  rw [htr, Numbered.cons] at hresponses
  refine ⟨⟨hloops, ?_, ?_, ?_, ?_⟩, ?_⟩
  · intro u
    rw [hpayload]
    exact h.buffers u
  · rw [hissued]
    omega
  · have hnum : s.gen.issued - s.flight.length + 1 =
        s.gen.issued - (s.received all t f).flight.length := by omega
    rw [hissued, ← hnum, hread, hi]
    exact hresponses.2.imp fun w u _ hw => by rw [hpayload]; exact hw
  · rw [hissued, hunt, hread, hi]
    exact h.requests.imp fun w u _ hw => by rw [hpayload]; exact hw
  · rw [InitiatorTop.callsMade, hi, hread, hissued, hunt]
    rfl

/-- The next loop starts with nothing in flight. -/
theorem nextLoop (h : Scheduled R s) (hp : s.gen.point = .checkAll) (hflight : s.flight = []) :
    Scheduled R (s.setGen s.gen.nextLoop) ∧
      (s.setGen s.gen.nextLoop).callsMade = s.callsMade := by
  have hsame : SamePlaces s (s.setGen s.gen.nextLoop) :=
    samePlaces_setGen (by rw [hp]; rfl) (sending_nextLoop _)
  obtain ⟨hloops, hnext⟩ := h.loops.nextLoop hp
  by_cases hc : s.gen.nextLoop.point = .complete
  · rw [if_pos hc] at hnext
    obtain ⟨hi, hr, hissued⟩ := hnext
    exact h.quiet hloops hi hr hissued hsame rfl
  · rw [if_neg hc] at hnext
    obtain ⟨hsum, hissued⟩ := hnext
    obtain ⟨htr, hunt⟩ := List.append_eq_nil_iff.1 hflight
    have hold : s.gen.issued = 16 := by
      have hk := h.loops.k
      rw [hp] at hk
      rw [Generator.issued, hp]
      exact hk
    refine ⟨⟨hloops, h.buffers, ?_, ?_, ?_⟩, ?_⟩
    · rw [hsame.flight, hflight]
      exact Nat.zero_le _
    · rw [hsame.transported, htr]
      exact Numbered.nil
    · rw [hsame.untransported, hunt]
      exact Numbered.nil
    · rw [InitiatorTop.callsMade, InitiatorTop.callsMade, hsame.untransported, hunt, hold,
        List.length_nil]
      show 32 * s.gen.nextLoop.i + (if s.gen.nextLoop.reading then 16 else 0) +
        (s.gen.nextLoop.issued - 0) = _
      rw [hissued, hsum]

/-- The oldest request is served: its response is the youngest. -/
theorem take (hpool : Pool s) (h : Scheduled R s) {t now : Nat} {p : Payload} {delay : ScTime}
    {f : ScFifo Nat} (hi : s.initiator = .reading) (hr : s.request.nbRead = some (t, f))
    (hbus : Answers R s t p) :
    Scheduled R ({ s with request := f }.transported t now p delay) ∧
      ({ s with request := f }.transported t now p delay).callsMade = s.callsMade + 1 := by
  obtain ⟨htr, hunt⟩ := places_take now p delay hi hr
  obtain ⟨hgen, -, -, -, hx⟩ :=
    InitiatorTop.transported_fields { s with request := f } t now p delay
  dsimp only at hgen hx
  generalize { s with request := f }.transported t now p delay = s' at *
  have hlen := length_flight s
  have hlen' := length_flight s'
  have hle := h.le
  have hissued := h.loops.issued_le
  have hrequests := h.requests
  have hnodup := (List.nodup_append.1 hpool.nodup).2.1
  rw [htr, List.length_append, List.length_singleton] at hlen'
  rw [hunt, List.length_cons] at hlen
  rw [InitiatorTop.flight, hunt] at hnodup
  rw [hunt, List.length_cons, Numbered.cons] at hrequests
  have hout : t ∉ s.transportedTxns ++ s'.untransported :=
    (List.nodup_cons.1 ((List.perm_middle.nodup_iff).1 hnodup)).1
  rw [List.mem_append, not_or] at hout
  have hother : ∀ u, u ≠ t → s'.txn u = s.txn u := fun u hu => by
    rw [hx, Function.update_of_ne hu]
  have hcount : s.callsMade = 32 * s.gen.i + (if s.gen.reading then 16 else 0) +
      (s.gen.issued - (s'.untransported.length + 1)) := by
    rw [InitiatorTop.callsMade, hunt, List.length_cons]
  have hresponse : IsResponse R s.gen.i s.gen.reading (s.gen.issued - (s'.untransported.length + 1))
      (s'.txn t).payload := by
    rw [hx, Function.update_self]
    exact hbus _ (by omega) hcount hrequests.1
  refine ⟨⟨hgen ▸ h.loops, ?_, ?_, ?_, ?_⟩, ?_⟩
  · intro u
    by_cases hu : u = t
    · rw [hu]
      exact hresponse.length
    · rw [hother u hu]
      exact h.buffers u
  · rw [hgen]
    omega
  · have hnum : s.gen.issued - s'.flight.length = s.gen.issued - s.flight.length := by omega
    have hlast : s.gen.issued - s.flight.length + s.transportedTxns.length =
        s.gen.issued - (s'.untransported.length + 1) := by omega
    rw [hgen, hnum, htr, Numbered.concat, hlast]
    refine ⟨h.responses.imp ?_, hresponse⟩
    intro w u hu hw
    have hne : u ≠ t := fun heq => hout.1 (heq ▸ hu)
    rw [hother u hne]
    exact hw
  · have hnum : s.gen.issued - (s'.untransported.length + 1) + 1 =
        s.gen.issued - s'.untransported.length := by omega
    rw [hgen, ← hnum]
    apply hrequests.2.imp
    intro w u hu hw
    have hne : u ≠ t := fun heq => hout.2 (heq ▸ hu)
    rw [hother u hne]
    exact hw
  · rw [InitiatorTop.callsMade, InitiatorTop.callsMade, hgen, hunt, List.length_cons]
    omega

/-- The request that the initiator is about to read is the word that the number of calls tells. -/
theorem next (h : Scheduled R s) {t : Nat} {f : ScFifo Nat}
    (hr : s.request.nbRead = some (t, f)) :
    ∃ w, w < 16 ∧ IsRequest s.gen.i s.gen.reading w (s.txn t).payload ∧
      s.callsMade = 32 * s.gen.i + (if s.gen.reading then 16 else 0) + w := by
  have hunt : s.untransported = t :: (f.contents ++ s.gen.point.sending) := by
    rw [InitiatorTop.untransported, (ScFifo.nbRead_eq_some hr).2, List.cons_append]
  have hrequests := h.requests
  have hissued := h.loops.issued_le
  have hlen := length_flight s
  have hle := h.le
  rw [hunt] at hrequests hlen
  rw [List.length_cons] at hrequests hlen
  rw [Numbered.cons] at hrequests
  refine ⟨_, by omega, hrequests.1, ?_⟩
  rw [InitiatorTop.callsMade, hunt, List.length_cons]

end Scheduled

/-- The number of calls of `b_transport` in a step. -/
def TopEvent.calls : TopEvent → Nat
  | .take .. => 1
  | _ => 0

/-- **What a step does to the schedule.** -/
theorem Scheduled.stepped {R : Property} {s s' : InitiatorTop} {e : TopEvent} (hc : Conserved s)
    (h : Scheduled R s) (hs : Stepped s e s')
    (hbus : ∀ now p delay t f, e = .take now p delay → s.request.nbRead = some (t, f) →
      Answers R s t p) :
    Scheduled R s' ∧ s'.callsMade = s.callsMade + e.calls := by
  cases hs with
  | skip hp hq =>
    have hpoint := hc.point
    rw [PointOk, hp] at hpoint
    exact absurd hq hpoint
  | issue hp hq => exact h.issue hc.pool hp hq
  | send hp hw =>
    exact h.quiet (h.loops.setPoint rfl (by rw [hp]; rfl) (by simp only [Generator.issued, hp])
      (by simp)) rfl rfl (by simp only [Generator.issued, hp]) (samePlaces_send hp hw rfl) rfl
  | @enter all hp =>
    have hissued : ({ s.gen with point := .receive all } : Generator).issued = s.gen.issued := by
      simp only [Generator.issued, hp]
      cases all <;> rfl
    exact h.quiet (h.loops.setPoint rfl (by rw [hp]; cases all <;> rfl) hissued
      (by intro hend; cases hend)) rfl rfl
      hissued (samePlaces_setGen (by rw [hp]; rfl) rfl) rfl
  | @leave all hp hq hall =>
    obtain ⟨hloops, hissued⟩ := h.loops.checked all (by rw [hp]; cases all <;> rfl)
      (by simp only [Generator.issued, hp]; cases all <;> rfl)
    exact h.quiet hloops (i_checked _ _) (reading_checked _ _) hissued
      (samePlaces_setGen (by rw [hp]; rfl) (sending_checked _ _)) rfl
  | receive hp hr hok => exact h.received hp hr
  | more hp ha =>
    have hissued : ({ s.gen with checkAll := true, point := .check true } : Generator).issued =
        s.gen.issued := by
      simp only [Generator.issued, hp]
    exact h.quiet (h.loops.setPoint rfl (by rw [hp]; rfl) hissued
      (by intro hend; cases hend)) rfl rfl hissued
      (samePlaces_setGen (by rw [hp]; rfl) rfl) rfl
  | done hp ha =>
    refine h.nextLoop hp (List.length_eq_zero_iff.1 ?_)
    rw [← hc.pool.active, ha]
    rfl
  | take hi hr => exact h.take hc.pool hi hr (hbus _ _ _ _ _ rfl hr)
  | wake hi ht => exact h.quiet_of_gen rfl (samePlaces_wake hi) rfl
  | respond hi hw => exact h.quiet_of_gen rfl (samePlaces_respond hi hw) rfl
  | updateRequest hp => exact h.quiet_of_gen rfl samePlaces_updateRequest rfl
  | updateResponse hp => exact h.quiet_of_gen rfl samePlaces_updateResponse rfl

end RenodeSystemC.Lt
