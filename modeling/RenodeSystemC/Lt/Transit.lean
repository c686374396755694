import RenodeSystemC.Lib.BaseProtocol
import RenodeSystemC.Lt.SimpleBusAT

/-!
# The way of a transaction through the bus

What an approximately-timed bus is for, from the point of view of one transaction: its request goes
to the target that its address names, the answer goes back to the initiator that sent it, and the
end of the response goes on to the target if that has not completed the transaction. Nothing is
passed on before the time it is annotated for.

An initiator takes time to end a response: it ends it for a later time than that at which it began.

**Theorem (`upstream_keeps`, `downstream_keeps`).** A transaction that goes this way keeps to the
base protocol, both between its initiator and the bus and between the bus and its target.
-/

namespace RenodeSystemC.SimpleBusAT

open Lt (decode getAddressMask)

variable {m n : Nat}

/-! ## The automaton -/

/-- How far a transaction is on its way. -/
inductive Stage (m n : Nat) where
  | idle
  /-- The initiator has sent `BEGIN_REQ`, for the time `due`. -/
  | queued (id : Fin m) (port : Fin n) (address : UInt64) (due : Nat)
  /-- The target has been sent `BEGIN_REQ`, and has sent `END_REQ` for the time `taken`, if at all;
  `told` if the initiator has been sent `END_REQ`. -/
  | requested (id : Fin m) (port : Fin n) (taken : Option Nat) (told : Bool)
  /-- The target, `to_`, has sent `BEGIN_RESP`, or has completed the transaction, for the time
  `due`. -/
  | answered (id : Fin m) (to_ : Option (Fin n)) (due : Nat) (told : Bool)
  /-- The initiator has been sent `BEGIN_RESP`, at the time `since`. -/
  | responding (id : Fin m) (to_ : Option (Fin n)) (since : Nat)
  /-- The initiator has ended the response, for the time `due`; `told` if the target has been sent
  `END_RESP`. -/
  | ended (to_ : Option (Fin n)) (since due : Nat) (told : Bool)
  deriving DecidableEq

/-- What happens to one transaction. -/
inductive Letter (m n : Nat) where
  | initiator (id : Fin m) (call : Call) (time : Nat)
  | target (port : Fin n) (call : Call) (time : Nat)
  | release
  deriving DecidableEq

def Stage.next : Stage m n → Letter m n → Option (Stage m n)
  | .idle, .initiator id (.beginReq address) time =>
    if h : (decode address).toNat < n then some (.queued id ⟨_, h⟩ address time) else none
  | .queued id port address due, .target port' (.beginReq address') time =>
    if port' = port ∧ address' = address &&& getAddressMask (decode address) ∧ due ≤ time then
      some (.requested id port none false)
    else none
  | .requested id port taken told, .target port' .endReq time =>
    if port' = port ∧ taken = none then some (.requested id port (some time) told) else none
  | .requested id port taken told, .target port' .beginResp time =>
    if port' = port ∧ taken.all (· ≤ time) = true then some (.answered id port time told) else none
  | .requested id port taken told, .target port' .completed time =>
    if port' = port ∧ taken = none ∧ told = false then some (.answered id none time told) else none
  | .requested id port taken told, .initiator id' .endReq _ =>
    if id' = id ∧ told = false then some (.requested id port taken true) else none
  | .answered id to_ due told, .initiator id' .endReq _ =>
    if id' = id ∧ told = false then some (.answered id to_ due true) else none
  | .answered id to_ due _, .initiator id' .beginResp time =>
    if id' = id ∧ due ≤ time then some (.responding id to_ time) else none
  | .responding id to_ since, .initiator id' call time =>
    if id' = id ∧ (call = .endResp ∨ call = .completed) ∧ since < time then
      some (.ended to_ since time false)
    else none
  | .ended to_ since due told, .target port .endResp time =>
    if to_ = some port ∧ told = false ∧ due ≤ time then some (.ended to_ since due true) else none
  | .ended to_ _ _ told, .release => if to_ = none ∨ told = true then some .idle else none
  | _, _ => none

/-! ## Traces -/

def Output.letter (k : Nat) : Output m n → Option (Letter m n)
  | .initiator id txn call time => if txn = k then some (.initiator id call time) else none
  | .target port txn call time => if txn = k then some (.target port call time) else none
  | .release txn => if txn = k then some .release else none
  | .failed _ => none

/-- What has happened to a transaction. -/
def word (k : Nat) (tr : List (Output m n)) : List (Letter m n) := tr.filterMap (Output.letter k)

/-- How far it is; none if it has left the way. -/
def stage (k : Nat) (tr : List (Output m n)) : Option (Stage m n) :=
  after Stage.next .idle (word k tr)

theorem stage_concat_some {k : Nat} {tr : List (Output m n)} {o : Output m n} {x : Letter m n}
    {st st' : Stage m n} (ho : o.letter k = some x) (hst : stage k tr = some st)
    (hnext : st.next x = some st') : stage k (tr ++ [o]) = some st' := by
  have hword : word k (tr ++ [o]) = word k tr ++ [x] := by
    rw [word, List.filterMap_append]
    simp [word, ho]
  have hafter : after Stage.next .idle (word k tr) = some st := hst
  rw [stage, hword, after_concat, hafter]
  exact hnext

theorem stage_concat_none {k : Nat} {tr : List (Output m n)} {o : Output m n}
    (ho : o.letter k = none) : stage k (tr ++ [o]) = stage k tr := by
  have hword : word k (tr ++ [o]) = word k tr := by
    rw [word, List.filterMap_append]
    simp [word, ho]
  rw [stage, hword]
  rfl

/-- The next thing to happen to the transaction may be `x`. -/
def Takes (tr : List (Output m n)) (k : Nat) (x : Letter m n) : Prop :=
  ((stage k tr).bind fun st => st.next x).isSome = true

instance (tr : List (Output m n)) (k : Nat) (x : Letter m n) : Decidable (Takes tr k x) :=
  inferInstanceAs (Decidable (_ = _))

/-! ## The hops -/

def Call.transition : Call → Transition
  | .beginReq _ => .beginReq
  | .endReq => .endReq
  | .beginResp => .beginResp
  | .endResp => .endResp
  | .completed => .completed

def Letter.upstream : Letter m n → Option Transition
  | .initiator _ call _ => some call.transition
  | _ => none

def Letter.downstream : Letter m n → Option Transition
  | .target _ call _ => some call.transition
  | _ => none

/-- What the initiator sees of the transaction. -/
def Stage.upstream : Stage m n → HopPhase
  | .idle | .ended .. => .idle
  | .queued .. => .requesting
  | .requested _ _ _ told | .answered _ _ _ told => if told then .accepted else .requesting
  | .responding .. => .responding

/-- What the target sees of it. -/
def Stage.downstream : Stage m n → HopPhase
  | .idle | .queued .. => .idle
  | .requested _ _ taken _ => if taken.isSome then .accepted else .requesting
  | .answered _ to_ _ _ | .responding _ to_ _ => if to_.isSome then .responding else .idle
  | .ended to_ _ _ told => if to_.isSome && !told then .responding else .idle

theorem upstream_abstracts :
    Abstracts Stage.upstream Letter.upstream (Stage.next (m := m) (n := n)) HopPhase.next := by
  intro st x st' h
  cases x with
  | release =>
    cases st <;> simp [Stage.next, Letter.upstream] at h ⊢
    grind [Stage.upstream]
  | target port call time =>
    cases st <;> cases call <;> simp [Stage.next, Letter.upstream] at h ⊢ <;> grind [Stage.upstream]
  | initiator id call time =>
    cases st <;> cases call <;> simp [Stage.next, Letter.upstream, Call.transition] at h ⊢ <;>
      grind [Stage.upstream, HopPhase.next]

theorem downstream_abstracts :
    Abstracts Stage.downstream Letter.downstream (Stage.next (m := m) (n := n)) HopPhase.next := by
  intro st x st' h
  cases x with
  | release =>
    cases st <;> simp [Stage.next, Letter.downstream] at h ⊢
    grind [Stage.downstream]
  | initiator id call time =>
    cases st <;> cases call <;> simp [Stage.next, Letter.downstream] at h ⊢ <;>
      grind [Stage.downstream]
  | target port call time =>
    cases st <;> cases call <;> simp [Stage.next, Letter.downstream, Call.transition] at h ⊢ <;>
      grind [Stage.downstream, HopPhase.next]

/-- The transitions of a transaction at its initiator. -/
def upstream (k : Nat) (tr : List (Output m n)) : List Transition :=
  (word k tr).filterMap Letter.upstream

/-- The transitions of a transaction at its target. -/
def downstream (k : Nat) (tr : List (Output m n)) : List Transition :=
  (word k tr).filterMap Letter.downstream

theorem upstream_keeps {k : Nat} {tr : List (Output m n)} {st : Stage m n}
    (h : stage k tr = some st) : KeepsBaseProtocol (upstream k tr) := by
  have hafter := upstream_abstracts.after h
  unfold KeepsBaseProtocol upstream
  rw [show HopPhase.idle = (Stage.idle : Stage m n).upstream from rfl, hafter]
  rfl

theorem downstream_keeps {k : Nat} {tr : List (Output m n)} {st : Stage m n}
    (h : stage k tr = some st) : KeepsBaseProtocol (downstream k tr) := by
  have hafter := downstream_abstracts.after h
  unfold KeepsBaseProtocol downstream
  rw [show HopPhase.idle = (Stage.idle : Stage m n).downstream from rfl, hafter]
  rfl

/-! ## What initiators and targets do -/

section Callers

variable {st st' : Stage m n} {id : Fin m} {port : Fin n} {time : Nat}

theorem next_beginReq {address : UInt64}
    (h : st.next (.initiator id (.beginReq address) time) = some st') :
    st = .idle ∧ ∃ port : Fin n, port.val = (decode address).toNat ∧
      st' = .queued id port address time := by
  cases st <;> simp [Stage.next] at h
  obtain ⟨hport, hst⟩ := h
  exact ⟨rfl, ⟨_, hport⟩, rfl, hst.symm⟩

theorem next_targetEndReq (h : st.next (.target port .endReq time) = some st') :
    ∃ id told, st = .requested id port none told ∧
      st' = .requested id port (some time) told := by
  cases st <;> simp [Stage.next] at h
  obtain ⟨⟨hport, htaken⟩, hst⟩ := h
  exact ⟨_, _, by rw [hport, htaken], by rw [← hst, hport]⟩

theorem next_targetBeginResp (h : st.next (.target port .beginResp time) = some st') :
    ∃ id taken told, st = .requested id port taken told ∧ (∀ u, taken = some u → u ≤ time) ∧
      st' = .answered id (some port) time told := by
  cases st with
  | requested id' port' taken told =>
    simp only [Stage.next] at h
    split_ifs at h with hcond
    obtain ⟨hport, htaken⟩ := hcond
    refine ⟨id', taken, told, by rw [hport], ?_, by rw [hport]; exact (Option.some.inj h).symm⟩
    intro u hu
    rw [hu] at htaken
    simpa using htaken
  | _ => simp [Stage.next] at h

theorem next_targetCompleted (h : st.next (.target port .completed time) = some st') :
    ∃ id, st = .requested id port none false ∧ st' = .answered id none time false := by
  cases st <;> simp [Stage.next] at h
  obtain ⟨⟨hport, htaken, htold⟩, hst⟩ := h
  exact ⟨_, by rw [hport, htaken, htold], by rw [← hst, htold]⟩

/-- The initiator ends a response in either of two ways. -/
theorem next_ended {call : Call} (hcall : call = .endResp ∨ call = .completed)
    (h : st.next (.initiator id call time) = some st') :
    ∃ to_ since, st = .responding id to_ since ∧ since < time ∧
      st' = .ended to_ since time false := by
  cases st with
  | responding id' to_ since =>
    simp only [Stage.next] at h
    split_ifs at h with hcond
    obtain ⟨hid, -, hlt⟩ := hcond
    exact ⟨to_, since, by rw [hid], hlt, (Option.some.inj h).symm⟩
  | _ => rcases hcall with rfl | rfl <;> simp [Stage.next] at h

end Callers

end RenodeSystemC.SimpleBusAT
