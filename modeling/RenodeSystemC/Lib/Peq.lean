import Mathlib.Data.List.Sort
import Mathlib.Data.List.Perm.Basic

/-!
# Payload event queues

A queue of entries in the order of the times they are due. A new entry goes behind those that are
due no later, so the queue is the stable sort of what was put into it (`StableSort`), and it stays
one together with what has been taken from its front, if nothing is put in that is due earlier.

A queue wakes its reader through one event. An event has at most one pending notification, and of
two the earlier one stays: whoever counts on a wakeup by a certain time still gets one by then when
somebody else notifies the event (`WakesBy.notify`).
-/

namespace RenodeSystemC

/-- An entry, with the time it is due at. -/
structure Timed (τ α : Type*) where
  due : τ
  entry : α
  deriving DecidableEq

/-! ## Queues in due order -/

section Schedule

variable {τ α : Type*} [LinearOrder τ]

/-- Insert an entry behind those that are due no later. -/
def schedule (x : Timed τ α) (l : List (Timed τ α)) : List (Timed τ α) :=
  l.orderedInsert (fun a b => a.due < b.due) x

/-- `l` is `m` sorted by due times, with entries due at the same time in their order in `m`. -/
structure StableSort (m l : List (Timed τ α)) : Prop where
  inOrder : l.Pairwise fun a b => a.due ≤ b.due
  ties : ∀ d, l.filter (fun x => x.due = d) = m.filter fun x => x.due = d

variable {x y : Timed τ α} {l m : List (Timed τ α)}

theorem schedule_cons :
    schedule x (y :: l) = if x.due < y.due then x :: y :: l else y :: schedule x l := rfl

theorem mem_schedule : y ∈ schedule x l ↔ y = x ∨ y ∈ l := List.mem_orderedInsert _

/-- Entries that are due no later stay in front. -/
theorem append_schedule (h : ∀ y ∈ l, y.due ≤ x.due) :
    l ++ schedule x m = schedule x (l ++ m) := by
  induction l with
  | nil => rfl
  | cons y l ih =>
    obtain ⟨hy, hl⟩ := List.forall_mem_cons.1 h
    rw [List.cons_append, ih hl, List.cons_append, schedule_cons, if_neg hy.not_gt]

theorem pairwise_schedule (h : l.Pairwise fun a b => a.due ≤ b.due) :
    (schedule x l).Pairwise fun a b => a.due ≤ b.due := by
  induction l with
  | nil => exact List.pairwise_singleton _ _
  | cons y l ih =>
    obtain ⟨hy, hl⟩ := List.pairwise_cons.1 h
    rw [schedule_cons]
    split_ifs with hlt
    · refine List.pairwise_cons.2 ⟨?_, h⟩
      intro z hz
      rcases List.mem_cons.1 hz with rfl | hz
      · exact hlt.le
      · exact hlt.le.trans (hy z hz)
    · refine List.pairwise_cons.2 ⟨?_, ih hl⟩
      intro z hz
      rcases mem_schedule.1 hz with rfl | hz
      · exact not_lt.1 hlt
      · exact hy z hz

/-- In an ordered queue, a new entry comes last among those that are due at the same time. -/
theorem filter_schedule (h : l.Pairwise fun a b => a.due ≤ b.due) (d : τ) :
    (schedule x l).filter (fun y => y.due = d) = (l ++ [x]).filter fun y => y.due = d := by
  induction l with
  | nil => rfl
  | cons y l ih =>
    obtain ⟨hy, hl⟩ := List.pairwise_cons.1 h
    rw [schedule_cons]
    split_ifs with hlt
    · -- what is behind the new entry is due later
      by_cases hd : x.due = d
      · have hnone : (y :: l).filter (fun y => y.due = d) = [] := by
          rw [List.filter_eq_nil_iff]
          intro z hz
          have hz' : x.due < z.due := by
            rcases List.mem_cons.1 hz with rfl | hz
            · exact hlt
            · exact hlt.trans_le (hy z hz)
          simpa using (hd ▸ hz').ne'
        have hx : [x].filter (fun y => y.due = d) = [x] :=
          List.filter_cons_of_pos (by simpa using hd)
        rw [List.filter_append, hnone, hx, List.filter_cons_of_pos (by simpa using hd), hnone,
          List.nil_append]
      · have hx : [x].filter (fun y => y.due = d) = [] :=
          List.filter_cons_of_neg (by simpa using hd)
        rw [List.filter_append, hx, List.append_nil, List.filter_cons_of_neg (by simpa using hd)]
    · rw [List.cons_append, List.filter_cons, List.filter_cons, ih hl]

namespace StableSort

theorem nil : StableSort ([] : List (Timed τ α)) [] := ⟨List.Pairwise.nil, fun _ => rfl⟩

/-- **One entry more.** -/
theorem concat (h : StableSort m l) (x : Timed τ α) : StableSort (m ++ [x]) (schedule x l) := by
  refine ⟨pairwise_schedule h.inOrder, ?_⟩
  intro d
  rw [filter_schedule h.inOrder, List.filter_append, h.ties, List.filter_append]

/-- Nothing is lost or duplicated. -/
theorem perm (h : StableSort m l) : l.Perm m := by
  classical
  rw [List.perm_iff_count]
  intro x
  have hcount (k : List (Timed τ α)) : (k.filter fun y => y.due = x.due).count x = k.count x :=
    List.count_filter (by simp)
  rw [← hcount l, ← hcount m, h.ties]

end StableSort

end Schedule

/-! ## Events -/

/-- The pending notification of an event. -/
inductive Notification (τ : Type*) where
  | none
  /-- In the next delta cycle. -/
  | delta
  | timed (t : τ)
  deriving DecidableEq

namespace Notification

variable {τ : Type*} [LinearOrder τ] {n : Notification τ} {now t d : τ}

/-- `notify` for the time `t`. A delta notification overrides a timed one, and of two timed ones the
earlier stays. -/
def notify (n : Notification τ) (now t : τ) : Notification τ :=
  if t ≤ now then .delta
  else
    match n with
    | .none => .timed t
    | .delta => .delta
    | .timed u => .timed (min u t)

/-- The event is notified at `d` or before. -/
def WakesBy (now d : τ) : Notification τ → Prop
  | .none => False
  | .delta => now ≤ d
  | .timed t => t ≤ d

/-- A timed notification is still to come. -/
def Pending (now : τ) : Notification τ → Prop
  | .timed t => now < t
  | _ => True

theorem wakesBy_notify (h : now ≤ t) : (n.notify now t).WakesBy now t := by
  unfold notify
  split_ifs
  · exact h
  · cases n with
    | none => exact le_rfl
    | delta => exact h
    | timed u => exact min_le_right u t

theorem WakesBy.mono {d' : τ} (h : n.WakesBy now d) (hd : d ≤ d') : n.WakesBy now d' := by
  cases n with
  | none => exact h
  | delta | timed => exact le_trans h hd

/-- **Notifying the event again loses no wakeup.** -/
theorem WakesBy.notify (h : n.WakesBy now d) (hd : now ≤ d) : (n.notify now t).WakesBy now d := by
  unfold Notification.notify
  split_ifs
  · exact hd
  · cases n with
    | none => exact absurd h id
    | delta => exact hd
    | timed u => exact (min_le_left u t).trans h

theorem Pending.notify (h : n.Pending now) : (n.notify now t).Pending now := by
  unfold Notification.notify
  split_ifs with ht
  · trivial
  · cases n with
    | none => exact not_le.1 ht
    | delta => trivial
    | timed u => exact lt_min h (not_le.1 ht)

/-- Only a delta notification stays or becomes one when the event is notified for a later time. -/
theorem notify_eq_delta_iff (h : now < t) : n.notify now t = .delta ↔ n = .delta := by
  unfold notify
  rw [if_neg (not_le.2 h)]
  cases n <;> simp

end Notification

/-! ## `peq_with_get` -/

/-- What `get_next_transaction` returns: a transaction, or null after notifying the event for a
later time, if at all. -/
inductive NextTransaction (σ α : Type*) where
  | transaction (trans : α) (queue : σ)
  | null (queue : σ) (notified : Option Nat)

/-- `peq_with_get`, in any implementation that keeps its transactions in due order. Its event
belongs to the module that waits for it. -/
structure PeqWithGet (α : Type*) where
  Queue : Type
  empty : Queue
  /-- `notify` at the time `now`, for `delay` later. -/
  notify (now : Nat) (queue : Queue) (trans : α) (delay : Nat) : Queue
  /-- `get_next_transaction` at the time `now`; the times it notifies the event for count from
  then. -/
  getNextTransaction (now : Nat) (queue : Queue) : NextTransaction Queue α
  /-- The transactions in the queue. -/
  scheduled : Queue → List (Timed Nat α)
  scheduled_empty : scheduled empty = []
  scheduled_notify (now : Nat) (queue : Queue) (trans : α) (delay : Nat) :
    scheduled (notify now queue trans delay) = schedule ⟨now + delay, trans⟩ (scheduled queue)
  getNextTransaction_nil (now : Nat) {queue : Queue} : scheduled queue = [] →
    ∃ queue', getNextTransaction now queue = .null queue' none ∧ scheduled queue' = []
  getNextTransaction_due {now d : Nat} {queue : Queue} {trans : α} {rest : List (Timed Nat α)} :
    scheduled queue = ⟨d, trans⟩ :: rest → d ≤ now →
      ∃ queue', getNextTransaction now queue = .transaction trans queue' ∧ scheduled queue' = rest
  getNextTransaction_early {now d : Nat} {queue : Queue} {trans : α} {rest : List (Timed Nat α)} :
    scheduled queue = ⟨d, trans⟩ :: rest → now < d →
      ∃ queue', getNextTransaction now queue = .null queue' (some (d - now)) ∧
        scheduled queue' = scheduled queue

namespace PeqWithGet

variable {α : Type*}

def multimapNext (now : Nat) : List (Timed Nat α) → NextTransaction (List (Timed Nat α)) α
  | [] => .null [] none
  | x :: rest =>
    if x.due ≤ now then .transaction x.entry rest else .null (x :: rest) (some (x.due - now))

/-- The implementation with a `multimap` from times to transactions. -/
def multimap (α : Type) : PeqWithGet α where
  Queue := List (Timed Nat α)
  empty := []
  notify now queue trans delay := schedule ⟨now + delay, trans⟩ queue
  getNextTransaction := multimapNext
  scheduled := id
  scheduled_empty := rfl
  scheduled_notify _ _ _ _ := rfl
  getNextTransaction_nil _ {_} h := ⟨[], by rw [id] at h; rw [h]; exact ⟨rfl, rfl⟩⟩
  getNextTransaction_due {_ _ _ _ rest} h hd :=
    ⟨rest, by rw [id] at h; rw [h, multimapNext, if_pos hd], rfl⟩
  getNextTransaction_early {_ _ queue _ _} h hd :=
    ⟨queue, by rw [id] at h; rw [h, multimapNext, if_neg (Nat.not_le.2 hd)], rfl⟩

end PeqWithGet

end RenodeSystemC
