import Mathlib.Algebra.BigOperators.Fin
import RenodeSystemC.Lt.Platform

/-!
# The generators finish

Each operation of a thread or a channel lowers a rank of its `initiator_top`: what is left of the
program, and how far each transaction still has to go. A transaction in a channel also pays for the
update phases that its write and its read ask for.

**Theorem (`generators_finish`).** A simulation that has not been stopped can always go on, only a
report stops it, and every run of more than 4802621 steps of the platform that is not stopped has
both generators complete, with at most 2621 operations of threads and channels.
-/

namespace RenodeSystemC.Lt

/-! ## The rank -/

/-- The operations left in an iteration, and in the reading of responses. -/
def GeneratorPoint.weight : GeneratorPoint → Nat
  | .send _ => 17
  | .check false => 4
  | .receive false | .checkAll => 3
  | .check true => 2
  | .receive true => 1
  | .body | .complete => 0

/-- The loops and the iterations that have not begun. -/
def Generator.rank (g : Generator) : Nat :=
  330 * (3 - (2 * g.i + if g.reading then 1 else 0)) + 20 * (16 - g.issued) + g.point.weight

def InitiatorPoint.weight : InitiatorPoint → Nat
  | .reading => 0
  | .waiting .. => 8
  | .responding _ => 7

/-- What the next update phase of the channel handles. -/
def unsettled (f : ScFifo Nat) : Nat := f.written.length + f.numRead

def InitiatorTop.rank (s : InitiatorTop) : Nat :=
  s.gen.rank + (10 * s.request.contents.length + unsettled s.request) + s.initiator.weight +
    (5 * s.response.contents.length + unsettled s.response)

section Fifo

variable {f f' : ScFifo Nat} {t : Nat}

theorem unsettled_nbWrite (h : f.nbWrite t = some f') :
    f'.contents.length = f.contents.length + 1 ∧ unsettled f' = unsettled f + 1 := by
  obtain ⟨-, hnum, hwritten⟩ := ScFifo.nbWrite_cells h
  rw [(ScFifo.nbWrite_eq_some h).2, unsettled, unsettled, hnum, hwritten, List.length_append,
    List.length_append, List.length_singleton, Nat.add_right_comm]
  exact ⟨rfl, rfl⟩

theorem unsettled_nbRead (h : f.nbRead = some (t, f')) :
    f.contents.length = f'.contents.length + 1 ∧ unsettled f' = unsettled f + 1 := by
  obtain ⟨-, hnum, hwritten⟩ := ScFifo.nbRead_cells h
  rw [(ScFifo.nbRead_eq_some h).2, unsettled, unsettled, hnum, hwritten, List.length_cons]
  omega

/-- An update phase that is due settles something. -/
theorem unsettled_update (h : InitiatorTop.pending f = true) :
    f.update.contents.length = f.contents.length ∧ unsettled f.update < unsettled f := by
  refine ⟨congrArg List.length (ScFifo.contents_update f), ?_⟩
  rw [InitiatorTop.pending, ScFifo.dataWritten, Bool.or_eq_true, Bool.not_eq_true',
    decide_eq_true_eq] at h
  show 0 + 0 < f.written.length + f.numRead
  rcases h with hwritten | hnum
  · have hpos : 0 < f.written.length := by
      rw [List.length_pos_iff]
      intro hnil
      rw [hnil] at hwritten
      cases hwritten
    omega
  · omega

end Fifo

/-! ## A step lowers the rank -/

/-- `check_all_complete` makes `check_complete` wait for a response. -/
def Insists (s : InitiatorTop) : Prop := s.gen.point = .check true → s.gen.checkAll = true

theorem weight_checked (g : Generator) (all : Bool) : (g.checked all).point.weight ≤ 3 := by
  cases all
  · simp only [Generator.checked, Generator.nextIteration]
    split_ifs <;> simp [GeneratorPoint.weight]
  · exact Nat.le_refl 3

theorem point_checked_ne {g : Generator} {all all' : Bool}
    (hp : (g.checked all).point = .check all') : False := by
  cases all
  · simp only [Generator.checked, Generator.nextIteration] at hp
    split_ifs at hp
  · cases hp

theorem Insists.stepped {s s' : InitiatorTop} {e : TopEvent} (h : Insists s) (hs : Stepped s e s') :
    Insists s' := by
  by_cases he : e = .generator
  · intro hp'
    cases hs with
    | leave hp hq hall => exact (point_checked_ne hp').elim
    | @receive all t f hp hr hok =>
      obtain ⟨queue, active, hgen⟩ := gen_received s all t f
      rw [hgen] at hp'
      exact (point_checked_ne hp').elim
    | more hp ha => rfl
    | done hp ha =>
      have hne : s.gen.nextLoop.point ≠ .check true := by
        unfold Generator.nextLoop
        dsimp only
        split_ifs <;> simp
      exact absurd hp' hne
    | skip | issue | send | enter => cases hp'
    | take | wake | respond | updateRequest | updateResponse => cases he
  · rw [Insists, hs.gen_eq he]
    exact h

/-- The rank of the generator when `check_complete` returns. -/
theorem rank_checked {g : Generator} {all : Bool} (hissued : (g.checked all).issued = g.issued) :
    (g.checked all).rank + g.point.weight ≤ g.rank + 3 := by
  have hw := weight_checked g all
  rw [Generator.rank, Generator.rank, i_checked, reading_checked, hissued]
  omega

/-- A loop that ends leaves one loop less. -/
theorem rank_nextLoop {g : Generator} (h : Loops g) (hp : g.point = .checkAll) :
    g.nextLoop.rank < g.rank := by
  obtain ⟨hloops, hnext⟩ := h.nextLoop hp
  have hi := hloops.i_le
  have hissued := h.issued_le
  have hweight : g.nextLoop.point.weight = 0 := by
    unfold Generator.nextLoop
    dsimp only
    split_ifs <;> rfl
  have hcheck : g.point.weight = 3 := by rw [hp]; rfl
  unfold Generator.rank
  rw [hweight, hcheck]
  by_cases hend : g.nextLoop.point = .complete
  · rw [if_pos hend] at hnext
    obtain ⟨hi, hr, hsame⟩ := hnext
    rw [hi, hr, hsame]
    omega
  · rw [if_neg hend] at hnext
    obtain ⟨hsum, hzero⟩ := hnext
    rw [hzero]
    cases hr : g.reading <;> cases hr' : g.nextLoop.reading <;>
      simp only [hr, hr', if_true, Bool.false_eq_true, if_false] at hsum ⊢ <;> omega

/-- A response is read: its transaction is done. -/
theorem rank_received {R : Property} {s : InitiatorTop} {all : Bool} {t : Nat} {f : ScFifo Nat}
    (h : Scheduled R s) (hp : s.gen.point = .receive all) (hr : s.response.nbRead = some (t, f)) :
    (s.received all t f).rank < s.rank := by
  obtain ⟨hlen, hunsettled⟩ := unsettled_nbRead hr
  obtain ⟨queue, active, hgen⟩ := gen_received s all t f
  have hloops : Loops { s.gen with transactionQueue := queue, activeTxnCount := active } :=
    h.loops.setPoint rfl rfl rfl (by simp [hp])
  obtain ⟨-, hissued⟩ := hloops.checked all (by simp only [hp]; cases all <;> rfl)
    (by simp only [Generator.issued, hp]; cases all <;> rfl)
  have hrank := rank_checked hissued
  rw [← hgen] at hrank
  have hrank : (s.received all t f).gen.rank + s.gen.point.weight ≤ s.gen.rank + 3 := hrank
  have hweight : 1 ≤ s.gen.point.weight := by
    rw [hp]
    cases all <;> decide
  have hrest : (s.received all t f).request = s.request ∧
      (s.received all t f).initiator = s.initiator ∧ (s.received all t f).response = f := by
    simp only [InitiatorTop.received, InitiatorTop.release]
    split_ifs <;> exact ⟨rfl, rfl, rfl⟩
  rw [InitiatorTop.rank, InitiatorTop.rank, hrest.1, hrest.2.1, hrest.2.2]
  omega

section Gen

variable {s : InitiatorTop} {g : Generator}

/-- The generator alone moves on. -/
theorem rank_lt_of_gen {s' : InitiatorTop} (hreq : s'.request = s.request)
    (hinit : s'.initiator = s.initiator) (hresp : s'.response = s.response)
    (h : s'.gen.rank + 1 ≤ s.gen.rank) : s'.rank < s.rank := by
  rw [InitiatorTop.rank, InitiatorTop.rank, hreq, hinit, hresp]
  omega

theorem rank_send_lt {t : Nat} {f : ScFifo Nat} (hw : s.request.nbWrite t = some f)
    (h : g.rank + 12 ≤ s.gen.rank) :
    InitiatorTop.rank { s with request := f, gen := g } < s.rank := by
  obtain ⟨hlen, hunsettled⟩ := unsettled_nbWrite hw
  rw [InitiatorTop.rank, InitiatorTop.rank]
  dsimp only
  omega

/-- The thread goes to another point of the same iteration. -/
theorem rank_setPoint {g' : Generator} {d : Nat} (hi : g'.i = g.i) (hr : g'.reading = g.reading)
    (hissued : g'.issued = g.issued) (hw : g'.point.weight + d ≤ g.point.weight) :
    g'.rank + d ≤ g.rank := by
  rw [Generator.rank, Generator.rank, hi, hr, hissued]
  omega

end Gen

/-- **Every operation of a thread or a channel lowers the rank.** -/
theorem rank_lt {R : Property} {s s' : InitiatorTop} {e : TopEvent} (hc : Conserved s)
    (h : Scheduled R s) (hall : Insists s) (hs : Stepped s e s') : s'.rank < s.rank := by
  cases hs with
  | skip hp hq =>
    have hpoint := hc.point
    rw [PointOk, hp] at hpoint
    exact absurd hq hpoint
  | @issue t queue hp hq =>
    -- the iteration that begins pays for its transaction
    have hk := h.loops.k
    rw [hp] at hk
    have hk : s.gen.k < 16 := hk
    have hgen : (s.issue t queue).gen.rank + 3 = s.gen.rank := by
      show 330 * (3 - (2 * s.gen.i + if s.gen.reading then 1 else 0)) +
        20 * (16 - (s.gen.k + 1)) + 17 + 3 = _
      rw [Generator.rank, Generator.issued, hp]
      show _ = _ + 20 * (16 - s.gen.k) + 0
      omega
    exact rank_lt_of_gen rfl rfl rfl (by omega)
  | @send t f hp hw =>
    refine rank_send_lt hw (rank_setPoint rfl rfl ?_ ?_)
    · simp only [Generator.issued, hp]
    · rw [hp]
      exact Nat.le_succ 16
  | @enter all hp =>
    refine rank_lt_of_gen rfl rfl rfl (rank_setPoint rfl rfl ?_ ?_)
    · simp only [InitiatorTop.setGen, Generator.issued, hp]
      cases all <;> rfl
    · rw [hp]
      cases all <;> exact Nat.le_refl _
  | @leave all hp hq hnot =>
    cases all with
    | true => exact absurd (hall hp) (by rw [hnot]; exact Bool.false_ne_true)
    | false =>
      obtain ⟨-, hissued⟩ := h.loops.checked false (by rw [hp]; rfl)
        (by simp only [Generator.issued, hp]; rfl)
      have hrank := rank_checked hissued
      rw [hp] at hrank
      have hrank : (s.gen.checked false).rank + 4 ≤ s.gen.rank + 3 := hrank
      exact rank_lt_of_gen rfl rfl rfl (by show (s.gen.checked false).rank < _; omega)
  | receive hp hr hok => exact rank_received h hp hr
  | more hp ha =>
    refine rank_lt_of_gen rfl rfl rfl (rank_setPoint rfl rfl ?_ ?_)
    · simp only [InitiatorTop.setGen, Generator.issued, hp]
    · rw [hp]
      exact Nat.le_refl 3
  | done hp ha => exact rank_lt_of_gen rfl rfl rfl (rank_nextLoop h.loops hp)
  | @take now q delay t f hi hr =>
    obtain ⟨hlen, hunsettled⟩ := unsettled_nbRead hr
    obtain ⟨hgen, hreq, hresp, -, -⟩ :=
      InitiatorTop.transported_fields { s with request := f } t now q delay
    have hweight : ({ s with request := f }.transported t now q delay).initiator.weight ≤ 8 := by
      simp only [InitiatorTop.transported]
      split_ifs <;> simp [InitiatorPoint.weight]
    have hread : s.initiator.weight = 0 := by rw [hi]; rfl
    rw [InitiatorTop.rank, InitiatorTop.rank, hgen, hreq, hresp]
    dsimp only
    omega
  | wake hi ht =>
    have hwait : s.initiator.weight = 8 := by rw [hi]; rfl
    rw [InitiatorTop.rank, InitiatorTop.rank, hwait]
    dsimp only [InitiatorPoint.weight]
    omega
  | respond hi hw =>
    obtain ⟨hlen, hunsettled⟩ := unsettled_nbWrite hw
    have hheld : s.initiator.weight = 7 := by rw [hi]; rfl
    rw [InitiatorTop.rank, InitiatorTop.rank, hheld]
    dsimp only [InitiatorPoint.weight]
    omega
  | updateRequest hp =>
    obtain ⟨hlen, hunsettled⟩ := unsettled_update hp
    rw [InitiatorTop.rank, InitiatorTop.rank]
    dsimp only
    omega
  | updateResponse hp =>
    obtain ⟨hlen, hunsettled⟩ := unsettled_update hp
    rw [InitiatorTop.rank, InitiatorTop.rank]
    dsimp only
    omega

/-! ## The platform -/

/-- A step of a thread or a channel. -/
def Event.ofThread : Event → Bool
  | .thread .. => true
  | .renode .. | .advance _ => false

def Event.isAdvance : Event → Bool
  | .advance _ => true
  | .thread .. | .renode .. => false

/-- A step that Renode has no part in. -/
def Event.ofPlatform : Event → Bool
  | .thread .. | .advance _ => true
  | .renode .. => false

/-- A report that ends the simulation. -/
def Output.stops : Output → Bool
  | .fatal .. | .assertionFailed _ => true
  | .called .. | .complete .. | .answered .. => false

def Platform.rank (p : Platform) : Nat := ∑ g, (p.tops g).rank

theorem rank_new (id : UInt32) (baseAddress1 baseAddress2 : UInt64) (garbage : Nat → UInt32) :
    (InitiatorTop.new id baseAddress1 baseAddress2 garbage).rank = 1310 := by
  simp [InitiatorTop.rank, InitiatorTop.new, Generator.rank, Generator.issued,
    GeneratorPoint.weight, InitiatorPoint.weight, ScFifo.empty, ScFifo.contents, unsettled]

theorem rank_init (garbage : Fin 2 → Nat → UInt32) : (platform garbage).init.rank = 2620 := by
  rw [Platform.rank, Fin.sum_univ_two]
  show (InitiatorTop.new ..).rank + (InitiatorTop.new ..).rank = 2620
  rw [rank_new, rank_new]

theorem rank_update {tops : Fin 2 → InitiatorTop} {g : Fin 2} {s : InitiatorTop}
    (h : s.rank < (tops g).rank) :
    ∑ k, (Function.update tops g s k).rank + 1 ≤ ∑ k, (tops k).rank := by
  have hsum := Machine.sum_rank_update InitiatorTop.rank tops g s
  omega

theorem Advanced.now_le {p p' : Platform} {e : Event} {o : List Output} (h : Advanced p e p' o) :
    p.now + (if e.isAdvance then 1 else 0) ≤ p'.now := by
  cases h with
  | advance ht => exact ht
  | local_ | call | callFails | fatal | renode | renodeFails => exact Nat.le_refl _

/-- A generator that becomes complete says so. -/
theorem Advanced.completes {p p' : Platform} {e : Event} {o : List Output}
    (h : Advanced p e p' o) {g : Fin 2} (hbefore : (p.tops g).gen.point ≠ .complete)
    (hend : (p'.tops g).gen.point = .complete) : Output.complete g p.now ∈ o := by
  cases h with
  | @local_ k x e s hs he hgen =>
    have hend : (Function.update p.tops k s g).gen.point = .complete := hend
    by_cases hg : g = k
    · rw [hg] at hbefore ⊢
      rw [hg, Function.update_self] at hend
      by_cases hx : x = .generator
      · rw [if_pos ⟨hx, hend⟩]
        exact List.mem_singleton_self _
      · rw [hs.gen_eq fun hc => hx (hgen.2 hc)] at hend
        exact absurd hend hbefore
    · rw [Function.update_of_ne hg] at hend
      exact absurd hend hbefore
  | @call k t f targets q delay hi hr hbus =>
    have hend : (Function.update p.tops k _ g).gen.point = .complete := hend
    by_cases hg : g = k
    · rw [hg] at hbefore
      rw [hg, Function.update_self, (InitiatorTop.transported_fields _ _ _ _ _).1] at hend
      exact absurd hend hbefore
    · rw [Function.update_of_ne hg] at hend
      exact absurd hend hbefore
  | callFails | fatal | renode | renodeFails | advance => exact absurd hend hbefore

structure Progressing (p : Platform) (tr : List Output) : Prop where
  onSchedule : OnSchedule (fun _ _ _ _ => True) p tr
  insists : ∀ g, Insists (p.tops g)
  /-- What has ended is in the trace. -/
  complete : ∀ g, (p.tops g).gen.point = .complete → Output.complete g 4800000 ∈ tr
  stopped : p.stopped = true → ∃ o ∈ tr, o.stops = true

/-- Every operation of a thread or a channel lowers the rank, and no other step raises it. -/
theorem Progressing.rank_le {p p' : Platform} {tr o : List Output} {e : Event}
    (h : Progressing p tr) (hadv : Advanced p e p' o) :
    p'.rank + (if e.ofThread then 1 else 0) ≤ p.rank ∨
      p'.stopped = true ∧ p'.rank = p.rank ∧ p'.now = p.now := by
  cases hadv with
  | @local_ g _ _ _ hs =>
    exact Or.inl (rank_update (rank_lt (h.onSchedule.conserved g) (h.onSchedule.scheduled g)
      (h.insists g) hs))
  | @call g t f targets q delay hi hr hbus =>
    exact Or.inl (rank_update (rank_lt (h.onSchedule.conserved g) (h.onSchedule.scheduled g)
      (h.insists g) (.take hi hr)))
  | callFails | fatal | renodeFails => exact Or.inr ⟨rfl, rfl, rfl⟩
  | renode | advance => exact Or.inl (Nat.le_refl _)

theorem Progressing.step {p p' : Platform} {tr o : List Output} {e : Event}
    (h : Progressing p tr) (hstop : p.stopped = false) (hadv : Advanced p e p' o) :
    Progressing p' (tr ++ o) := by
  have honSchedule := h.onSchedule.step hadv fun _ _ _ _ _ _ _ _ _ _ _ => trivial
  have hold : ∀ g, (p.tops g).gen.point = .complete → Output.complete g 4800000 ∈ tr ++ o :=
    fun g hend => List.mem_append_left o (h.complete g hend)
  refine ⟨honSchedule, ?_, ?_, ?_⟩
  · intro g
    cases hadv with
    | @local_ k _ _ s hs =>
      show Insists (Function.update p.tops k s g)
      by_cases hg : g = k
      · rw [hg, Function.update_self]
        exact (h.insists k).stepped hs
      · rw [Function.update_of_ne hg]
        exact h.insists g
    | @call k t f targets q delay hi hr hbus =>
      show Insists (Function.update p.tops k _ g)
      have hstep : Stepped (p.tops k) (.take p.now q delay) _ := .take hi hr
      by_cases hg : g = k
      · rw [hg, Function.update_self]
        exact (h.insists k).stepped hstep
      · rw [Function.update_of_ne hg]
        exact h.insists g
    | callFails | fatal | renode | renodeFails | advance => exact h.insists g
  · intro g hend
    by_cases hbefore : (p.tops g).gen.point = .complete
    · exact hold g hbefore
    · have hmem := List.mem_append_right tr (hadv.completes hbefore hend)
      have hnow : p.now = elapsed 64 := honSchedule.reports _ hmem
      rwa [hnow, elapsed_total] at hmem
  · intro hstop'
    cases hadv with
    | callFails | fatal | renodeFails =>
      exact ⟨_, List.mem_append_right tr (List.mem_singleton_self _), rfl⟩
    | local_ | call | renode | advance => exact absurd hstop' (by simp [hstop, Platform.setTop])

/-- **The simulation can go on**, unless it has been stopped. -/
theorem exists_step {p : Platform} (hstop : p.stopped = false) :
    ∃ e : Event, e.ofPlatform = true ∧ (step p e).isSome = true := by
  have hstep : ∀ g k, step p (.thread g k) = threadStep p g k := fun g k => by
    rw [step, hstop, if_neg Bool.false_ne_true]
  by_cases hrun : ∃ g, (p.tops g).runnable p.now = true
  · obtain ⟨g, hg⟩ := hrun
    have hthread : ∃ k, (threadStep p g k).isSome = true := by
      simp only [InitiatorTop.runnable, Bool.or_eq_true] at hg
      rcases hg with ((((hgen | htake) | hwake) | hrespond) | hreq) | hresp
      · refine ⟨.generator, ?_⟩
        simp only [threadStep]
        cases hs : (p.tops g).generatorStep with
        | none => simp [hs] at hgen
        | some r => cases r <;> rfl
      · refine ⟨.call, ?_⟩
        simp only [threadStep]
        cases hs : (p.tops g).takeRequest with
        | none => simp [hs] at htake
        | some r =>
          dsimp only
          split <;> rfl
      · exact ⟨.wake, by rw [threadStep, Option.isSome_map]; exact hwake⟩
      · exact ⟨.respond, by rw [threadStep, Option.isSome_map]; exact hrespond⟩
      · exact ⟨.updateRequest, by rw [threadStep, Option.isSome_map]; exact hreq⟩
      · exact ⟨.updateResponse, by rw [threadStep, Option.isSome_map]; exact hresp⟩
    obtain ⟨k, hk⟩ := hthread
    exact ⟨.thread g k, rfl, by rw [hstep g k]; exact hk⟩
  · refine ⟨.advance (p.now + 1), rfl, ?_⟩
    have hidle : ∀ g, (p.tops g).runnable p.now = false ∧
        (p.tops g).waitsUntil (p.now + 1) = true := by
      intro g
      have hnot : (p.tops g).runnable p.now = false := by
        rw [← Bool.not_eq_true]
        exact fun hc => hrun ⟨g, hc⟩
      refine ⟨hnot, ?_⟩
      unfold InitiatorTop.waitsUntil
      cases hi : (p.tops g).initiator with
      | reading | responding t => rfl
      | waiting t u =>
        -- a wait that is over would let the thread go on
        have hwake : (p.tops g).wake p.now = none := by
          rw [InitiatorTop.runnable] at hnot
          simp only [Bool.or_eq_false_iff, Option.isSome_eq_false_iff, Option.isNone_iff_eq_none]
            at hnot
          exact hnot.1.1.1.2
        simp only [InitiatorTop.wake, hi, ite_eq_right_iff, reduceCtorEq, imp_false] at hwake
        simp only [decide_eq_true_eq]
        omega
    rw [step, hstop, if_neg Bool.false_ne_true, if_pos ⟨Nat.lt_succ_self _, hidle⟩]
    rfl

section Runs

variable {garbage : Fin 2 → Nat → UInt32} {es : List Event} {p : Platform} {tr : List Output}

theorem progressing_init (garbage : Fin 2 → Nat → UInt32) :
    Progressing (platform garbage).init [] := by
  have hbody : ∀ g, ((platform garbage).init.tops g).gen.point = .body := by
    intro g
    cases g using Fin.cases with
    | zero => rfl
    | succ g => cases g using Fin.cases with
      | zero => rfl
      | succ g => exact g.elim0
  refine ⟨onSchedule_init _ garbage, ?_, ?_, ?_⟩
  · intro g hp
    rw [hbody] at hp
    cases hp
  · intro g hp
    rw [hbody] at hp
    cases hp
  · intro hstop
    cases hstop

theorem progressing_run (h : (platform garbage).Run es p tr) : Progressing p tr := by
  refine Machine.inv_run (progressing_init garbage) ?_ h
  intro p tr e p' o hI hs
  obtain ⟨hstop, hadv⟩ := step_cases hs
  exact hI.step hstop hadv

/-- No run has more operations of threads and channels than the rank allows. -/
theorem threads_le (h : (platform garbage).Run es p tr) :
    (es.filter Event.ofThread).length ≤ 2621 := by
  have hcount := Machine.count_le_of_rank (I := Progressing) (D := fun _ => False)
    (c := Event.ofThread) (fun p => p.rank + if p.stopped then 0 else 1) (progressing_init garbage)
    ?_ h
  · have hrank := rank_init garbage
    have hle := hcount.resolve_left id
    have hstop : (platform garbage).init.stopped = false := rfl
    rw [hrank, hstop] at hle
    simp only [Bool.false_eq_true, if_false] at hle
    omega
  · intro p tr e p' o hI hs
    obtain ⟨hstop, hadv⟩ := step_cases hs
    refine ⟨hI.step hstop hadv, id, Or.inr ?_⟩
    rw [hstop, if_neg Bool.false_ne_true]
    rcases hI.rank_le hadv with hlower | ⟨hstop', hrank, -⟩
    · split_ifs at hlower ⊢ <;> omega
    · rw [hstop', if_pos rfl, hrank]
      split_ifs <;> omega

/-- In a run with more steps than that, the time included, both generators have become complete. -/
theorem complete_of_lt (h : (platform garbage).Run es p tr)
    (hlt : 4802621 < (es.filter Event.ofPlatform).length) :
    p.stopped = true ∨ ∀ g, (p.tops g).gen.point = .complete := by
  have hcount := Machine.count_le_of_rank (I := Progressing)
    (D := fun p => p.stopped = true ∨ ∀ g, (p.tops g).gen.point = .complete)
    (c := Event.ofPlatform) (fun p => p.rank + (4800001 - p.now)) (progressing_init garbage) ?_ h
  · apply hcount.resolve_right
    rw [rank_init garbage]
    show ¬ _ ≤ 2620 + 4800001
    omega
  · intro p tr e p' o hI hs
    obtain ⟨hstop, hadv⟩ := step_cases hs
    refine ⟨hI.step hstop hadv, ?_, ?_⟩
    · intro hD
      refine Or.inr fun g => hadv.complete ?_
      exact hD.resolve_left (by rw [hstop]; exact Bool.false_ne_true) g
    · by_cases hD : ∀ g, (p'.tops g).gen.point = .complete
      · exact Or.inl (Or.inr hD)
      · rcases hI.rank_le hadv with hlower | hstopped
        · right
          obtain ⟨g, hg⟩ := not_forall.1 hD
          have hnow := hI.onSchedule.now_le fun hend => hg (hadv.complete hend)
          have htime := hadv.now_le
          have hsplit : (if e.ofPlatform then 1 else 0) =
              (if e.ofThread then 1 else 0) + if e.isAdvance then 1 else 0 := by
            cases e <;> rfl
          have hone : (if e.isAdvance then 1 else 0) ≤ 1 := by split_ifs <;> omega
          rw [hsplit]
          omega
        · exact Or.inl (Or.inl hstopped.1)

/-- **The generators finish.** A run has at most 2621 operations of threads and channels; unless it
has been stopped, by a report, it can go on, and with enough steps of the platform both generators
have reported that they are complete, at 4800 ns. -/
theorem generators_finish (h : (platform garbage).Run es p tr) :
    (es.filter Event.ofThread).length ≤ 2621 ∧
      (p.stopped = true → ∃ o ∈ tr, o.stops = true) ∧
      (p.stopped = false → ∃ e : Event, e.ofPlatform = true ∧ (step p e).isSome = true) ∧
      (4802621 < (es.filter Event.ofPlatform).length →
        p.stopped = true ∨ ∀ g, Output.complete g 4800000 ∈ tr) := by
  have hI := progressing_run h
  refine ⟨threads_le h, hI.stopped, exists_step, ?_⟩
  intro hlt
  exact (complete_of_lt h hlt).imp id fun hend g => hI.complete g (hend g)

end Runs

theorem generators_finish_wholeProgram : ∃ p tr, (platform fun _ _ => 0).Run wholeProgram p tr ∧
    (∀ g, Output.complete g 4800000 ∈ tr) ∧ (wholeProgram.filter Event.ofThread).length ≤ 2621 ∧
    ∃ e : Event, e.ofPlatform = true ∧ (step p e).isSome = true := by
  obtain ⟨p, tr, h, -, hstop, hreports⟩ := run_wholeProgram
  obtain ⟨hthreads, -, hgoes, -⟩ := generators_finish h
  exact ⟨p, tr, h, hreports, hthreads, hgoes hstop⟩

end RenodeSystemC.Lt
