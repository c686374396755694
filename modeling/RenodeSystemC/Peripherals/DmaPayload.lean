import RenodeSystemC.Peripherals.Dma
import Mathlib.Data.List.Induction

/-!
# The life of a DMA payload

A payload is acquired where it is allocated and released at one of three places: after an inline
completion, after an inline response, or in the backward call that delivers the response. A backward
call may be nested in the forward call that sent the request, which then returns to code that
still branches on its result.

**Theorem (`payload_lifecycle`).** For every stream of bytes and every target, each payload is
acquired once and released at most once, is released once the response has been handled, and is not
touched after its release.

The automaton `Life` is what the trace must spell for each payload; the invariant `LifeInv` says
where in it a payload is, from the target's phase and the calls on the stack.
-/

namespace RenodeSystemC.Dma

open Peripherals

/-! ## The life of one payload -/

/-- Where payload `k` is in its life. -/
inductive Life where
  /-- Not allocated. -/
  | absent
  /-- Acquired and not released. -/
  | held
  /-- Released. -/
  | freed
  /-- Acquired or released twice, or touched while not held. -/
  | broken
  deriving DecidableEq, Repr

/-- What an entry of the trace makes of payload `k`. -/
def Life.after (k : Nat) (l : Life) : Output → Life
  | .acquire j => if j = k then (match l with | .absent => .held | _ => .broken) else l
  | .touch j => if j = k then (match l with | .held => .held | _ => .broken) else l
  | .release j => if j = k then (match l with | .held => .freed | _ => .broken) else l
  | _ => l

def life (k : Nat) (tr : List Output) : Life := tr.foldl (Life.after k) .absent

theorem life_append (k : Nat) (tr o : List Output) :
    life k (tr ++ o) = o.foldl (Life.after k) (life k tr) := List.foldl_append

/-- How often a payload in this place has been acquired. -/
def Life.acquired : Life → Nat
  | .absent => 0
  | _ => 1

/-- How often a payload in this place has been released. -/
def Life.released : Life → Nat
  | .freed => 1
  | _ => 0

/-- What an unbroken life says about the trace: how often the payload was acquired and released,
and that it was not touched after its release. -/
structure Spelled (k : Nat) (tr : List Output) (l : Life) : Prop where
  acquire : tr.count (.acquire k) = l.acquired
  release : tr.count (.release k) = l.released
  untouched : ∀ pre post, tr = pre ++ .release k :: post → .touch k ∉ post

theorem Life.acquired_after {k : Nat} {l : Life} {x : Output} (h : l.after k x ≠ .broken) :
    l.acquired + [x].count (.acquire k) = (l.after k x).acquired := by
  cases x with
  | acquire j | touch j | release j =>
    by_cases hj : j = k <;> cases l <;> simp_all [Life.after, Life.acquired]
  | beginReq | endReq | beginResp | completed | endResp => simp [Life.after]

theorem Life.released_after {k : Nat} {l : Life} {x : Output} (h : l.after k x ≠ .broken) :
    l.released + [x].count (.release k) = (l.after k x).released := by
  cases x with
  | acquire j | touch j | release j =>
    by_cases hj : j = k <;> cases l <;> simp_all [Life.after, Life.released]
  | beginReq | endReq | beginResp | completed | endResp => simp [Life.after]

theorem spelled_of_life (k : Nat) (tr : List Output) (h : life k tr ≠ .broken) :
    Spelled k tr (life k tr) := by
  induction tr using List.reverseRecOn with
  | nil => exact ⟨rfl, rfl, fun pre post heq => by cases pre <;> cases heq⟩
  | append_singleton tr x ih =>
    have hlife : life k (tr ++ [x]) = (life k tr).after k x := life_append k tr [x]
    rw [hlife] at h ⊢
    have hprev : life k tr ≠ .broken := by
      intro hb
      apply h
      rw [hb]
      cases x <;> simp [Life.after]
    obtain ⟨hacq, hrel, hun⟩ := ih hprev
    -- An entry that touches the payload comes before any release.
    have hold : ∀ pre t, tr = pre ++ .release k :: t → x ≠ .touch k := by
      rintro pre t htr rfl
      have hheld : life k tr = .held := by
        cases hl : life k tr <;> simp_all [Life.after]
      rw [hheld, htr] at hrel
      simp [Life.released] at hrel
    refine ⟨?_, ?_, ?_⟩
    · rw [List.count_append, hacq, Life.acquired_after h]
    · rw [List.count_append, hrel, Life.released_after h]
    · intro pre post heq
      rcases concat_eq_append_cons heq with ⟨t, htr, rfl⟩ | ⟨-, -, rfl⟩
      · intro hmem
        rcases List.mem_append.1 hmem with hmem | hmem
        · exact hun pre t htr hmem
        · exact hold pre t htr (List.mem_singleton.1 hmem).symm
      · exact List.not_mem_nil

/-! ## The invariant -/

/-- The transaction whose response the frame handles. -/
def Frame.handled : Frame → Option Nat
  | .beginReq _ => none
  | .endResp k | .bwEndResp k | .failed k => some k

/-- The transaction the frame is about. -/
def Frame.index : Frame → Nat
  | .beginReq k | .endResp k | .bwEndResp k | .failed k => k

/-- The transactions whose responses are being handled. -/
def System.handling (sys : System) : List Nat := sys.stack.filterMap Frame.handled

/-- Where payload `k` is, judged by the target's phase and the stack. -/
def System.expected (sys : System) (k : Nat) : Life :=
  if k < sys.count then
    if sys.phase k = .responded ∧ k ∉ sys.handling then .freed else .held
  else .absent

structure LifeInv (sys : System) (tr : List Output) : Prop where
  bounded : ∀ f ∈ sys.stack, f.index < sys.count
  responded : ∀ k ∈ sys.handling, sys.phase k = .responded
  nodup : sys.handling.Nodup
  life : ∀ k, life k tr = sys.expected k

theorem lifeInv_init (ndebug : Bool) (garbage : Bytes) : LifeInv (dma ndebug garbage).init [] where
  bounded := by intro f hf; cases hf
  responded := by intro k hk; cases hk
  nodup := List.nodup_nil
  life := fun _ => rfl

/-- An entry is about no payload's life, or touches payload `k`. -/
def Touches (k : Nat) (x : Output) : Prop := x = .touch k ∨ ∀ j l, Life.after j l x = l

/-- Entries that touch only a payload that is held change no life. -/
theorem life_append_touch {k : Nat} {tr o : List Output} (hk : life k tr = .held)
    (ho : ∀ x ∈ o, Touches k x) (j : Nat) : life j (tr ++ o) = life j tr := by
  rw [life_append]
  induction o with
  | nil => rfl
  | cons x o ih =>
    have hx : (life j tr).after j x = life j tr := by
      rcases ho x List.mem_cons_self with rfl | hx
      · by_cases hj : k = j
        · subst hj
          simp [Life.after, hk]
        · simp [Life.after, hj]
      · exact hx j _
    rw [List.foldl_cons, hx]
    exact ih fun y hy => ho y (List.mem_cons_of_mem _ hy)

/-- Nothing changes that the invariant reads, and only a held payload is touched. -/
theorem lifeInv_touch {sys sys' : System} {tr o : List Output} {k : Nat} (h : LifeInv sys tr)
    (hlt : k < sys.count) (hheld : sys.phase k ≠ .responded ∨ k ∈ sys.handling)
    (ho : ∀ x ∈ o, Touches k x) (hc : sys'.count = sys.count)
    (hb : ∀ f ∈ sys'.stack, f.index < sys.count) (hh : sys'.handling = sys.handling)
    (hp : ∀ j, sys'.phase j = .responded ↔ sys.phase j = .responded) :
    LifeInv sys' (tr ++ o) := by
  have hlife : life k tr = .held := by
    rw [h.life, System.expected, if_pos hlt, if_neg]
    rintro ⟨hr, hn⟩
    exact hheld.elim (fun hne => hne hr) hn
  refine ⟨by rwa [hc], ?_, by rw [hh]; exact h.nodup, ?_⟩
  · intro j hj
    rw [hh] at hj
    exact (hp j).2 (h.responded j hj)
  · intro j
    rw [life_append_touch hlife ho, h.life, System.expected, System.expected, hc, hh]
    simp only [hp]

theorem Frame.index_of_handled {f : Frame} {k : Nat} (h : f.handled = some k) : f.index = k := by
  cases f <;> simp_all [Frame.handled, Frame.index]

theorem mem_handling_of_stack {sys : System} {f : Frame} {rest : List Frame} {k : Nat}
    (hs : sys.stack = f :: rest) (hf : f.handled = some k) : k ∈ sys.handling :=
  List.mem_filterMap.2 ⟨f, by rw [hs]; exact List.mem_cons_self, hf⟩

theorem LifeInv.lt_of_handling {sys : System} {tr : List Output} (h : LifeInv sys tr) {k : Nat}
    (hk : k ∈ sys.handling) : k < sys.count := by
  obtain ⟨f, hf, hfk⟩ := List.mem_filterMap.1 hk
  rw [← Frame.index_of_handled hfk]
  exact h.bounded f hf

/-- The `while` loop goes on: the new payload is acquired before it is used. -/
theorem lifeInv_drain {sys : System} {tr : List Output} (h : LifeInv sys tr) :
    LifeInv (drain sys).1 (tr ++ (drain sys).2) := by
  unfold drain
  split
  · rwa [List.append_nil]
  · refine ⟨?_, ?_, h.nodup, ?_⟩
    · intro f hf
      rcases List.mem_cons.1 hf with rfl | hf
      · exact Nat.lt_succ_self _
      · exact Nat.lt_succ_of_lt (h.bounded f hf)
    · intro k hk
      have hk' : k ∈ sys.handling := hk
      have hne : k ≠ sys.count := Nat.ne_of_lt (h.lt_of_handling hk')
      show (Function.update sys.transaction sys.count _ k).phase = .responded
      rw [Function.update_of_ne hne]
      exact h.responded k hk'
    · intro k
      rw [life_append, h.life]
      by_cases hk : k = sys.count
      · subst hk
        simp [System.expected, System.phase, Life.after]
      · have hlt : k < sys.count + 1 ↔ k < sys.count := by omega
        have hne : sys.count ≠ k := Ne.symm hk
        simp only [List.foldl_cons, List.foldl_nil, Life.after, hne, if_false]
        simp only [System.expected, System.phase, Function.update_of_ne hk, hlt]
        rfl

/-- `nb_transport_fw(BEGIN_REQ)` returns. -/
theorem lifeInv_pop {sys : System} {tr : List Output} {k : Nat} {rest : List Frame}
    (h : LifeInv sys tr) (hs : sys.stack = .beginReq k :: rest) :
    LifeInv { sys with stack := rest } tr := by
  have hh : { sys with stack := rest }.handling = sys.handling := by
    rw [System.handling, System.handling, hs]
    rfl
  refine ⟨fun f hf => h.bounded f (by rw [hs]; exact List.mem_cons_of_mem _ hf), ?_, ?_, ?_⟩
  · intro j hj
    rw [hh] at hj
    exact h.responded j hj
  · rw [hh]
    exact h.nodup
  · intro j
    rw [h.life, System.expected, System.expected, hh]
    rfl

/-- The response arrives and a call starts to handle it: the payload stays held. -/
theorem lifeInv_respond {sys : System} {tr o : List Output} {k : Nat} (f : Frame)
    (st : ResponseStatus) (h : LifeInv sys tr) (hlt : k < sys.count)
    (hphase : sys.phase k ≠ .responded) (hf : f.handled = some k) (ho : ∀ x ∈ o, Touches k x) :
    LifeInv { sys.setPhase k .responded st with stack := f :: sys.stack } (tr ++ o) := by
  have hnew : k ∉ sys.handling := fun hk => hphase (h.responded k hk)
  have hh : { sys.setPhase k .responded st with stack := f :: sys.stack }.handling =
      k :: sys.handling := List.filterMap_cons_some hf
  have hp : ∀ j, { sys.setPhase k .responded st with stack := f :: sys.stack }.phase j =
      if j = k then .responded else sys.phase j := phase_setPhase sys k .responded st
  have hlife : life k tr = .held := by
    rw [h.life, System.expected, if_pos hlt, if_neg fun hr => hphase hr.1]
  refine ⟨?_, ?_, ?_, ?_⟩
  · intro g hg
    rcases List.mem_cons.1 hg with rfl | hg
    · rw [Frame.index_of_handled hf]
      exact hlt
    · exact h.bounded g hg
  · intro j hj
    rw [hp]
    rw [hh] at hj
    split_ifs with hjk
    · rfl
    · exact h.responded j ((List.mem_cons.1 hj).resolve_left hjk)
  · rw [hh]
    exact List.nodup_cons.2 ⟨hnew, h.nodup⟩
  · intro j
    rw [life_append_touch hlife ho, h.life]
    unfold System.expected
    rw [hh, hp]
    by_cases hj : j = k
    · subst hj
      simp [hphase]
    · simp only [List.mem_cons, hj, if_false, false_or]
      rfl

/-- The response has been handled: the payload is released. -/
theorem lifeInv_release {sys : System} {tr : List Output} {k : Nat} {f : Frame}
    {rest : List Frame} (h : LifeInv sys tr) (hs : sys.stack = f :: rest)
    (hf : f.handled = some k) : LifeInv { sys with stack := rest } (tr ++ [Output.release k]) := by
  have hh : sys.handling = k :: { sys with stack := rest }.handling := by
    rw [System.handling, hs]
    exact List.filterMap_cons_some hf
  have hmem : k ∈ sys.handling := by
    rw [hh]
    exact List.mem_cons_self
  have hlt := h.lt_of_handling hmem
  have hphase := h.responded k hmem
  have hnodup := h.nodup
  rw [hh, List.nodup_cons] at hnodup
  refine ⟨?_, ?_, hnodup.2, ?_⟩
  · intro g hg
    exact h.bounded g (by rw [hs]; exact List.mem_cons_of_mem _ hg)
  · intro j hj
    exact h.responded j (by rw [hh]; exact List.mem_cons_of_mem _ hj)
  · intro j
    rw [life_append, h.life]
    by_cases hj : j = k
    · subst hj
      have hold : sys.expected j = .held := by
        rw [System.expected, if_pos hlt, if_neg fun hr => hr.2 hmem]
      have hnew : { sys with stack := rest }.expected j = .freed := by
        rw [System.expected, if_pos hlt, if_pos ⟨hphase, hnodup.1⟩]
      rw [hold, hnew]
      simp [Life.after]
    · have hne : k ≠ j := Ne.symm hj
      simp only [List.foldl_cons, List.foldl_nil, Life.after, hne, if_false]
      unfold System.expected
      rw [hh]
      simp only [List.mem_cons, hj, false_or]
      rfl

/-- Entries about the protocol alone. -/
theorem lifeInv_protocol {sys : System} {tr o : List Output} (h : LifeInv sys tr)
    (ho : ∀ x ∈ o, ∀ j l, Life.after j l x = l) : LifeInv sys (tr ++ o) := by
  refine ⟨h.bounded, h.responded, h.nodup, fun j => ?_⟩
  rw [life_append, ← h.life j]
  generalize life j tr = l
  induction o with
  | nil => rfl
  | cons x o ih =>
    rw [List.foldl_cons, ho x List.mem_cons_self]
    exact ih fun y hy => ho y (List.mem_cons_of_mem _ hy)

/-! ## Every step -/

section Touches

variable (k : Nat)

@[simp] theorem touches_touch : Touches k (.touch k) := Or.inl rfl
@[simp] theorem touches_endReq : Touches k (.endReq k) := Or.inr fun _ _ => rfl
@[simp] theorem touches_beginResp : Touches k (.beginResp k) := Or.inr fun _ _ => rfl
@[simp] theorem touches_completed : Touches k (.completed k) := Or.inr fun _ _ => rfl
@[simp] theorem touches_endResp : Touches k (.endResp k) := Or.inr fun _ _ => rfl

theorem touches_check {ndebug : Bool} : ∀ x ∈ check ndebug k, Touches k x := by
  unfold check
  split_ifs <;> simp

end Touches

theorem responded_setPhase_accepted {sys : System} {k : Nat} {st : ResponseStatus}
    (h : sys.phase k = .requested) (j : Nat) :
    (sys.setPhase k .accepted st).phase j = .responded ↔ sys.phase j = .responded := by
  rw [phase_setPhase]
  split_ifs with hj
  · rw [hj, h]
    decide
  · rfl

theorem LifeInv.lt_of_stack {sys : System} {tr : List Output} (h : LifeInv sys tr) {f : Frame}
    {rest : List Frame} (hs : sys.stack = f :: rest) : f.index < sys.count :=
  h.bounded f (by rw [hs]; exact List.mem_cons_self)

theorem lifeInv_settled {ndebug : Bool} {sys sys' : System} {tr : List Output} {e : Event}
    {o : List Output} {b : Bool} (h : LifeInv sys tr) (hs : Settled ndebug sys e sys' o b) :
    LifeInv sys' (tr ++ o) := by
  cases hs with
  | arrive =>
    rw [List.append_nil]
    exact ⟨h.bounded, h.responded, h.nodup, h.life⟩
  | activate => rwa [List.append_nil]
  | accept hs =>
    rw [List.append_nil]
    exact lifeInv_pop h hs
  | @endReq k rest hs hp =>
    have hpop := lifeInv_pop h hs
    have hlt : k < sys.count := h.lt_of_stack hs
    refine lifeInv_touch hpop hlt (Or.inl ?_) (by simp) rfl hpop.bounded rfl
      (responded_setPhase_accepted hp)
    show sys.phase k ≠ .responded
    rw [hp]
    decide
  | beginResp hs hp status =>
    refine lifeInv_respond (.endResp _) status (lifeInv_pop h hs) (h.lt_of_stack hs) hp rfl ?_
    refine List.forall_mem_append.2 ⟨?_, by simp⟩
    simpa using touches_check _
  | beginRespFailed hs hp status =>
    refine lifeInv_respond (.failed _) status (lifeInv_pop h hs) (h.lt_of_stack hs) hp rfl ?_
    simpa using touches_check _
  | @complete k rest hs hp status =>
    -- The response is handled at once: as if a frame for it came and went.
    have hlt : k < sys.count := h.lt_of_stack hs
    have hresp := lifeInv_respond (o := Output.completed k :: check ndebug k) (.endResp k) status
      (lifeInv_pop h hs) hlt hp rfl (by simpa using touches_check k)
    have hrel := lifeInv_release hresp rfl rfl
    rw [List.append_assoc] at hrel
    exact hrel
  | completeFailed hs hp status =>
    refine lifeInv_respond (.failed _) status (lifeInv_pop h hs) (h.lt_of_stack hs) hp rfl ?_
    simpa using touches_check _
  | @endResp k rest hs =>
    have hmem := mem_handling_of_stack hs rfl
    have htouch : LifeInv sys (tr ++ check ndebug k) :=
      lifeInv_touch h (h.lt_of_stack hs) (Or.inr hmem) (touches_check k) rfl h.bounded rfl
        fun _ => Iff.rfl
    rw [← List.append_assoc]
    exact lifeInv_release htouch hs rfl
  | @endRespFailed k rest hs =>
    have hlt : k < sys.count := h.lt_of_stack hs
    refine lifeInv_touch h hlt (Or.inr (mem_handling_of_stack hs rfl)) (touches_check k) rfl ?_ ?_
      fun _ => Iff.rfl
    · intro f hf
      rcases List.mem_cons.1 hf with rfl | hf
      · exact hlt
      · exact h.bounded f (by rw [hs]; exact List.mem_cons_of_mem _ hf)
    · rw [System.handling, System.handling, hs]
      rfl
  | @bwReturn k rest hs =>
    have hrel := lifeInv_protocol (o := [.endResp k]) (lifeInv_release h hs rfl) (by
      intro x hx j l
      cases List.mem_singleton.1 hx
      rfl)
    rwa [List.append_assoc] at hrel
  | bwEndReq hlt hp =>
    refine lifeInv_touch h hlt (Or.inl ?_) (by simp) rfl h.bounded rfl
      (responded_setPhase_accepted hp)
    rw [hp]
    decide
  | bwBeginResp hlt hp => exact lifeInv_respond (.bwEndResp _) .ok h hlt hp rfl (by simp)
  | @setResponseStatus k hlt hp status =>
    exact lifeInv_touch h hlt (Or.inl hp) (by simp) rfl h.bounded rfl fun j => by
      rw [phase_setPhase_self]

theorem lifeInv_step {ndebug : Bool} {sys sys' : System} {tr : List Output} {e : Event}
    {o : List Output} (h : LifeInv sys tr) (hs : step ndebug sys e = some (sys', o)) :
    LifeInv sys' (tr ++ o) := by
  refine step_rule (I := LifeInv) tr (fun hsettled => ?_) hs
  have hI := lifeInv_settled h hsettled
  exact ⟨hI, fun _ => lifeInv_drain hI⟩

theorem lifeInv_run {ndebug : Bool} {garbage : Bytes} {es : List Event} {sys : System}
    {tr : List Output} (h : (dma ndebug garbage).Run es sys tr) : LifeInv sys tr :=
  Machine.inv_run (M := dma ndebug garbage) (I := LifeInv) (lifeInv_init ndebug garbage)
    (fun _ _ _ _ _ hI hs => lifeInv_step hI hs) h

/-- **The payload lifecycle.** Payloads beyond those allocated are not acquired; each allocated one
is acquired once, released at most once and not touched after its release; and when the target has
delivered its response and the call that handles it has returned, it has been released. -/
theorem payload_lifecycle {ndebug : Bool} {garbage : Bytes} {es : List Event} {sys : System}
    {tr : List Output} (h : (dma ndebug garbage).Run es sys tr) (k : Nat) :
    (tr.count (.acquire k) = if k < sys.count then 1 else 0) ∧
      tr.count (.release k) ≤ 1 ∧
      (∀ pre post, tr = pre ++ .release k :: post → .touch k ∉ post) ∧
      (k < sys.count → sys.phase k = .responded → k ∉ sys.handling →
        tr.count (.release k) = 1) := by
  have hinv := lifeInv_run h
  have hlife : life k tr ≠ .broken := by
    rw [hinv.life, System.expected]
    split_ifs <;> decide
  obtain ⟨hacq, hrel, hun⟩ := spelled_of_life k tr hlife
  rw [hinv.life] at hacq hrel
  refine ⟨?_, ?_, hun, ?_⟩
  · rw [hacq, System.expected]
    split_ifs <;> rfl
  · rw [hrel, System.expected]
    split_ifs <;> decide
  · intro hlt hphase hh
    rw [hrel, System.expected, if_pos hlt, if_pos ⟨hphase, hh⟩]
    rfl

/-- The whole backward protocol of the first transaction is nested in its forward call; the second
one completes inline. -/
def nestedResponse : List Event :=
  [.arrive [1, 2] 5, .activate, .bwEndReq 0, .bwBeginResp 0, .returnEndResp, .accept,
    .setResponseStatus 1 .ok, .complete]

theorem payload_lifecycle_nestedResponse :
    ∃ sys tr, (dma false fun _ => 0).Run nestedResponse sys tr ∧ sys.count = 2 ∧
      tr.count (.acquire 0) = 1 ∧ tr.count (.release 0) = 1 ∧ tr.count (.release 1) = 1 ∧
      ∀ pre post, tr = pre ++ .release 0 :: post → .touch 0 ∉ post :=
  have h : (dma false fun _ => 0).Run nestedResponse _ _ := rfl
  ⟨_, _, h, rfl, (payload_lifecycle h 0).1,
    (payload_lifecycle h 0).2.2.2 (by decide) rfl (by decide),
    (payload_lifecycle h 1).2.2.2 (by decide) rfl (by decide), (payload_lifecycle h 0).2.2.1⟩

end RenodeSystemC.Dma
