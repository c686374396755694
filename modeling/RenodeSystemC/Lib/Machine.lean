import Mathlib.Algebra.BigOperators.Group.Finset.Basic
import Mathlib.Data.List.Basic

/-!
# Machines and their runs

A machine takes events one at a time, may refuse an event, and emits a list of outputs for
each one it takes. A *run* is a list of events, all of them taken, from the initial state; its
*trace* is everything emitted on the way, in order. The nondeterminism of a concurrent system
(which process is scheduled, when a call returns) is in the choice of events, so a statement
about all runs is a statement about all interleavings.

* `inv_run`: what holds initially and is kept by every step holds at the end of every run.
* `inv_run_of_allSteps`: the same, when only the steps that meet a guard keep it and every
  step of the run meets the guard.
* `inv_run_of_allowed`: the same, for a guard that may also look at the trace so far.
* `forall_prefix_iff_allowed`: such a guard is exact when every other step breaks the property.
* `done_of_rank`: a goal that every step comes closer to is reached by every long enough run.
* `observing`: the machine with the outputs an observer makes of its steps.
* `Projects.run`: a machine that shows a deterministic device through a view of its state, of
  its events and of its outputs, and hides everything else, ends every run where the device
  ends on the commands of the run.
-/

namespace RenodeSystemC

/-- An initial state and a step function; `none` refuses the event. -/
structure Machine (σ ε ω : Type*) where
  init : σ
  step : σ → ε → Option (σ × List ω)

namespace Machine

variable {σ ε ω : Type*} (M : Machine σ ε ω)

/-- Feed a list of events, collecting the outputs. -/
def runFrom (s : σ) : List ε → Option (σ × List ω)
  | [] => some (s, [])
  | e :: es =>
    match M.step s e with
    | none => none
    | some (s₁, o) =>
      match runFrom s₁ es with
      | none => none
      | some (s₂, os) => some (s₂, o ++ os)

/-- The events `es` are all taken from the initial state, end in `s`, and emit `tr`. -/
def Run (es : List ε) (s : σ) (tr : List ω) : Prop := M.runFrom M.init es = some (s, tr)

/-- Every event of the list is taken in a state where `G` allows it. -/
def AllSteps (G : σ → ε → Prop) (s : σ) : List ε → Prop
  | [] => True
  | e :: es =>
    G s e ∧
      match M.step s e with
      | none => True
      | some (s₁, _) => AllSteps G s₁ es

instance decidableAllSteps (G : σ → ε → Prop) [∀ s e, Decidable (G s e)] (s : σ) :
    ∀ es : List ε, Decidable (M.AllSteps G s es)
  | [] => inferInstanceAs (Decidable True)
  | e :: es =>
    have : Decidable (match M.step s e with
        | none => True
        | some (s₁, _) => M.AllSteps G s₁ es) :=
      match M.step s e with
      | none => inferInstanceAs (Decidable True)
      | some (s₁, _) => decidableAllSteps G s₁ es
    inferInstanceAs (Decidable (_ ∧ _))

variable {M}

@[simp] theorem runFrom_nil {s : σ} : M.runFrom s [] = some (s, []) := rfl

theorem runFrom_cons_eq_some {s s' : σ} {e : ε} {es : List ε} {tr : List ω}
    (h : M.runFrom s (e :: es) = some (s', tr)) :
    ∃ s₁ o os, M.step s e = some (s₁, o) ∧ M.runFrom s₁ es = some (s', os) ∧ tr = o ++ os := by
  simp only [runFrom] at h
  split at h
  · cases h
  · rename_i s₁ o hstep
    split at h
    · cases h
    · rename_i s₂ os hrun
      cases h
      exact ⟨s₁, o, os, hstep, hrun, rfl⟩

theorem runFrom_cons {s s₁ s' : σ} {e : ε} {es : List ε} {o tr : List ω}
    (hs : M.step s e = some (s₁, o)) (h : M.runFrom s₁ es = some (s', tr)) :
    M.runFrom s (e :: es) = some (s', o ++ tr) := by
  simp only [runFrom, hs, h]

/-- A run can be continued. -/
theorem runFrom_append {s s₁ s₂ : σ} {es es' : List ε} {tr tr' : List ω}
    (h : M.runFrom s es = some (s₁, tr)) (h' : M.runFrom s₁ es' = some (s₂, tr')) :
    M.runFrom s (es ++ es') = some (s₂, tr ++ tr') := by
  induction es generalizing s tr with
  | nil =>
    cases h
    exact h'
  | cons e es ih =>
    obtain ⟨s', o, os, hs, hr, rfl⟩ := runFrom_cons_eq_some h
    simp only [List.cons_append, runFrom, hs, ih hr, List.append_assoc]

/-- An invariant of the events so far, the state and the trace, carried from any point of a
run. -/
theorem inv_runFrom {G : σ → ε → Prop} {I : List ε → σ → List ω → Prop}
    (hstep : ∀ es s tr e s' o, I es s tr → G s e → M.step s e = some (s', o) →
      I (es ++ [e]) s' (tr ++ o)) :
    ∀ {es : List ε} (es₀ : List ε) {s s' : σ} {tr₀ tr : List ω}, I es₀ s tr₀ → M.AllSteps G s es →
      M.runFrom s es = some (s', tr) → I (es₀ ++ es) s' (tr₀ ++ tr) := by
  intro es
  induction es with
  | nil =>
    intro es₀ s s' tr₀ tr hI _ hrun
    cases hrun
    simpa using hI
  | cons e es ih =>
    intro es₀ s s' tr₀ tr hI hG hrun
    obtain ⟨s₁, o, os, hs, hr, rfl⟩ := runFrom_cons_eq_some hrun
    rw [List.append_cons, ← List.append_assoc]
    obtain ⟨hg, hrest⟩ := hG
    rw [hs] at hrest
    exact ih (es₀ ++ [e]) (hstep es₀ s tr₀ e s₁ o hI hg hs) hrest hr

/-- **Guarded invariants.** If every step that meets `G` keeps `I`, then `I` holds at the end of
every run whose steps all meet `G`. -/
theorem inv_run_of_allSteps {G : σ → ε → Prop} {I : σ → List ω → Prop} (h0 : I M.init [])
    (hstep : ∀ s tr e s' o, I s tr → G s e → M.step s e = some (s', o) → I s' (tr ++ o))
    {es : List ε} {s : σ} {tr : List ω} (hG : M.AllSteps G M.init es) (h : M.Run es s tr) :
    I s tr := by
  have key : I s ([] ++ tr) := inv_runFrom (I := fun _ s tr => I s tr)
    (fun _ s tr e s' o => hstep s tr e s' o) [] h0 hG h
  simpa using key

/-- A guard on the events alone. -/
theorem allSteps_of_forall {G : σ → ε → Prop} (s : σ) {es : List ε} (h : ∀ e ∈ es, ∀ s, G s e) :
    M.AllSteps G s es := by
  induction es generalizing s with
  | nil => trivial
  | cons e es ih =>
    obtain ⟨he, hes⟩ := List.forall_mem_cons.1 h
    refine ⟨he s, ?_⟩
    split
    · trivial
    · exact ih _ hes

theorem allSteps_true (s : σ) (es : List ε) : M.AllSteps (fun _ _ => True) s es :=
  allSteps_of_forall s fun _ _ _ => trivial

/-- **Invariants over the history.** What holds initially and is kept by every step holds at
the end of every run; the invariant may speak about the events taken so far. -/
theorem inv_run_history {I : List ε → σ → List ω → Prop} (h0 : I [] M.init [])
    (hstep : ∀ es s tr e s' o, I es s tr → M.step s e = some (s', o) → I (es ++ [e]) s' (tr ++ o))
    {es : List ε} {s : σ} {tr : List ω} (h : M.Run es s tr) : I es s tr := by
  have key : I ([] ++ es) s ([] ++ tr) := inv_runFrom (G := fun _ _ => True)
    (fun es s tr e s' o hI _ hs => hstep es s tr e s' o hI hs) [] h0 (allSteps_true M.init es) h
  simpa using key

/-- **Invariants.** The same, for a property of the state and the trace alone. -/
theorem inv_run {I : σ → List ω → Prop} (h0 : I M.init [])
    (hstep : ∀ s tr e s' o, I s tr → M.step s e = some (s', o) → I s' (tr ++ o))
    {es : List ε} {s : σ} {tr : List ω} (h : M.Run es s tr) : I s tr :=
  inv_run_history (I := fun _ s tr => I s tr) h0 (fun _ s tr e s' o => hstep s tr e s' o) h

/-- **Ranked progress.** If the steps that `G` allows keep `I` and `D`, and lower the rank until `D`
holds, then `D` holds at the end of every run of such steps that is longer than the rank. -/
theorem done_of_rank {G : ε → Prop} {I D : σ → Prop} (rank : σ → Nat)
    (hstep : ∀ s e s' o, I s → G e → M.step s e = some (s', o) →
      I s' ∧ (D s → D s') ∧ (¬ D s → rank s' < rank s)) {es : List ε} :
    ∀ {s s' : σ} {tr : List ω}, I s → (∀ e ∈ es, G e) → M.runFrom s es = some (s', tr) →
      D s ∨ rank s < es.length → D s' := by
  induction es with
  | nil =>
    intro s s' tr _ _ hrun hdone
    cases hrun
    exact hdone.resolve_right (Nat.not_lt_zero _)
  | cons e es ih =>
    intro s s' tr hI hG hrun hdone
    obtain ⟨s₁, o, os, hs, hr, rfl⟩ := runFrom_cons_eq_some hrun
    obtain ⟨he, hes⟩ := List.forall_mem_cons.1 hG
    obtain ⟨hI₁, hkeep, hlower⟩ := hstep s e s₁ o hI he hs
    apply ih hI₁ hes hr
    by_cases h : D s
    · exact Or.inl (hkeep h)
    · have hrank := hdone.resolve_left h
      rw [List.length_cons] at hrank
      exact Or.inr (Nat.lt_of_lt_of_le (hlower h) (Nat.le_of_lt_succ hrank))

/-- **Counted progress.** If every step keeps `I` and `D`, and a counted step lowers the rank,
which no step raises, until `D` holds, then `D` holds at the end of every run in which more steps
are counted than the initial rank. -/
theorem count_le_of_rank {I : σ → List ω → Prop} {D : σ → Prop} {c : ε → Bool} (rank : σ → Nat)
    (h0 : I M.init [])
    (hstep : ∀ s tr e s' o, I s tr → M.step s e = some (s', o) → I s' (tr ++ o) ∧ (D s → D s') ∧
      (D s' ∨ rank s' + (if c e then 1 else 0) ≤ rank s))
    {es : List ε} {s : σ} {tr : List ω} (h : M.Run es s tr) :
    D s ∨ (es.filter c).length + rank s ≤ rank M.init := by
  have key := inv_run_history
    (I := fun es s tr => I s tr ∧ (D s ∨ (es.filter c).length + rank s ≤ rank M.init))
    ⟨h0, Or.inr (Nat.le_of_eq (Nat.zero_add _))⟩ ?_ h
  · exact key.2
  · intro es s tr e s' o hI hs
    obtain ⟨hI', hkeep, hlower⟩ := hstep s tr e s' o hI.1 hs
    refine ⟨hI', ?_⟩
    rcases hI.2 with hdone | hle
    · exact Or.inl (hkeep hdone)
    · rcases hlower with hdone | hlower
      · exact Or.inl hdone
      · right
        rw [List.filter_append, List.length_append, List.filter_singleton]
        cases hc : c e
        · simp only [hc] at hlower
          exact Nat.le_trans (Nat.add_le_add_left hlower _) hle
        · simp only [hc, if_true] at hlower
          show (es.filter c).length + 1 + rank s' ≤ _
          omega

/-- The total rank of a family of components, of which one changes. -/
theorem sum_rank_update {ι α : Type*} [Fintype ι] [DecidableEq ι] (rank : α → Nat) (family : ι → α)
    (i : ι) (x : α) : ∑ k, rank (Function.update family i x k) + rank (family i) =
      ∑ k, rank (family k) + rank x := by
  have hself : rank (Function.update family i x i) = rank x := by rw [Function.update_self]
  have hrest : ∑ k ∈ Finset.univ.erase i, rank (Function.update family i x k) =
      ∑ k ∈ Finset.univ.erase i, rank (family k) := by
    apply Finset.sum_congr rfl
    intro k hk
    rw [Function.update_of_ne (Finset.ne_of_mem_erase hk)]
  have hnew := Finset.add_sum_erase Finset.univ (fun k => rank (Function.update family i x k))
    (Finset.mem_univ i)
  have hold := Finset.add_sum_erase Finset.univ (fun k => rank (family k)) (Finset.mem_univ i)
  rw [hself, hrest] at hnew
  omega

/-! ## Guards over the history -/

/-- A run with one more event. -/
theorem Run.concat {es : List ε} {e : ε} {s s' : σ} {tr o : List ω} (h : M.Run es s tr)
    (hs : M.step s e = some (s', o)) : M.Run (es ++ [e]) s' (tr ++ o) := by
  apply runFrom_append h
  rw [runFrom_cons hs runFrom_nil, List.append_nil]

variable (M) in
/-- Every event of the list is taken in a state, and after a trace, for which `G` allows it. -/
def AllowedFrom (G : σ → List ω → ε → Prop) (s : σ) (tr : List ω) : List ε → Prop
  | [] => True
  | e :: es =>
    G s tr e ∧
      match M.step s e with
      | none => True
      | some (s₁, o) => AllowedFrom G s₁ (tr ++ o) es

variable (M) in
/-- Every event of a list, from the initial state. -/
def Allowed (G : σ → List ω → ε → Prop) (es : List ε) : Prop := M.AllowedFrom G M.init [] es

variable (M) in
instance decidableAllowedFrom (G : σ → List ω → ε → Prop) [∀ s tr e, Decidable (G s tr e)] (s : σ)
    (tr : List ω) : ∀ es : List ε, Decidable (M.AllowedFrom G s tr es)
  | [] => inferInstanceAs (Decidable True)
  | e :: es =>
    have : Decidable (match M.step s e with
        | none => True
        | some (s₁, o) => M.AllowedFrom G s₁ (tr ++ o) es) :=
      match M.step s e with
      | none => inferInstanceAs (Decidable True)
      | some (s₁, o) => decidableAllowedFrom G s₁ (tr ++ o) es
    inferInstanceAs (Decidable (_ ∧ _))

instance (G : σ → List ω → ε → Prop) [∀ s tr e, Decidable (G s tr e)] (es : List ε) :
    Decidable (M.Allowed G es) :=
  inferInstanceAs (Decidable (M.AllowedFrom G M.init [] es))

/-- The last event of a run is allowed on its own. -/
theorem allowedFrom_concat {G : σ → List ω → ε → Prop} {es : List ε} {e : ε} {s s' : σ}
    {tr₀ tr : List ω} (h : M.runFrom s es = some (s', tr)) :
    M.AllowedFrom G s tr₀ (es ++ [e]) ↔ M.AllowedFrom G s tr₀ es ∧ G s' (tr₀ ++ tr) e := by
  induction es generalizing s tr₀ tr with
  | nil =>
    cases h
    rw [List.append_nil, List.nil_append]
    refine ⟨fun hG => ⟨trivial, hG.1⟩, fun hG => ⟨hG.2, ?_⟩⟩
    split <;> trivial
  | cons e' es ih =>
    obtain ⟨s₁, o, os, hs, hr, rfl⟩ := runFrom_cons_eq_some h
    have hrest : M.AllowedFrom G s₁ (tr₀ ++ o) (es ++ [e]) ↔
        M.AllowedFrom G s₁ (tr₀ ++ o) es ∧ G s' (tr₀ ++ o ++ os) e := ih hr
    rw [← List.append_assoc]
    simp only [List.cons_append, AllowedFrom, hs, hrest, and_assoc]

/-- The first events of an allowed list are allowed. -/
theorem allowedFrom_append_left {G : σ → List ω → ε → Prop} {a b : List ε} {s : σ} {tr : List ω}
    (h : M.AllowedFrom G s tr (a ++ b)) : M.AllowedFrom G s tr a := by
  induction a generalizing s tr with
  | nil => trivial
  | cons e a ih =>
    obtain ⟨he, hrest⟩ := h
    refine ⟨he, ?_⟩
    cases hs : M.step s e with
    | none => trivial
    | some r =>
      rw [hs] at hrest
      exact ih hrest

theorem allowed_of_prefix {G : σ → List ω → ε → Prop} {pre es : List ε} (hpre : pre <+: es)
    (h : M.Allowed G es) : M.Allowed G pre := by
  obtain ⟨rest, rfl⟩ := hpre
  exact allowedFrom_append_left h

/-- **Invariants guarded by the history.** If every step that `G` allows keeps `I`, then `I` holds
at the end of every run whose steps are all allowed. -/
theorem inv_run_of_allowed_history {G : σ → List ω → ε → Prop} {I : List ε → σ → List ω → Prop}
    (h0 : I [] M.init [])
    (hstep : ∀ es s tr e s' o, I es s tr → G s tr e → M.step s e = some (s', o) →
      I (es ++ [e]) s' (tr ++ o))
    {es : List ε} {s : σ} {tr : List ω} (hG : M.Allowed G es) (h : M.Run es s tr) : I es s tr := by
  have key := inv_run_history (I := fun es s tr => M.Run es s tr ∧ (M.Allowed G es → I es s tr))
    ⟨rfl, fun _ => h0⟩ ?_ h
  · exact key.2 hG
  · intro es s tr e s' o hI hs
    refine ⟨hI.1.concat hs, ?_⟩
    intro hG
    obtain ⟨hes, he⟩ := (allowedFrom_concat hI.1).1 hG
    exact hstep es s tr e s' o (hI.2 hes) he hs

/-- The same for an invariant that does not speak of the events. -/
theorem inv_run_of_allowed {G : σ → List ω → ε → Prop} {I : σ → List ω → Prop} (h0 : I M.init [])
    (hstep : ∀ s tr e s' o, I s tr → G s tr e → M.step s e = some (s', o) → I s' (tr ++ o))
    {es : List ε} {s : σ} {tr : List ω} (hG : M.Allowed G es) (h : M.Run es s tr) : I s tr :=
  inv_run_of_allowed_history (I := fun _ s tr => I s tr) h0
    (fun _ s tr e s' o hI he hs => hstep s tr e s' o hI he hs) hG h

/-- **Runs of another machine.** Where the allowed steps are those of another machine, a run of
allowed steps is one of its runs. -/
theorem Run.congr {N : Machine σ ε ω} {G : σ → List ω → ε → Prop} (hinit : N.init = M.init)
    (hstep : ∀ s tr e, G s tr e → N.step s e = M.step s e) {es : List ε} {s : σ} {tr : List ω}
    (hG : M.Allowed G es) (h : M.Run es s tr) : N.Run es s tr := by
  refine inv_run_of_allowed_history (I := fun es s tr => N.Run es s tr) ?_ ?_ hG h
  · rw [← hinit]
    rfl
  · intro es s tr e s' o hrun he hs
    exact hrun.concat ((hstep s tr e he).trans hs)

/-- **Exact guards.** If the allowed steps keep `I`, which implies `P`, and a step from `I` that is
not allowed leads to a state without `P`, then a run has `P` throughout if and only if all its
steps are allowed. -/
theorem forall_prefix_iff_allowed {G : σ → List ω → ε → Prop} {I P : σ → List ω → Prop}
    (h0 : I M.init [])
    (hstep : ∀ s tr e s' o, I s tr → G s tr e → M.step s e = some (s', o) → I s' (tr ++ o))
    (hP : ∀ s tr, I s tr → P s tr)
    (hbad : ∀ s tr e s' o, I s tr → ¬ G s tr e → M.step s e = some (s', o) → ¬ P s' (tr ++ o))
    {es : List ε} {s : σ} {tr : List ω} (h : M.Run es s tr) :
    (∀ pre s' tr', pre <+: es → M.Run pre s' tr' → P s' tr') ↔ M.Allowed G es := by
  have key := inv_run_history (I := fun es s tr => M.Run es s tr ∧
    ((∀ pre s' tr', pre <+: es → M.Run pre s' tr' → P s' tr') ↔ M.Allowed G es)) ?_ ?_ h
  · exact key.2
  · refine ⟨rfl, iff_of_true ?_ trivial⟩
    intro pre s' tr' hpre hrun
    rw [List.prefix_nil.1 hpre] at hrun
    cases hrun
    exact hP _ _ h0
  · intro es s tr e s' o hI hs
    have hrun := hI.1.concat hs
    refine ⟨hrun, ?_⟩
    rw [Allowed, allowedFrom_concat hI.1, ← Allowed, ← hI.2]
    constructor
    · intro hall
      refine ⟨fun pre s' tr' hpre => hall pre s' tr' (hpre.trans (List.prefix_append _ _)), ?_⟩
      by_contra hG
      have hes := hI.2.1 fun pre s' tr' hpre => hall pre s' tr'
        (hpre.trans (List.prefix_append _ _))
      exact hbad s tr e s' o (inv_run_of_allowed h0 hstep hes hI.1) hG hs
        (hall _ _ _ (List.prefix_refl _) hrun)
    · rintro ⟨hall, hG⟩ pre s₁ tr₁ hpre hrun₁
      rcases List.prefix_concat_iff.1 hpre with rfl | hpre
      · cases hrun.symm.trans hrun₁
        exact hP _ _ (inv_run_of_allowed h0 hstep
          ((allowedFrom_concat hI.1).2 ⟨hI.2.1 hall, hG⟩) hrun)
      · exact hall pre s₁ tr₁ hpre hrun₁

/-- **Guards with a delay.** If a step that is not allowed leads to a state without `P` or to a
doomed one, and a doomed state stays doomed for as long as `P` holds, then a run that has `P`
throughout and does not end doomed has taken allowed steps only. -/
theorem allowed_of_forall_prefix {G : σ → List ω → ε → Prop} {P D : σ → List ω → Prop}
    (hbad : ∀ s tr e s' o, ¬ G s tr e → M.step s e = some (s', o) → P s' (tr ++ o) → D s' (tr ++ o))
    (hdoomed : ∀ s tr e s' o, D s tr → M.step s e = some (s', o) → P s' (tr ++ o) → D s' (tr ++ o))
    {es : List ε} {s : σ} {tr : List ω} (h : M.Run es s tr)
    (hP : ∀ pre s' tr', pre <+: es → M.Run pre s' tr' → P s' tr') (hend : ¬ D s tr) :
    M.Allowed G es := by
  have key := inv_run_history (I := fun es s tr => M.Run es s tr ∧
    ((∀ pre s' tr', pre <+: es → M.Run pre s' tr' → P s' tr') → M.Allowed G es ∨ D s tr)) ?_ ?_ h
  · exact (key.2 hP).resolve_right hend
  · exact ⟨rfl, fun _ => Or.inl trivial⟩
  · intro es s tr e s' o hI hs
    have hrun := hI.1.concat hs
    refine ⟨hrun, ?_⟩
    intro hall
    have hlast : P s' (tr ++ o) := hall _ _ _ (List.prefix_refl _) hrun
    rcases hI.2 fun pre s' tr' hpre => hall pre s' tr' (hpre.trans (List.prefix_append _ _)) with
      hes | hD
    · by_cases hG : G s tr e
      · exact Or.inl ((allowedFrom_concat hI.1).2 ⟨hes, hG⟩)
      · exact Or.inr (hbad s tr e s' o hG hs hlast)
    · exact Or.inr (hdoomed s tr e s' o hD hs hlast)

/-! ## Observers -/

variable {ν κ β : Type*}

variable (M) in
/-- The machine, with other outputs: what `obs` makes of each step. -/
def observing (obs : σ → ε → σ → List β) : Machine σ ε β where
  init := M.init
  step s e := (M.step s e).map fun r => (r.1, obs s e r.1)

section Observing

variable {obs : σ → ε → σ → List β}

/-- An observed step is a step. -/
theorem observing_step {s s' : σ} {e : ε} {o : List β}
    (h : (M.observing obs).step s e = some (s', o)) :
    (∃ out, M.step s e = some (s', out)) ∧ o = obs s e s' := by
  obtain ⟨⟨s₁, out⟩, hs, heq⟩ := Option.map_eq_some_iff.1 h
  cases heq
  exact ⟨⟨out, hs⟩, rfl⟩

theorem step_observing {s s' : σ} {e : ε} {out : List ω} (h : M.step s e = some (s', out)) :
    (M.observing obs).step s e = some (s', obs s e s') :=
  Option.map_eq_some_iff.2 ⟨(s', out), h, rfl⟩

end Observing

/-! ## Projections -/

/-- A device that answers commands one by one: its last state and its answers. -/
def replay (f : ν → κ → ν × β) (v : ν) : List κ → ν × List β
  | [] => (v, [])
  | k :: ks => ((replay f (f v k).1 ks).1, (f v k).2 :: (replay f (f v k).1 ks).2)

theorem replay_concat (f : ν → κ → ν × β) (v : ν) (ks : List κ) (k : κ) :
    replay f v (ks ++ [k]) =
      ((f (replay f v ks).1 k).1, (replay f v ks).2 ++ [(f (replay f v ks).1 k).2]) := by
  induction ks generalizing v with
  | nil => rfl
  | cons k' ks ih => simp only [List.cons_append, replay, ih]

/-- What every command keeps holds after any list of commands. -/
theorem inv_replay {f : ν → κ → ν × β} {I : ν → Prop} (h : ∀ v k, I v → I (f v k).1)
    (ks : List κ) : ∀ {v : ν}, I v → I (replay f v ks).1 := by
  induction ks with
  | nil =>
    intro v hI
    exact hI
  | cons k ks ih =>
    intro v hI
    exact ih (h v k hI)

/-- **Refinement of devices.** If `g` answers through `view` as `f` does wherever `I` holds, and `f`
keeps `I`, then `g` answers every list of commands as `f` does. -/
theorem replay_view {μ : Type*} {f : ν → κ → ν × β} {g : μ → κ → μ × β} {view : ν → μ}
    {I : ν → Prop}
    (h : ∀ v k, I v → I (f v k).1 ∧ g (view v) k = (view (f v k).1, (f v k).2)) (ks : List κ) :
    ∀ {v : ν}, I v → replay g (view v) ks = (view (replay f v ks).1, (replay f v ks).2) := by
  induction ks with
  | nil =>
    intro v _
    rfl
  | cons k ks ih =>
    intro v hI
    obtain ⟨hI', hk⟩ := h v k hI
    simp only [replay, hk, ih hI']

/-- Through `view`, `cmd` and `obs` the machine is the device `f`, on the commands that meet
`P`: an event that carries no command leaves the view alone and answers nothing. -/
structure Projects (M : Machine σ ε ω) (view : σ → ν) (cmd : ε → Option κ) (obs : ω → Option β)
    (P : κ → Prop) (f : ν → κ → ν × β) : Prop where
  silent : ∀ s e s' o, M.step s e = some (s', o) → cmd e = none →
    view s' = view s ∧ o.filterMap obs = []
  command : ∀ s e s' o k, M.step s e = some (s', o) → cmd e = some k → P k →
    view s' = (f (view s) k).1 ∧ o.filterMap obs = [(f (view s) k).2]

/-- **A projected run is a run of the device.** -/
theorem Projects.run {view : σ → ν} {cmd : ε → Option κ} {obs : ω → Option β} {P : κ → Prop}
    {f : ν → κ → ν × β} (hM : M.Projects view cmd obs P f) {es : List ε} :
    ∀ {s s' : σ} {tr : List ω}, M.runFrom s es = some (s', tr) → (∀ k ∈ es.filterMap cmd, P k) →
      (view s', tr.filterMap obs) = replay f (view s) (es.filterMap cmd) := by
  induction es with
  | nil =>
    intro s s' tr hrun _
    cases hrun
    rfl
  | cons e es ih =>
    intro s s' tr hrun hP
    obtain ⟨s₁, o, os, hs, hr, rfl⟩ := runFrom_cons_eq_some hrun
    rw [List.filterMap_append]
    cases hcmd : cmd e with
    | none =>
      rw [List.filterMap_cons_none hcmd] at hP ⊢
      obtain ⟨hview, hobs⟩ := hM.silent s e s₁ o hs hcmd
      rw [hobs, ← hview, List.nil_append]
      exact ih hr hP
    | some k =>
      rw [List.filterMap_cons_some hcmd] at hP ⊢
      obtain ⟨hk, hks⟩ := List.forall_mem_cons.1 hP
      obtain ⟨hview, hobs⟩ := hM.command s e s₁ o k hs hcmd hk
      have hrest := ih hr hks
      rw [Prod.ext_iff] at hrest
      rw [replay, ← hview, ← hrest.1, ← hrest.2, hobs]
      rfl

end Machine

/-! ## Traces -/

/-- An entry of a continued trace is in the first part, or in the continuation. -/
theorem append_eq_append_cons {ω : Type*} {tr o pre post : List ω} {x : ω}
    (h : tr ++ o = pre ++ x :: post) :
    (∃ t, tr = pre ++ x :: t ∧ post = t ++ o) ∨ ∃ a, pre = tr ++ a ∧ o = a ++ x :: post := by
  rcases List.append_eq_append_iff.1 h with ⟨a, hpre, ho⟩ | ⟨t, htr, hpost⟩
  · exact Or.inr ⟨a, hpre, ho⟩
  · cases t with
    | nil =>
      rw [List.append_nil] at htr
      exact Or.inr ⟨[], by rw [htr, List.append_nil], hpost.symm⟩
    | cons y t =>
      rw [List.cons_append, List.cons.injEq] at hpost
      exact Or.inl ⟨t, by rw [htr, hpost.1], hpost.2⟩

/-- The same, for a trace continued by one entry. -/
theorem concat_eq_append_cons {ω : Type*} {tr pre post : List ω} {x y : ω}
    (h : tr ++ [y] = pre ++ x :: post) :
    (∃ t, tr = pre ++ x :: t ∧ post = t ++ [y]) ∨ pre = tr ∧ x = y ∧ post = [] := by
  rcases append_eq_append_cons h with hold | ⟨a, hpre, hlast⟩
  · exact Or.inl hold
  · cases a with
    | nil =>
      cases hlast
      rw [List.append_nil] at hpre
      exact Or.inr ⟨hpre, rfl, rfl⟩
    | cons z a => simp at hlast

end RenodeSystemC
