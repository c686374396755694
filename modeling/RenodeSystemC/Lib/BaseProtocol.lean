import Mathlib.Data.List.Basic

/-!
# Partial automata, and the base protocol

A transition function that may refuse a letter takes a word if it takes every letter (`after`). An
automaton is an abstraction of another one, through a map of the states and a map of the letters, of
which it need not see all, if every step of the other one is a step of it or leaves its state alone.

**Theorem (`Abstracts.after`).** An abstraction takes what it sees of every word that the other
automaton takes.

The TLM base protocol is an automaton for one transaction on one hop, from an initiator socket to a
target socket (`HopPhase.next`).
-/

namespace RenodeSystemC

/-! ## Partial automata -/

section Automata

variable {σ τ ε ζ : Type*}

/-- The state after a word, if every letter is taken. -/
def after (δ : σ → ε → Option σ) (s : σ) (w : List ε) : Option σ := w.foldlM δ s

variable {δ : σ → ε → Option σ} {δ' : τ → ζ → Option τ} {s s' : σ} {w : List ε} {x : ε}

theorem after_cons : after δ s (x :: w) = (δ s x).bind fun s' => after δ s' w := rfl

theorem after_concat : after δ s (w ++ [x]) = (after δ s w).bind fun s' => δ s' x := by
  unfold after
  rw [List.foldlM_append]
  simp

/-- `δ'` is an abstraction of `δ`. -/
def Abstracts (φ : σ → τ) (see : ε → Option ζ) (δ : σ → ε → Option σ) (δ' : τ → ζ → Option τ) :
    Prop :=
  ∀ s x s', δ s x = some s' →
    match see x with
    | none => φ s' = φ s
    | some y => δ' (φ s) y = some (φ s')

/-- **The abstraction takes what it sees.** -/
theorem Abstracts.after {φ : σ → τ} {see : ε → Option ζ} (h : Abstracts φ see δ δ')
    (hw : after δ s w = some s') :
    RenodeSystemC.after δ' (φ s) (w.filterMap see) = some (φ s') := by
  induction w generalizing s with
  | nil =>
    cases hw
    rfl
  | cons x w ih =>
    rw [after_cons] at hw
    obtain ⟨s₁, hs, hw⟩ := Option.bind_eq_some_iff.1 hw
    have hx := h s x s₁ hs
    have hrest := ih hw
    cases hsee : see x with
    | none =>
      rw [hsee] at hx
      rw [List.filterMap_cons_none hsee, ← hx]
      exact hrest
    | some y =>
      rw [hsee] at hx
      rw [List.filterMap_cons_some hsee, after_cons, hx]
      exact hrest

end Automata

/-! ## The base protocol -/

/-- The phases of the base protocol, as they are passed over a hop in either direction, and the
return value that ends a transaction early. -/
inductive Transition where
  | beginReq
  | endReq
  | beginResp
  | endResp
  | completed
  deriving DecidableEq, Repr

/-- How far a transaction is on a hop. -/
inductive HopPhase where
  | idle
  /-- `BEGIN_REQ` was sent. -/
  | requesting
  /-- `END_REQ` was sent. -/
  | accepted
  /-- `BEGIN_RESP` was sent. -/
  | responding
  deriving DecidableEq, Repr

/-- A target may skip `END_REQ`, or complete the transaction instead; an initiator may complete it
instead of sending `END_RESP`. -/
def HopPhase.next : HopPhase → Transition → Option HopPhase
  | .idle, .beginReq => some .requesting
  | .requesting, .endReq => some .accepted
  | .requesting, .beginResp | .accepted, .beginResp => some .responding
  | .requesting, .completed => some .idle
  | .responding, .endResp | .responding, .completed => some .idle
  | _, _ => none

/-- The transitions of a transaction on a hop keep to the base protocol. -/
def KeepsBaseProtocol (w : List Transition) : Prop := (after HopPhase.next .idle w).isSome = true

instance (w : List Transition) : Decidable (KeepsBaseProtocol w) :=
  inferInstanceAs (Decidable (_ = _))

end RenodeSystemC
