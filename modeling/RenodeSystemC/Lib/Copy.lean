import Mathlib.Logic.Function.Basic

/-!
# Copying cell by cell

A memory is a function from addresses to values. `forward s d m n` copies the cell `s k` to the cell
`d k` for `k = 0, 1, …, n - 1`, one after the other, so that a cell written earlier may be read
later. As long as no two destinations are the same:

* a cell that is no destination keeps its value (`forward_of_ne`);
* a destination gets the old value of its source if the source was not written before
  (`forward_of_fresh`);
* if from the `p`-th on each source is the destination `p` places back, the destinations repeat the
  first `p` sources (`forward_of_chain`).
-/

namespace RenodeSystemC

variable {ι β : Type*} [DecidableEq ι]

/-- The memory after `n` copies. -/
def forward (s d : Nat → ι) (m : ι → β) : Nat → ι → β
  | 0 => m
  | n + 1 => Function.update (forward s d m n) (d n) (forward s d m n (s n))

variable {s d : Nat → ι} {m : ι → β} {n i : Nat}

theorem forward_of_ne {a : ι} (h : ∀ k < n, a ≠ d k) : forward s d m n a = m a := by
  induction n with
  | zero => rfl
  | succ n ih =>
    rw [forward, Function.update_of_ne (h n (Nat.lt_succ_self n))]
    exact ih fun k hk => h k (Nat.lt_succ_of_lt hk)

section Injective

variable (hd : ∀ j k, j < n → k < n → d j = d k → j = k)

include hd

/-- A destination holds what its source held when it was copied. -/
theorem forward_dst (hi : i < n) : forward s d m n (d i) = forward s d m i (s i) := by
  induction n with
  | zero => exact absurd hi (Nat.not_lt_zero i)
  | succ n ih =>
    rw [forward]
    by_cases hin : i = n
    · rw [hin, Function.update_self]
    · have hlt : i < n := by omega
      have hne : d i ≠ d n := fun heq => hin (hd i n hi (Nat.lt_succ_self n) heq)
      rw [Function.update_of_ne hne]
      exact ih (fun j k hj hk => hd j k (Nat.lt_succ_of_lt hj) (Nat.lt_succ_of_lt hk)) hlt

theorem forward_of_fresh (hi : i < n) (hs : ∀ j < i, s i ≠ d j) :
    forward s d m n (d i) = m (s i) := by
  rw [forward_dst hd hi, forward_of_ne hs]

theorem forward_of_chain {p : Nat} (hp : 0 < p) (hback : ∀ i < n, p ≤ i → s i = d (i - p))
    (hfresh : ∀ i < n, i < p → ∀ j < i, s i ≠ d j) (hi : i < n) :
    forward s d m n (d i) = m (s (i % p)) := by
  induction i using Nat.strongRecOn with
  | ind i ih =>
    by_cases hlt : i < p
    · rw [Nat.mod_eq_of_lt hlt]
      exact forward_of_fresh hd hi (hfresh i hi hlt)
    · have hle : p ≤ i := Nat.le_of_not_lt hlt
      have hprev : i - p < i := Nat.sub_lt (Nat.lt_of_lt_of_le hp hle) hp
      have hdprev : ∀ j k, j < i → k < i → d j = d k → j = k :=
        fun j k hj hk => hd j k (Nat.lt_trans hj hi) (Nat.lt_trans hk hi)
      calc forward s d m n (d i) = forward s d m i (d (i - p)) := by
            rw [forward_dst hd hi, hback i hi hle]
        _ = forward s d m n (d (i - p)) := by
            rw [forward_dst hdprev hprev, forward_dst hd (Nat.lt_trans hprev hi)]
        _ = m (s (i % p)) := by
            rw [ih (i - p) hprev (Nat.lt_trans hprev hi), Nat.mod_eq_sub_mod hle]

end Injective

end RenodeSystemC
