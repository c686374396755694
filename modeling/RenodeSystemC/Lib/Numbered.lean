import Mathlib.Data.List.Basic

/-!
# Numbered lists

In `Numbered P n l` the entries of `l` carry consecutive numbers from `n` on, and `P` holds of each
number with its entry. A queue that is filled at one end in the order of the numbers, and emptied at
the other, stays numbered; what is taken out carries the least number.
-/

namespace RenodeSystemC

variable {α : Type*} {P Q : Nat → α → Prop} {n : Nat} {x : α} {l l' : List α}

/-- `P n`, `P (n + 1)`, … hold of the entries in turn. -/
def Numbered (P : Nat → α → Prop) : Nat → List α → Prop
  | _, [] => True
  | n, x :: l => P n x ∧ Numbered P (n + 1) l

namespace Numbered

@[simp] theorem nil : Numbered P n [] := trivial

@[simp] theorem cons : Numbered P n (x :: l) ↔ P n x ∧ Numbered P (n + 1) l := Iff.rfl

theorem append : Numbered P n (l ++ l') ↔ Numbered P n l ∧ Numbered P (n + l.length) l' := by
  induction l generalizing n with
  | nil => simp
  | cons x l ih =>
    have hlen : n + 1 + l.length = n + (l.length + 1) := by omega
    rw [List.cons_append, cons, ih, cons, List.length_cons, hlen, and_assoc]

theorem concat : Numbered P n (l ++ [x]) ↔ Numbered P n l ∧ P (n + l.length) x := by
  rw [append, cons]
  exact and_congr_right fun _ => and_iff_left nil

/-- The entries alone decide. -/
theorem imp (h : ∀ k, ∀ x ∈ l, P k x → Q k x) : Numbered P n l → Numbered Q n l := by
  induction l generalizing n with
  | nil =>
    intro _
    exact nil
  | cons x l ih =>
    intro hl
    obtain ⟨hx, hrest⟩ := hl
    exact ⟨h n x (List.mem_cons_self ..) hx,
      ih (fun k y hy => h k y (List.mem_cons_of_mem x hy)) hrest⟩

end Numbered

end RenodeSystemC
