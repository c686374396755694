import Mathlib.Data.List.Chain
import Mathlib.Data.List.GetD

/-!
# Waveforms

A waveform is the list of the levels of a signal in consecutive cycles. Its rising edges are again
a waveform, one cycle shorter, with no two high cycles in a row; so a signal that repeats them a
cycle later, as `pulses` does, has one pulse of one cycle for each of them.
-/

namespace RenodeSystemC

/-- Whether the signal rises from each cycle to the next. -/
def edges : List Bool → List Bool
  | a :: b :: w => (!a && b) :: edges (b :: w)
  | _ => []

/-- How often the signal rises. -/
def rises (w : List Bool) : Nat := (edges w).count true

/-- The rising edges, each shown two cycles after the low level it starts from. -/
def pulses (w : List Bool) : List Bool := (false :: false :: edges w).dropLast

section Edges

variable (w : List Bool) (a b : Bool)

theorem edges_concat : edges (w ++ [a] ++ [b]) = edges (w ++ [a]) ++ [!a && b] := by
  induction w with
  | nil => rfl
  | cons x w ih =>
    cases w with
    | nil => rfl
    | cons y w =>
      simp only [List.cons_append, edges] at ih ⊢
      rw [ih]

theorem edges_dropLast : edges w.dropLast = (edges w).dropLast := by
  rcases w.eq_nil_or_concat with rfl | ⟨u, b, rfl⟩
  · rfl
  · rcases u.eq_nil_or_concat with rfl | ⟨v, a, rfl⟩
    · rfl
    · simp only [List.concat_eq_append]
      rw [edges_concat, List.dropLast_concat, List.dropLast_concat]

/-- The signal does not rise twice in a row. -/
theorem isChain_edges : ∀ w : List Bool, (edges w).IsChain fun a b => a = true → b = false
  | [] | [_] => List.IsChain.nil
  | [_, _] => List.isChain_singleton _
  | a :: b :: c :: w => by
    have ih := isChain_edges (b :: c :: w)
    simp only [edges] at ih ⊢
    refine List.isChain_cons_cons.2 ⟨?_, ih⟩
    cases b <;> simp

/-- If no two high levels follow each other, the edges are the levels themselves. -/
theorem edges_of_isChain {a : Bool} {w : List Bool}
    (h : (a :: w).IsChain fun a b => a = true → b = false) : edges (a :: w) = w := by
  induction w generalizing a with
  | nil => rfl
  | cons b w ih =>
    obtain ⟨hab, hrest⟩ := List.isChain_cons_cons.1 h
    rw [edges, ih hrest]
    cases a <;> cases b <;> simp_all

theorem length_edges : ∀ w : List Bool, (edges w).length = w.length - 1
  | [] | [_] => rfl
  | a :: b :: w => by
    have ih := length_edges (b :: w)
    simp only [edges, List.length_cons] at ih ⊢
    omega

theorem getD_edges {w : List Bool} {k : Nat} (h : k + 1 < w.length) :
    (edges w).getD k false = (!w.getD k false && w.getD (k + 1) false) := by
  induction w generalizing k with
  | nil => cases h
  | cons a w ih =>
    cases w with
    | nil => simp at h
    | cons b w =>
      cases k with
      | zero => rfl
      | succ k => exact ih (by simpa using h)

end Edges

section Pulses

variable (w : List Bool)

theorem length_pulses : (pulses w).length = w.length - 1 + 1 := by
  rw [pulses, List.length_dropLast, List.length_cons, List.length_cons, length_edges,
    Nat.add_sub_cancel]

/-- A pulse is high two cycles after the low level that its edge starts from, and nowhere else. -/
theorem getD_pulses {w : List Bool} {k : Nat} (h : k + 2 < w.length) :
    (pulses w).getD (k + 2) false = (!w.getD k false && w.getD (k + 1) false) := by
  have hlt : k + 2 < (pulses w).length := by
    rw [length_pulses]
    omega
  have hlt' : k < (edges w).length := by
    rw [length_edges]
    omega
  rw [← getD_edges (by omega), List.getD_eq_getElem _ _ hlt, List.getD_eq_getElem _ _ hlt']
  simp only [pulses, List.getElem_dropLast, List.getElem_cons_succ]

/-- No pulse is longer than one cycle. -/
theorem isChain_pulses : (pulses w).IsChain fun a b => a = true → b = false := by
  apply List.IsChain.dropLast
  refine List.isChain_cons_cons.2 ⟨by simp, ?_⟩
  cases hedges : edges w with
  | nil => exact List.isChain_singleton _
  | cons b u =>
    have h := isChain_edges w
    rw [hedges] at h
    exact List.isChain_cons_cons.2 ⟨by simp, h⟩

/-- **As many pulses as edges**, except for an edge that has just been seen. -/
theorem rises_pulses : rises (pulses w) = rises w.dropLast := by
  have hchain := isChain_pulses w
  have hcons : pulses w = false :: (false :: edges w).dropLast := rfl
  rw [hcons] at hchain
  rw [rises, rises, hcons, edges_of_isChain hchain, edges_dropLast]
  cases edges w with
  | nil => rfl
  | cons b u =>
    rw [List.dropLast_cons_cons]
    exact List.count_cons_of_ne (by decide)

end Pulses

end RenodeSystemC
