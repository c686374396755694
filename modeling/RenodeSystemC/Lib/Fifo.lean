import Mathlib.Data.List.Basic

/-!
# `sc_fifo`

A bounded FIFO channel with request-update semantics. What is written in one evaluation phase can be
read only after the update phase, and the cells of what is read become free only then. The update
phase after a write fires `data_written`.

The bound on the number of occupied cells is a field, so a FIFO that overflows cannot be built.
-/

namespace RenodeSystemC

structure ScFifo (α : Type*) where
  size : Nat
  /-- The values that can be read in this evaluation phase. -/
  readable : List α
  /-- How many values were read in this phase; their cells are still occupied. -/
  numRead : Nat
  /-- The values written in this phase. -/
  written : List α
  bound : readable.length + numRead + written.length ≤ size

namespace ScFifo

variable {α : Type*}

def empty (α : Type*) (size : Nat) : ScFifo α where
  size := size
  readable := []
  numRead := 0
  written := []
  bound := Nat.zero_le size

/-- `num_free`. -/
def numFree (f : ScFifo α) : Nat := f.size - (f.readable.length + f.numRead) - f.written.length

/-- Everything in the channel, oldest first. -/
def contents (f : ScFifo α) : List α := f.readable ++ f.written

/-- `nb_read`; a blocking `read` is one of these, taken when it succeeds. -/
def nbRead (f : ScFifo α) : Option (α × ScFifo α) :=
  match h : f.readable with
  | [] => none
  | x :: xs =>
    some (x, { f with
      readable := xs
      numRead := f.numRead + 1
      bound := by have := f.bound; rw [h, List.length_cons] at this; omega })

/-- `nb_write`; a blocking `write` is one of these, taken when it succeeds. -/
def nbWrite (f : ScFifo α) (x : α) : Option (ScFifo α) :=
  if h : 0 < f.numFree then
    some { f with
      written := f.written ++ [x]
      bound := by
        unfold numFree at h
        rw [List.length_append, List.length_singleton]
        omega }
  else none

/-- The update phase. -/
def update (f : ScFifo α) : ScFifo α where
  size := f.size
  readable := f.readable ++ f.written
  numRead := 0
  written := []
  bound := by
    have := f.bound
    rw [List.length_append, List.length_nil]
    omega

/-- The update phase fires `data_written`. -/
def dataWritten (f : ScFifo α) : Bool := !f.written.isEmpty

@[simp] theorem readable_update (f : ScFifo α) : f.update.readable = f.contents := rfl

@[simp] theorem contents_update (f : ScFifo α) : f.update.contents = f.contents :=
  List.append_nil _

/-- A channel that nothing was read from or written to stays as it is. -/
theorem update_of_settled {f : ScFifo α} (hread : f.numRead = 0) (hwritten : f.written = []) :
    f.update = f := by
  cases f with
  | mk size readable numRead written bound =>
    cases hread
    cases hwritten
    simp only [update, List.append_nil]

theorem nbRead_of_nil {f : ScFifo α} (h : f.readable = []) : f.nbRead = none := by
  unfold nbRead
  split
  · rfl
  · rename_i x xs heq
    rw [h] at heq
    cases heq

/-- **What a read takes.** -/
theorem nbRead_eq_some {f f' : ScFifo α} {x : α} (h : f.nbRead = some (x, f')) :
    f.readable = x :: f'.readable ∧ f.contents = x :: f'.contents := by
  unfold nbRead at h
  split at h
  · cases h
  · rename_i hf
    cases h
    exact ⟨hf, congrArg (· ++ f.written) hf⟩

theorem nbRead_eq_none {f : ScFifo α} (h : f.nbRead = none) : f.readable = [] := by
  unfold nbRead at h
  split at h
  · assumption
  · cases h

/-- **What a write adds.** -/
theorem nbWrite_eq_some {f f' : ScFifo α} {x : α} (h : f.nbWrite x = some f') :
    f'.readable = f.readable ∧ f'.contents = f.contents ++ [x] := by
  unfold nbWrite at h
  split_ifs at h
  cases h
  exact ⟨rfl, (List.append_assoc ..).symm⟩

/-- What a read does to the cells. -/
theorem nbRead_cells {f f' : ScFifo α} {x : α} (h : f.nbRead = some (x, f')) :
    f'.size = f.size ∧ f'.numRead = f.numRead + 1 ∧ f'.written = f.written := by
  unfold nbRead at h
  split at h
  · cases h
  · cases h
    exact ⟨rfl, rfl, rfl⟩

/-- What a write does to the cells. -/
theorem nbWrite_cells {f f' : ScFifo α} {x : α} (h : f.nbWrite x = some f') :
    f'.size = f.size ∧ f'.numRead = f.numRead ∧ f'.written = f.written ++ [x] := by
  unfold nbWrite at h
  split_ifs at h
  cases h
  exact ⟨rfl, rfl, rfl⟩

/-- A write succeeds while a cell is free. -/
theorem exists_nbWrite {f : ScFifo α} (h : 0 < f.numFree) (x : α) :
    ∃ f', f.nbWrite x = some f' := by
  unfold nbWrite
  rw [dif_pos h]
  exact ⟨_, rfl⟩

/-- A read succeeds while there is something to read. -/
theorem exists_nbRead {f : ScFifo α} (h : f.readable ≠ []) : ∃ r, f.nbRead = some r := by
  cases hr : f.nbRead with
  | none => exact absurd (nbRead_eq_none hr) h
  | some r => exact ⟨r, rfl⟩

/-- If the update phase makes anything readable that was not, `data_written` fires. -/
theorem dataWritten_eq_false {f : ScFifo α} (h : f.dataWritten = false) :
    f.contents = f.readable := by
  have hw : f.written = [] := by
    rw [dataWritten, Bool.not_eq_false', List.isEmpty_iff] at h
    exact h
  rw [contents, hw, List.append_nil]

end ScFifo

end RenodeSystemC
