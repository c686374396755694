import Mathlib.Data.List.GetD
import Mathlib.Data.UInt
import Mathlib.Tactic.Ring

/-!
# Byte memories

`Bytes` is the memory seen from the start of an array: index `i` is the byte `i` places after the
first one, whether or not the array is that long. A copy into or out of the array (`store`, `load`)
is therefore defined for every range, and a range that leaves the array is visible as one: it
is a `Span` that does not lie `Within` the array's size.

Words are little-endian: `leWord` reads a list of bytes, `leBytes` writes one.
-/

namespace RenodeSystemC

/-- The bytes at and after the start of an array. -/
abbrev Bytes := Nat → UInt8

namespace Bytes

/-- `memcpy` into the array: the bytes of `src` at `off` onwards. -/
def store (b : Bytes) (off : Nat) (src : List UInt8) : Bytes := fun i =>
  if off ≤ i ∧ i < off + src.length then src.getD (i - off) 0 else b i

/-- `memcpy` out of the array: `len` bytes from `off`. -/
def load (b : Bytes) (off len : Nat) : List UInt8 := (List.range len).map fun k => b (off + k)

/-- The number a list of bytes stands for, least significant byte first. -/
def leWord (bs : List UInt8) : Nat := bs.foldr (fun x acc => x.toNat + 256 * acc) 0

/-- The `w` low bytes of `v`, least significant first. -/
def leBytes : Nat → Nat → List UInt8
  | 0, _ => []
  | w + 1, v => UInt8.ofNat v :: leBytes w (v / 256)

/-- The 32-bit word at `off`. -/
def word32 (b : Bytes) (off : Nat) : UInt32 := UInt32.ofNat (leWord (b.load off 4))

/-- The 64-bit word at `off`. -/
def word64 (b : Bytes) (off : Nat) : UInt64 := UInt64.ofNat (leWord (b.load off 8))

/-! ## Loads and stores -/

@[simp] theorem length_load (b : Bytes) (off len : Nat) : (b.load off len).length = len := by
  simp [load]

theorem load_congr {b b' : Bytes} {off len : Nat}
    (h : ∀ i, off ≤ i → i < off + len → b i = b' i) : b.load off len = b'.load off len := by
  simp only [load, List.map_inj_left, List.mem_range]
  intro k hk
  exact h (off + k) (by omega) (by omega)

theorem store_of_mem {b : Bytes} {off i : Nat} {src : List UInt8} (h₁ : off ≤ i)
    (h₂ : i < off + src.length) : b.store off src i = src.getD (i - off) 0 := by
  simp [store, h₁, h₂]

theorem store_of_notMem {b : Bytes} {off i : Nat} {src : List UInt8}
    (h : i < off ∨ off + src.length ≤ i) : b.store off src i = b i := by
  have : ¬ (off ≤ i ∧ i < off + src.length) := by omega
  simp [store, this]

@[simp] theorem load_store_self (b : Bytes) (off : Nat) (src : List UInt8) :
    (b.store off src).load off src.length = src := by
  apply List.ext_getElem (by simp)
  intro k h₁ h₂
  simp only [load, List.getElem_map, List.getElem_range]
  rw [store_of_mem (by omega) (by omega), Nat.add_sub_cancel_left, List.getD_eq_getElem _ _ h₂]

/-- A store leaves the bytes outside its range alone. -/
theorem load_store_of_disjoint {b : Bytes} {off len off' : Nat} {src : List UInt8}
    (h : off + len ≤ off' ∨ off' + src.length ≤ off) :
    (b.store off' src).load off len = b.load off len :=
  load_congr fun i _ _ => store_of_notMem (by omega)

/-- Stores to disjoint ranges commute. -/
theorem store_comm (b : Bytes) {off off' : Nat} {src src' : List UInt8}
    (h : off + src.length ≤ off' ∨ off' + src'.length ≤ off) :
    (b.store off src).store off' src' = (b.store off' src').store off src := by
  funext i
  by_cases hi : off ≤ i ∧ i < off + src.length
  · rw [store_of_notMem (by omega), store_of_mem hi.1 hi.2, store_of_mem hi.1 hi.2]
  · rw [store_of_notMem (b := b.store off' src') (by omega)]
    simp only [store, hi, if_false]

theorem word32_congr {b b' : Bytes} {off : Nat} (h : ∀ i, off ≤ i → i < off + 4 → b i = b' i) :
    b.word32 off = b'.word32 off := by
  rw [word32, word32, load_congr h]

theorem word64_congr {b b' : Bytes} {off : Nat} (h : ∀ i, off ≤ i → i < off + 8 → b i = b' i) :
    b.word64 off = b'.word64 off := by
  rw [word64, word64, load_congr h]

/-! ## Little-endian words -/

@[simp] theorem length_leBytes (w v : Nat) : (leBytes w v).length = w := by
  induction w generalizing v with
  | zero => rfl
  | succ w ih => simp [leBytes, ih]

/-- Reading back a written word. -/
theorem leWord_leBytes (w v : Nat) : leWord (leBytes w v) = v % 256 ^ w := by
  induction w generalizing v with
  | zero => simp [leBytes, leWord, Nat.mod_one]
  | succ w ih =>
    have hcons : leWord (leBytes (w + 1) v) = v % 256 + 256 * leWord (leBytes w (v / 256)) := by
      simp [leBytes, leWord]
    rw [hcons, ih, pow_succ, Nat.mul_comm (256 ^ w), Nat.mod_mul]

theorem word32_store_leBytes (b : Bytes) (off : Nat) (v : UInt32) :
    (b.store off (leBytes 4 v.toNat)).word32 off = v := by
  have h := load_store_self b off (leBytes 4 v.toNat)
  rw [length_leBytes] at h
  have hv : v.toNat % 256 ^ 4 = v.toNat := Nat.mod_eq_of_lt v.toNat_lt
  rw [word32, h, leWord_leBytes, hv, UInt32.ofNat_toNat]

theorem word64_store_leBytes (b : Bytes) (off : Nat) (v : UInt64) :
    (b.store off (leBytes 8 v.toNat)).word64 off = v := by
  have h := load_store_self b off (leBytes 8 v.toNat)
  rw [length_leBytes] at h
  have hv : v.toNat % 256 ^ 8 = v.toNat := Nat.mod_eq_of_lt v.toNat_lt
  rw [word64, h, leWord_leBytes, hv, UInt64.ofNat_toNat]

theorem leWord_lt (bs : List UInt8) : leWord bs < 256 ^ bs.length := by
  induction bs with
  | nil => exact Nat.one_pos
  | cons b bs ih =>
    have hb : b.toNat < 256 := b.toNat_lt
    show b.toNat + 256 * leWord bs < 256 ^ (bs.length + 1)
    rw [pow_succ]
    omega

/-- Writing a word that was read. -/
theorem leBytes_leWord (bs : List UInt8) : leBytes bs.length (leWord bs) = bs := by
  induction bs with
  | nil => rfl
  | cons b bs ih =>
    have hb : b.toNat < 256 := b.toNat_lt
    have hcons : leWord (b :: bs) = b.toNat + 256 * leWord bs := rfl
    have hhead : UInt8.ofNat (leWord (b :: bs)) = b := by
      rw [← UInt8.toNat_inj, UInt8.toNat_ofNat', hcons]
      omega
    have htail : leWord (b :: bs) / 256 = leWord bs := by omega
    rw [List.length_cons, leBytes, hhead, htail, ih]

theorem leBytes_word64 (b : Bytes) (off : Nat) :
    leBytes 8 (b.word64 off).toNat = b.load off 8 := by
  have hlt := leWord_lt (b.load off 8)
  rw [length_load] at hlt
  have h := leBytes_leWord (b.load off 8)
  rw [length_load] at h
  have hmod : leWord (b.load off 8) % 2 ^ 64 = leWord (b.load off 8) := Nat.mod_eq_of_lt hlt
  rw [word64, UInt64.toNat_ofNat', hmod, h]

theorem getD_load (b : Bytes) {off len k : Nat} (h : k < len) :
    (b.load off len).getD k 0 = b (off + k) := by
  rw [List.getD_eq_getElem _ _ (by rw [length_load]; exact h)]
  simp [load]

end Bytes

/-! ## Spans -/

/-- A range of byte indices. -/
structure Span where
  start : Nat
  len : Nat
  deriving DecidableEq, Repr

/-- Every index of the span is below `n`. -/
def Span.Within (r : Span) (n : Nat) : Prop := ∀ i, r.start ≤ i → i < r.start + r.len → i < n

theorem Span.within_iff {r : Span} {n : Nat} : r.Within n ↔ r.len = 0 ∨ r.start + r.len ≤ n := by
  constructor
  · intro h
    by_cases h0 : r.len = 0
    · exact Or.inl h0
    · have := h (r.start + r.len - 1) (by omega) (by omega)
      exact Or.inr (by omega)
  · intro h i h₁ h₂
    omega

instance (r : Span) (n : Nat) : Decidable (r.Within n) := decidable_of_iff _ Span.within_iff.symm

end RenodeSystemC
