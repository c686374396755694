import Mathlib.Data.UInt
import Mathlib.Logic.Function.Basic
import Mathlib.Tactic.SplitIfs

/-!
# A Thumb subset

The Thumb instructions that a polling loop over shared words is written in, with the flags that its
conditional branches read. An instruction loads or stores at most one word, and it does so in one
access to a bus; a program is a list of instructions, and labels are indices into it.

`ge_ofSub` and `ne_ofSub` say what a branch after a comparison decides.
-/

namespace RenodeSystemC.Thumb

/-! ## Cores and instructions -/

/-- The low registers. -/
inductive Reg where
  | r0 | r1 | r2 | r3 | r4 | r5 | r6 | r7
  deriving DecidableEq, Repr

/-- The negative, zero and overflow flags. -/
structure Flags where
  n : Bool
  z : Bool
  v : Bool
  deriving DecidableEq, Repr

structure Core where
  regs : Reg → UInt32
  flags : Flags
  pc : Nat

inductive Cond where
  | ge
  | ne
  deriving DecidableEq, Repr

inductive Instr where
  | movs (rd : Reg) (imm : UInt8)
  | ldr (rt rn : Reg) (imm : UInt32)
  | str (rt rn : Reg) (imm : UInt32)
  | cmp (rn rm : Reg)
  | ands (rdn rm : Reg)
  | adds (rdn : Reg) (imm : UInt8)
  | bcond (cond : Cond) (target : Nat)
  | b (target : Nat)
  deriving DecidableEq, Repr

/-- Word accesses to a memory with state `σ`. -/
structure Bus (σ : Type*) where
  load : σ → UInt32 → UInt32
  store : σ → UInt32 → UInt32 → σ

/-! ## Execution -/

/-- Bit 31. -/
def negative (x : UInt32) : Bool := 2 ^ 31 ≤ x.toNat

/-- The flags of a logical result; the overflow flag is kept. -/
def Flags.ofResult (f : Flags) (r : UInt32) : Flags := { f with n := negative r, z := r == 0 }

/-- The flags of `x + y`. -/
def Flags.ofAdd (x y : UInt32) : Flags :=
  ⟨negative (x + y), x + y == 0, negative x == negative y && negative (x + y) != negative x⟩

/-- The flags of `x - y`. -/
def Flags.ofSub (x y : UInt32) : Flags :=
  ⟨negative (x - y), x - y == 0, negative x != negative y && negative (x - y) != negative x⟩

def Cond.holds (f : Flags) : Cond → Bool
  | .ge => f.n == f.v
  | .ne => !f.z

namespace Core

/-- Go on to the next instruction. -/
def next (k : Core) : Core := { k with pc := k.pc + 1 }

def set (k : Core) (r : Reg) (x : UInt32) : Core := { k with regs := Function.update k.regs r x }

def setFlags (k : Core) (f : Flags) : Core := { k with flags := f }

def jump (k : Core) (target : Nat) : Core := { k with pc := target }

end Core

section Exec

variable {σ : Type*} (bus : Bus σ)

/-- One instruction, on a core and the memory behind the bus. -/
def exec (k : Core) (m : σ) : Instr → Core × σ
  | .movs rd imm =>
    let r := imm.toUInt32
    (((k.set rd r).setFlags (k.flags.ofResult r)).next, m)
  | .ldr rt rn imm => ((k.set rt (bus.load m (k.regs rn + imm))).next, m)
  | .str rt rn imm => (k.next, bus.store m (k.regs rn + imm) (k.regs rt))
  | .cmp rn rm => ((k.setFlags (.ofSub (k.regs rn) (k.regs rm))).next, m)
  | .ands rdn rm =>
    let r := k.regs rdn &&& k.regs rm
    (((k.set rdn r).setFlags (k.flags.ofResult r)).next, m)
  | .adds rdn imm =>
    let x := k.regs rdn
    (((k.set rdn (x + imm.toUInt32)).setFlags (.ofAdd x imm.toUInt32)).next, m)
  | .bcond cond target => (if cond.holds k.flags then k.jump target else k.next, m)
  | .b target => (k.jump target, m)

/-- Fetch and execute; nothing is known outside the program. -/
def step (prog : List Instr) (k : Core) (m : σ) : Core × σ :=
  match prog[k.pc]? with
  | none => (k, m)
  | some i => exec bus k m i

theorem step_of_getElem? {prog : List Instr} {k : Core} {i : Instr} (m : σ)
    (h : prog[k.pc]? = some i) : step bus prog k m = exec bus k m i := by
  rw [step, h]

end Exec

/-! ## Comparisons -/

theorem negative_iff {x : UInt32} : negative x = true ↔ 2 ^ 31 ≤ x.toNat := by
  simp [negative]

/-- `bge` after `cmp`, for words that are nonnegative as signed numbers. -/
theorem ge_ofSub {x y : UInt32} (hx : x.toNat < 2 ^ 31) (hy : y.toNat < 2 ^ 31) :
    Cond.holds (.ofSub x y) .ge = true ↔ y.toNat ≤ x.toNat := by
  have hnx : negative x = false := decide_eq_false (Nat.not_le.2 hx)
  have hny : negative y = false := decide_eq_false (Nat.not_le.2 hy)
  have hsub : (x - y).toNat = (2 ^ 32 - y.toNat + x.toNat) % 2 ^ 32 := UInt32.toNat_sub x y
  simp only [Cond.holds, Flags.ofSub, hnx, hny, bne_self_eq_false, Bool.false_and, beq_false,
    Bool.not_eq_true', ← Bool.not_eq_true, negative_iff, hsub]
  omega

/-- `bne` after `cmp`. -/
theorem ne_ofSub {x y : UInt32} : Cond.holds (.ofSub x y) .ne = true ↔ x ≠ y := by
  simp only [Cond.holds, Flags.ofSub, Bool.not_eq_true', beq_eq_false_iff_ne, ne_eq,
    UInt32.sub_eq_iff_eq_add, UInt32.zero_add]

end RenodeSystemC.Thumb
