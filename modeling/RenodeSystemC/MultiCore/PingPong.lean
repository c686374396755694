import Mathlib.Data.List.Chain
import RenodeSystemC.Lib.Machine
import RenodeSystemC.Lib.Thumb
import RenodeSystemC.MultiCore.Memory

/-!
# Two cores taking turns on a shared counter

The ping-pong program of the multi-core test: each core polls the counter word in the shared
`Memory`, and when the value is below the limit and of the core's parity it stores the value plus
one. Load, test and store are separate instructions, and an event of the machine is one instruction
of one core, so the interleaving is arbitrary.

The program is annotated: `Assertion` says, for each place a core can be in, what its registers
know about the shared words. What makes it stable is the parity: a value of the core's own parity
can only be changed by the core itself, so what it has read is still there when it stores.

**Theorem (`pingPong_correct`).** The counter only ever goes up by one, never exceeds the limit, and
when both cores are done no increment is lost.
-/

namespace RenodeSystemC.MultiCore

open Bytes Thumb

/-! ## Words of the shared memory -/

/-- The payload of a 4-byte load. -/
def readWord (a : UInt32) : Payload :=
  ⟨.read, a.toUInt64, [0, 0, 0, 0], .incomplete, by decide, 4, false⟩

/-- The payload of a 4-byte store. -/
def writeWord (a v : UInt32) : Payload :=
  ⟨.write, a.toUInt64, leBytes 4 v.toNat, .incomplete, by simp, 4, false⟩

def Memory.loadWord (m : Memory) (a : UInt32) : UInt32 :=
  UInt32.ofNat (leWord (m.bTransport (readWord a) 0).1.payload.data)

def Memory.storeWord (m : Memory) (a v : UInt32) : Memory :=
  (m.bTransport (writeWord a v) 0).1.state

/-- The bridges of both cores: every load and store is one blocking transaction. -/
def sharedBus : Bus Memory := ⟨Memory.loadWord, Memory.storeWord⟩

/-- `m_shared_mem` of `top`. -/
structure Memory.IsShared (m : Memory) : Prop where
  startAddress : m.startAddress = 0x20000000
  memSize : m.memSize = 0x20000

/-- A word that lies in the shared memory. -/
def SharedWord (a : UInt32) : Prop := 0x20000000 ≤ a.toNat ∧ a.toNat + 4 ≤ 0x20020000

instance (a : UInt32) : Decidable (SharedWord a) := inferInstanceAs (Decidable (_ ∧ _))

theorem Memory.IsShared.checkBounds {m : Memory} (h : m.IsShared) {a : UInt32} (ha : SharedWord a)
    {p : Payload} (hp : p.address = a.toUInt64) (hlen : p.data.length = 4) :
    ∃ off, m.checkBounds p = some off ∧ off.toNat = a.toNat - 0x20000000 := by
  have haddr : p.address.toNat = a.toNat := by rw [hp, UInt32.toNat_toUInt64]
  have hsome : m.checkBounds p ≠ none := by
    rw [ne_eq, checkBounds_eq_none_iff, h.startAddress, h.memSize, haddr, hlen]
    obtain ⟨hlow, hhigh⟩ := ha
    rw [Nat.mod_eq_of_lt (show a.toNat + 4 < 2 ^ 64 by omega)]
    simp only [UInt64.reduceToNat]
    omega
  obtain ⟨off, hoff⟩ := Option.ne_none_iff_exists'.1 hsome
  refine ⟨off, hoff, ?_⟩
  rw [checkBounds_eq_some hoff, haddr, h.startAddress]
  rfl

theorem Memory.IsShared.loadWord {m : Memory} (h : m.IsShared) {a : UInt32} (ha : SharedWord a) :
    m.loadWord a = m.memory.word32 (a.toNat - 0x20000000) := by
  obtain ⟨off, hoff, heq⟩ := h.checkBounds (p := readWord a) ha rfl rfl
  rw [Memory.loadWord, Memory.bTransport, hoff, word32, ← heq]
  rfl

theorem Memory.IsShared.storeWord {m : Memory} (h : m.IsShared) {a : UInt32} (ha : SharedWord a)
    (v : UInt32) : (m.storeWord a v).IsShared ∧
      (m.storeWord a v).memory = m.memory.store (a.toNat - 0x20000000) (leBytes 4 v.toNat) := by
  obtain ⟨off, hoff, heq⟩ := h.checkBounds (p := writeWord a v) ha rfl (length_leBytes 4 v.toNat)
  rw [Memory.storeWord, Memory.bTransport, hoff, ← heq]
  exact ⟨⟨h.startAddress, h.memSize⟩, rfl⟩

theorem Memory.IsShared.loadWord_storeWord {m : Memory} (h : m.IsShared) {a : UInt32}
    (ha : SharedWord a) (v : UInt32) : (m.storeWord a v).loadWord a = v := by
  rw [(h.storeWord ha v).1.loadWord ha, (h.storeWord ha v).2, word32_store_leBytes]

theorem Memory.IsShared.loadWord_storeWord_of_apart {m : Memory} (h : m.IsShared) {a b : UInt32}
    (ha : SharedWord a) (hb : SharedWord b) (hab : a.toNat + 4 ≤ b.toNat ∨ b.toNat + 4 ≤ a.toNat)
    (v : UInt32) : (m.storeWord a v).loadWord b = m.loadWord b := by
  rw [(h.storeWord ha v).1.loadWord hb, h.loadWord hb, (h.storeWord ha v).2]
  obtain ⟨hlow, -⟩ := ha
  obtain ⟨hlow', -⟩ := hb
  apply word32_congr
  intro i hi hi'
  apply store_of_notMem
  rw [length_leBytes]
  omega

/-! ## The program -/

inductive Cpu where
  | m55
  | m0
  deriving DecidableEq, Repr

namespace Cpu

/-- `BLOCK_M55` and `BLOCK_M0`: the words a core owns. -/
def block : Cpu → UInt32
  | m55 => 0x20003000
  | m0 => 0x20003010

/-- The parity of the counter values a core may increment. -/
def parity : Cpu → UInt32
  | m55 => 0
  | m0 => 1

/-- The address of the core's `DONE` word. -/
def done (cpu : Cpu) : UInt32 := cpu.block + 0x8

/-- The address of the core's `INCREMENTS` word. -/
def increments (cpu : Cpu) : UInt32 := cpu.block + 0xc

end Cpu

/-- `COUNTER`. -/
def counter : UInt32 := 0x20003020

/-- `PING_PONG_ASSEMBLY`: `loop` is 2 and `done` is 13. -/
def pingPong (limit : UInt8) : List Instr :=
  [.movs .r4 limit,
    .movs .r5 0,
    .ldr .r3 .r1 0,
    .cmp .r3 .r4,
    .bcond .ge 13,
    .movs .r6 1,
    .ands .r6 .r3,
    .cmp .r6 .r2,
    .bcond .ne 2,
    .adds .r3 1,
    .str .r3 .r1 0,
    .adds .r5 1,
    .b 2,
    .str .r5 .r0 0xc,
    .movs .r3 1,
    .str .r3 .r0 0x8,
    .b 16]

/-- `Start Core`: the program counter and three registers are set, the others keep what they
hold. -/
def startCore (cpu : Cpu) (k : Core) : Core :=
  (((k.set .r0 cpu.block).set .r1 counter).set .r2 cpu.parity).jump 0

structure System where
  core : Cpu → Core
  mem : Memory

/-- The value of a word of the shared memory. -/
def System.word (sys : System) (a : UInt32) : Nat := (sys.mem.loadWord a).toNat

/-- One instruction of one core. -/
def System.stepCpu (limit : UInt8) (sys : System) (cpu : Cpu) : System :=
  let (k, m) := step sharedBus (pingPong limit) (sys.core cpu) sys.mem
  ⟨Function.update sys.core cpu k, m⟩

/-- Both cores, started on any registers and memory; an event names the core that runs next, and the
output is the counter after its instruction. -/
def multiCore (limit : UInt8) (sys : System) : Machine System Cpu Nat where
  init := ⟨fun cpu => startCore cpu (sys.core cpu), sys.mem⟩
  step := fun sys cpu => some (sys.stepCpu limit cpu, [(sys.stepCpu limit cpu).word counter])

/-! ## The annotated program -/

/-- How many of the first `c` increments are the core's. -/
def Cpu.share : Cpu → Nat → Nat
  | .m55, c => (c + 1) / 2
  | .m0, c => c / 2

/-- The counter value `c` is one the core may increment. -/
def Cpu.Turn (cpu : Cpu) (c : Nat) : Prop := c % 2 = cpu.parity.toNat

/-- A value read from the counter: no more than the counter, and the counter itself if it is one the
core may increment. -/
def Seen (cpu : Cpu) (c : Nat) (x : UInt32) : Prop := x.toNat ≤ c ∧ (cpu.Turn x.toNat → x.toNat = c)

/-- What holds when the core is about to execute the instruction at its program counter, with the
counter at `c` and the core's `INCREMENTS` word at `inc`. -/
def Assertion (limit : UInt8) (cpu : Cpu) (c inc : Nat) (k : Core) : Prop :=
  match k.pc with
  | 0 => cpu.share c = 0
  | 1 => cpu.share c = 0 ∧ (k.regs .r4).toNat = limit.toNat
  | 2 | 12 => (k.regs .r5).toNat = cpu.share c ∧ (k.regs .r4).toNat = limit.toNat
  | 3 =>
    (k.regs .r5).toNat = cpu.share c ∧ (k.regs .r4).toNat = limit.toNat ∧ Seen cpu c (k.regs .r3)
  | 4 =>
    (k.regs .r5).toNat = cpu.share c ∧ (k.regs .r4).toNat = limit.toNat ∧ Seen cpu c (k.regs .r3) ∧
      (Cond.holds k.flags .ge = true ↔ limit.toNat ≤ (k.regs .r3).toNat)
  | 5 =>
    (k.regs .r5).toNat = cpu.share c ∧ (k.regs .r4).toNat = limit.toNat ∧ Seen cpu c (k.regs .r3) ∧
      (k.regs .r3).toNat < limit.toNat
  | 6 =>
    (k.regs .r5).toNat = cpu.share c ∧ (k.regs .r4).toNat = limit.toNat ∧ Seen cpu c (k.regs .r3) ∧
      (k.regs .r3).toNat < limit.toNat ∧ k.regs .r6 = 1
  | 7 =>
    (k.regs .r5).toNat = cpu.share c ∧ (k.regs .r4).toNat = limit.toNat ∧ Seen cpu c (k.regs .r3) ∧
      (k.regs .r3).toNat < limit.toNat ∧ (k.regs .r6).toNat = (k.regs .r3).toNat % 2
  | 8 =>
    (k.regs .r5).toNat = cpu.share c ∧ (k.regs .r4).toNat = limit.toNat ∧ Seen cpu c (k.regs .r3) ∧
      (k.regs .r3).toNat < limit.toNat ∧
      (Cond.holds k.flags .ne = true ↔ ¬ cpu.Turn (k.regs .r3).toNat)
  | 9 =>
    (k.regs .r5).toNat = cpu.share c ∧ (k.regs .r4).toNat = limit.toNat ∧
      (k.regs .r3).toNat = c ∧ c < limit.toNat ∧ cpu.Turn c
  | 10 =>
    (k.regs .r5).toNat = cpu.share c ∧ (k.regs .r4).toNat = limit.toNat ∧
      (k.regs .r3).toNat = c + 1 ∧ c < limit.toNat ∧ cpu.Turn c
  | 11 => (k.regs .r5).toNat + 1 = cpu.share c ∧ (k.regs .r4).toNat = limit.toNat
  | 13 => (k.regs .r5).toNat = cpu.share c ∧ c = limit.toNat
  | 14 | 16 => inc = cpu.share c ∧ c = limit.toNat
  | 15 => inc = cpu.share c ∧ c = limit.toNat ∧ k.regs .r3 = 1
  | _ => False

namespace Cpu

variable {cpu other : Cpu} {c : Nat}

theorem turn_m55 : m55.Turn c ↔ c % 2 = 0 := Iff.rfl

theorem turn_m0 : m0.Turn c ↔ c % 2 = 1 := Iff.rfl

theorem share_le (cpu : Cpu) (c : Nat) : cpu.share c ≤ c := by
  cases cpu <;> simp only [share] <;> omega

theorem share_succ_of_turn (h : cpu.Turn c) : cpu.share (c + 1) = cpu.share c + 1 := by
  cases cpu with
  | m55 => rw [turn_m55] at h; simp only [share]; omega
  | m0 => rw [turn_m0] at h; simp only [share]; omega

theorem share_succ_of_not_turn (h : ¬ cpu.Turn c) : cpu.share (c + 1) = cpu.share c := by
  cases cpu with
  | m55 => rw [turn_m55] at h; simp only [share]; omega
  | m0 => rw [turn_m0] at h; simp only [share]; omega

/-- It is one core's turn at a time. -/
theorem not_turn_of_ne (hne : cpu ≠ other) (h : other.Turn c) : ¬ cpu.Turn c := by
  cases cpu <;> cases other <;> simp only [turn_m55, turn_m0, ne_eq, not_true] at * <;> omega

end Cpu

/-- What a core has read stays true while the other core increments. -/
theorem Seen.succ {cpu : Cpu} {c : Nat} {x : UInt32} (h : Seen cpu c x) (hturn : ¬ cpu.Turn c) :
    Seen cpu (c + 1) x := by
  refine ⟨Nat.le_succ_of_le h.1, ?_⟩
  intro hx
  rw [h.2 hx] at hx
  exact absurd hx hturn

/-- **Non-interference.** An increment by the other core keeps the annotation. -/
theorem Assertion.succ {limit : UInt8} {cpu : Cpu} {c inc : Nat} {k : Core}
    (h : Assertion limit cpu c inc k) (hturn : ¬ cpu.Turn c) (hlt : c < limit.toNat) :
    Assertion limit cpu (c + 1) inc k := by
  obtain ⟨regs, flags, pc⟩ := k
  have hshare := Cpu.share_succ_of_not_turn hturn
  match pc, h with
  | 0, h | 1, h | 2, h | 11, h | 12, h =>
    simp only [Assertion, hshare] at h ⊢
    exact h
  | 3, h =>
    simp only [Assertion, hshare] at h ⊢
    exact ⟨h.1, h.2.1, h.2.2.succ hturn⟩
  | 4, h | 5, h | 6, h | 7, h | 8, h =>
    simp only [Assertion, hshare] at h ⊢
    exact ⟨h.1, h.2.1, h.2.2.1.succ hturn, h.2.2.2⟩
  | 9, h | 10, h =>
    simp only [Assertion] at h
    exact absurd h.2.2.2.2 hturn
  | 13, h | 14, h | 16, h =>
    simp only [Assertion] at h
    omega
  | 15, h =>
    simp only [Assertion] at h
    omega

/-! ## One instruction -/

/-- What an instruction of the annotated program does, with the counter at `c` and the core's
`INCREMENTS` word at `inc`. -/
inductive Effect (limit : UInt8) (cpu : Cpu) (c inc : Nat) (k : Core) (m : Memory) :
    Core × Memory → Prop
  /-- The memory is not written. -/
  | silent {k' : Core} (hpc : k'.pc = 16 ↔ k.pc = 16) (hk : Assertion limit cpu c inc k') :
    Effect limit cpu c inc k m (k', m)
  /-- The counter is incremented. -/
  | bump {k' : Core} {v : UInt32} (hpc : k'.pc ≠ 16 ∧ k.pc ≠ 16) (hv : v.toNat = c + 1)
    (hlt : c < limit.toNat) (hturn : cpu.Turn c) (hk : Assertion limit cpu (c + 1) inc k') :
    Effect limit cpu c inc k m (k', m.storeWord counter v)
  /-- The number of increments is stored. -/
  | count {k' : Core} {v : UInt32} (hpc : k'.pc ≠ 16 ∧ k.pc ≠ 16)
    (hk : Assertion limit cpu c v.toNat k') :
    Effect limit cpu c inc k m (k', m.storeWord cpu.increments v)
  /-- The core is done. -/
  | finish {k' : Core} (hpc : k'.pc = 16) (hk : Assertion limit cpu c inc k') :
    Effect limit cpu c inc k m (k', m.storeWord cpu.done 1)

/-- The registers that `Start Core` sets. -/
structure Started (cpu : Cpu) (k : Core) : Prop where
  block : k.regs .r0 = cpu.block
  counter : k.regs .r1 = MultiCore.counter
  parity : k.regs .r2 = cpu.parity

/-- No instruction writes the registers that `Start Core` sets. -/
theorem started_step (limit : UInt8) {cpu : Cpu} {k : Core} (m : Memory) (h : Started cpu k) :
    Started cpu (step sharedBus (pingPong limit) k m).1 := by
  obtain ⟨hblock, hcounter, hparity⟩ := h
  obtain ⟨regs, flags, pc⟩ := k
  match pc with
  | 0 | 1 | 2 | 3 | 5 | 6 | 7 | 9 | 10 | 11 | 12 | 13 | 14 | 15 | 16 =>
    exact ⟨hblock, hcounter, hparity⟩
  | 4 =>
    rw [step_of_getElem? sharedBus (k := ⟨regs, flags, 4⟩) (i := .bcond .ge 13) m rfl, exec]
    split_ifs <;> exact ⟨hblock, hcounter, hparity⟩
  | 8 =>
    rw [step_of_getElem? sharedBus (k := ⟨regs, flags, 8⟩) (i := .bcond .ne 2) m rfl, exec]
    split_ifs <;> exact ⟨hblock, hcounter, hparity⟩
  | n + 17 => exact ⟨hblock, hcounter, hparity⟩

theorem toNat_and_one (x : UInt32) : (1 &&& x).toNat = x.toNat % 2 := by
  rw [UInt32.toNat_and]
  exact Nat.one_and_eq_mod_two _

theorem toNat_add_one {x : UInt32} (h : x.toNat < 2 ^ 31) : (x + 1).toNat = x.toNat + 1 := by
  rw [UInt32.toNat_add]
  exact Nat.mod_eq_of_lt (by rw [UInt32.toNat_one]; omega)

/-- **Local correctness.** Every instruction establishes the annotation of the place it leads to. -/
theorem effect_step {limit : UInt8} {cpu : Cpu} {c inc : Nat} {k : Core} {m : Memory}
    (hstart : Started cpu k) (hload : (m.loadWord counter).toNat = c) (hle : c ≤ limit.toNat)
    (h : Assertion limit cpu c inc k) :
    Effect limit cpu c inc k m (step sharedBus (pingPong limit) k m) := by
  obtain ⟨hblock, hcounter, hparity⟩ := hstart
  obtain ⟨regs, flags, pc⟩ := k
  dsimp only at hblock hcounter hparity
  have hlimit := limit.toNat_lt
  have hshare := cpu.share_le c
  match pc, h with
  | 0, h =>
    simp only [Assertion] at h
    exact .silent (of_decide_eq_true rfl) ⟨h, UInt8.toNat_toUInt32 limit⟩
  | 1, h =>
    simp only [Assertion] at h
    exact .silent (of_decide_eq_true rfl) ⟨h.1.symm, h.2⟩
  | 2, h =>
    simp only [Assertion] at h
    refine .silent (of_decide_eq_true rfl) ⟨h.1, h.2, ?_⟩
    simp only [Core.next, Core.set, Function.update_self, sharedBus, hcounter]
    rw [UInt32.add_zero, Seen, hload]
    exact ⟨le_refl c, fun _ => rfl⟩
  | 3, h =>
    simp only [Assertion] at h
    obtain ⟨hr5, hr4, hseen⟩ := h
    refine .silent (of_decide_eq_true rfl) ⟨hr5, hr4, hseen, ?_⟩
    have hr3 := hseen.1
    rw [← hr4]
    have hx : (regs .r3).toNat < 2 ^ 31 := by omega
    have hy : (regs .r4).toNat < 2 ^ 31 := by omega
    exact ge_ofSub hx hy
  | 4, h =>
    simp only [Assertion] at h
    obtain ⟨hr5, hr4, hseen, hge⟩ := h
    rw [step_of_getElem? sharedBus (k := ⟨regs, flags, 4⟩) (i := .bcond .ge 13) m rfl, exec]
    split_ifs with hcond
    · have hr3 := hseen.1
      have hlow := hge.1 hcond
      exact .silent (of_decide_eq_true rfl) ⟨hr5, by omega⟩
    · exact .silent (of_decide_eq_true rfl) ⟨hr5, hr4, hseen, Nat.lt_of_not_le (mt hge.2 hcond)⟩
  | 5, h =>
    simp only [Assertion] at h
    obtain ⟨hr5, hr4, hseen, hlt⟩ := h
    exact .silent (of_decide_eq_true rfl) ⟨hr5, hr4, hseen, hlt, rfl⟩
  | 6, h =>
    simp only [Assertion] at h
    obtain ⟨hr5, hr4, hseen, hlt, hr6⟩ := h
    refine .silent (of_decide_eq_true rfl) ⟨hr5, hr4, hseen, hlt, ?_⟩
    simp only [Core.next, Core.set, Core.setFlags, Function.update_self, hr6]
    exact toNat_and_one _
  | 7, h =>
    simp only [Assertion] at h
    obtain ⟨hr5, hr4, hseen, hlt, hr6⟩ := h
    refine .silent (of_decide_eq_true rfl) ⟨hr5, hr4, hseen, hlt, ne_ofSub.trans (not_congr ?_)⟩
    show regs .r6 = regs .r2 ↔ (regs .r3).toNat % 2 = cpu.parity.toNat
    rw [hparity, ← UInt32.toNat_inj, hr6]
  | 8, h =>
    simp only [Assertion] at h
    obtain ⟨hr5, hr4, hseen, hlt, hne⟩ := h
    rw [step_of_getElem? sharedBus (k := ⟨regs, flags, 8⟩) (i := .bcond .ne 2) m rfl, exec]
    split_ifs with hcond
    · exact .silent (of_decide_eq_true rfl) ⟨hr5, hr4⟩
    · have hturn := not_not.1 (mt hne.2 hcond)
      have hr3 := hseen.2 hturn
      exact .silent (of_decide_eq_true rfl) ⟨hr5, hr4, hr3, hr3 ▸ hlt, hr3 ▸ hturn⟩
  | 9, h =>
    simp only [Assertion] at h
    obtain ⟨hr5, hr4, hr3, hlt, hturn⟩ := h
    refine .silent (of_decide_eq_true rfl) ⟨hr5, hr4, ?_, hlt, hturn⟩
    rw [← hr3]
    have hx : (regs .r3).toNat < 2 ^ 31 := by omega
    exact toNat_add_one hx
  | 10, h =>
    simp only [Assertion] at h
    obtain ⟨hr5, hr4, hr3, hlt, hturn⟩ := h
    have haddr : regs .r1 + 0 = counter := by rw [UInt32.add_zero]; exact hcounter
    rw [step_of_getElem? sharedBus (k := ⟨regs, flags, 10⟩) (i := .str .r3 .r1 0) m rfl, exec]
    simp only [sharedBus, haddr]
    refine .bump (of_decide_eq_true rfl) hr3 hlt hturn ⟨?_, hr4⟩
    rw [Cpu.share_succ_of_turn hturn]
    exact congrArg (· + 1) hr5
  | 11, h =>
    simp only [Assertion] at h
    refine .silent (of_decide_eq_true rfl) ⟨?_, h.2⟩
    rw [← h.1]
    have hx : (regs .r5).toNat < 2 ^ 31 := by omega
    exact toNat_add_one hx
  | 12, h =>
    simp only [Assertion] at h
    exact .silent (of_decide_eq_true rfl) h
  | 13, h =>
    simp only [Assertion] at h
    rw [step_of_getElem? sharedBus (k := ⟨regs, flags, 13⟩) (i := .str .r5 .r0 0xc) m rfl, exec]
    simp only [sharedBus, hblock]
    exact .count (of_decide_eq_true rfl) h
  | 14, h =>
    simp only [Assertion] at h
    exact .silent (of_decide_eq_true rfl) ⟨h.1, h.2, rfl⟩
  | 15, h =>
    simp only [Assertion] at h
    rw [step_of_getElem? sharedBus (k := ⟨regs, flags, 15⟩) (i := .str .r3 .r0 0x8) m rfl, exec]
    simp only [sharedBus, hblock, h.2.2]
    exact .finish rfl ⟨h.1, h.2.1⟩
  | 16, h =>
    simp only [Assertion] at h
    exact .silent (of_decide_eq_true rfl) h

/-! ## Both cores -/

/-- One core's part of the invariant. -/
structure CoreInv (limit : UInt8) (sys : System) (cpu : Cpu) : Prop where
  started : Started cpu (sys.core cpu)
  annotated : Assertion limit cpu (sys.word counter) (sys.word cpu.increments) (sys.core cpu)
  done : sys.word cpu.done = if (sys.core cpu).pc = 16 then 1 else 0

/-- The invariant of the two cores and the shared memory. -/
structure Inv (limit : UInt8) (sys : System) : Prop where
  shared : sys.mem.IsShared
  le : sys.word counter ≤ limit.toNat
  core : ∀ cpu, CoreInv limit sys cpu

/-- The words the program uses. -/
inductive Word where
  | counter
  | increments (cpu : Cpu)
  | done (cpu : Cpu)
  deriving DecidableEq

def Word.address : Word → UInt32
  | counter => MultiCore.counter
  | increments cpu => cpu.increments
  | done cpu => cpu.done

theorem Word.shared (w : Word) : SharedWord w.address := by
  rcases w with - | (- | -) | (- | -) <;> decide

theorem Word.apart {w w' : Word} (h : w ≠ w') :
    w.address.toNat + 4 ≤ w'.address.toNat ∨ w'.address.toNat + 4 ≤ w.address.toNat := by
  rcases w with - | (- | -) | (- | -) <;> rcases w' with - | (- | -) | (- | -) <;>
    first | decide | exact absurd rfl h

/-- The words after a store to one of them. -/
theorem word_store {sys : System} (h : sys.mem.IsShared) (core : Cpu → Core) (w w' : Word)
    (v : UInt32) :
    (System.mk core (sys.mem.storeWord w.address v)).word w'.address =
      if w' = w then v.toNat else sys.word w'.address := by
  unfold System.word
  split_ifs with heq
  · rw [heq, h.loadWord_storeWord w.shared]
  · rw [h.loadWord_storeWord_of_apart w.shared w'.shared (Word.apart (Ne.symm heq))]

section Step

variable {limit : UInt8} {sys sys' : System} {cpu q : Cpu}

/-- A step that leaves the core and its words alone keeps the core's part of the invariant, also
when the other core increments the counter. -/
theorem CoreInv.frame (h : CoreInv limit sys q) (hcore : sys'.core q = sys.core q)
    (hinc : sys'.word q.increments = sys.word q.increments)
    (hdone : sys'.word q.done = sys.word q.done)
    (hc : sys'.word counter = sys.word counter ∨ sys'.word counter = sys.word counter + 1 ∧
      ¬ q.Turn (sys.word counter) ∧ sys.word counter < limit.toNat) : CoreInv limit sys' q := by
  refine ⟨by rw [hcore]; exact h.started, ?_, by rw [hdone, hcore]; exact h.done⟩
  rw [hcore, hinc]
  rcases hc with hc | ⟨hc, hturn, hlt⟩
  · rw [hc]
    exact h.annotated
  · rw [hc]
    exact h.annotated.succ hturn hlt

/-- The part of the invariant of the core that has just executed an instruction. -/
theorem CoreInv.own {k : Core} {c inc : Nat} (hcore : sys'.core cpu = k) (hstart : Started cpu k)
    (hc : sys'.word counter = c) (hinc : sys'.word cpu.increments = inc)
    (hk : Assertion limit cpu c inc k)
    (hdone : sys'.word cpu.done = if k.pc = 16 then 1 else 0) : CoreInv limit sys' cpu := by
  subst hcore hc hinc
  exact ⟨hstart, hk, hdone⟩

/-- The invariant after an instruction of `cpu`, from its own part and what it did to the words. -/
theorem Inv.of_own (h : Inv limit sys) (hshared : sys'.mem.IsShared)
    (hcore : ∀ q, q ≠ cpu → sys'.core q = sys.core q)
    (hwords : ∀ q, q ≠ cpu → sys'.word q.increments = sys.word q.increments ∧
      sys'.word q.done = sys.word q.done)
    (hc : sys'.word counter = sys.word counter ∨ sys'.word counter = sys.word counter + 1 ∧
      cpu.Turn (sys.word counter) ∧ sys.word counter < limit.toNat)
    (hown : CoreInv limit sys' cpu) : Inv limit sys' := by
  refine ⟨hshared, ?_, ?_⟩
  · have hle := h.le
    rcases hc with hc | ⟨hc, -, hlt⟩ <;> omega
  · intro q
    by_cases hq : q = cpu
    · rw [hq]
      exact hown
    · apply (h.core q).frame (hcore q hq) (hwords q hq).1 (hwords q hq).2
      exact hc.imp_right fun hc => ⟨hc.1, Cpu.not_turn_of_ne hq hc.2.1, hc.2.2⟩

/-- **One instruction.** It keeps the invariant, and the counter goes up by at most one. -/
theorem inv_stepCpu (h : Inv limit sys) (cpu : Cpu) :
    Inv limit (sys.stepCpu limit cpu) ∧
      ((sys.stepCpu limit cpu).word counter = sys.word counter ∨
        (sys.stepCpu limit cpu).word counter = sys.word counter + 1) := by
  have hstart := started_step limit sys.mem (h.core cpu).started
  have heff := effect_step (m := sys.mem) (h.core cpu).started rfl h.le (h.core cpu).annotated
  have hdone := (h.core cpu).done
  rw [System.stepCpu]
  generalize step sharedBus (pingPong limit) (sys.core cpu) sys.mem = r at hstart heff
  obtain ⟨k, m⟩ := r
  have hself : Function.update sys.core cpu k cpu = k := Function.update_self cpu k sys.core
  have hother : ∀ q, q ≠ cpu → Function.update sys.core cpu k q = sys.core q :=
    fun q hq => Function.update_of_ne hq k sys.core
  cases heff with
  | silent hpc hk =>
    refine ⟨h.of_own h.shared hother (fun _ _ => ⟨rfl, rfl⟩) (Or.inl rfl) ?_, Or.inl rfl⟩
    refine CoreInv.own hself hstart rfl rfl hk ?_
    simp only [hpc]
    exact hdone
  | @bump _ v hpc hv hlt hturn hk =>
    have hword := fun w => word_store h.shared (Function.update sys.core cpu k) .counter w v
    have hc := (hword .counter).trans ((if_pos rfl).trans hv)
    have hinc := fun q => (hword (.increments q)).trans (if_neg Word.noConfusion)
    have hdon := fun q => (hword (.done q)).trans (if_neg Word.noConfusion)
    refine ⟨h.of_own (h.shared.storeWord Word.counter.shared v).1 hother
      (fun q _ => ⟨hinc q, hdon q⟩) (Or.inr ⟨hc, hturn, hlt⟩) ?_, Or.inr hc⟩
    apply CoreInv.own hself hstart hc (hinc cpu) hk
    rw [if_neg hpc.1]
    rw [if_neg hpc.2] at hdone
    exact (hdon cpu).trans hdone
  | @count _ v hpc hk =>
    have hword := fun w => word_store h.shared (Function.update sys.core cpu k)
      (.increments cpu) w v
    have hc := (hword .counter).trans (if_neg Word.noConfusion)
    have hinc := fun q hq => (hword (.increments q)).trans (if_neg hq)
    have hdon := fun q => (hword (.done q)).trans (if_neg Word.noConfusion)
    refine ⟨h.of_own (h.shared.storeWord (Word.increments cpu).shared v).1 hother
      (fun q hq => ⟨hinc q (fun heq => hq (Word.increments.inj heq)), hdon q⟩) (Or.inl hc) ?_,
      Or.inl hc⟩
    apply CoreInv.own hself hstart hc ((hword (.increments cpu)).trans (if_pos rfl)) hk
    rw [if_neg hpc.1]
    rw [if_neg hpc.2] at hdone
    exact (hdon cpu).trans hdone
  | finish hpc hk =>
    have hword := fun w => word_store h.shared (Function.update sys.core cpu k) (.done cpu) w 1
    have hc := (hword .counter).trans (if_neg Word.noConfusion)
    have hinc := fun q => (hword (.increments q)).trans (if_neg Word.noConfusion)
    have hdon := fun q hq => (hword (.done q)).trans (if_neg hq)
    refine ⟨h.of_own (h.shared.storeWord (Word.done cpu).shared 1).1 hother
      (fun q hq => ⟨hinc q, hdon q (fun heq => hq (Word.done.inj heq))⟩) (Or.inl hc) ?_, Or.inl hc⟩
    apply CoreInv.own hself hstart hc (hinc cpu) hk
    rw [if_pos hpc]
    exact (hword (.done cpu)).trans (if_pos rfl)

end Step

/-! ## Runs -/

/-- The invariant, and the counter's values so far. -/
structure RunInv (limit : UInt8) (sys : System) (tr : List Nat) : Prop where
  inv : Inv limit sys
  chain : (0 :: tr).IsChain fun c c' => c' = c ∨ c' = c + 1
  last : (0 :: tr).getLast? = some (sys.word counter)
  le : ∀ c ∈ tr, c ≤ limit.toNat

/-- The cores are started with all their words zero. -/
theorem inv_init {limit : UInt8} {sys : System} (hshared : sys.mem.IsShared)
    (hzero : ∀ w : Word, sys.word w.address = 0) : Inv limit (multiCore limit sys).init := by
  refine ⟨hshared, (hzero .counter).trans_le (Nat.zero_le _), ?_⟩
  intro cpu
  refine CoreInv.own rfl ⟨rfl, rfl, rfl⟩ (hzero .counter) (hzero (.increments cpu)) ?_
    (hzero (.done cpu))
  cases cpu <;> rfl

theorem runInv_run {limit : UInt8} {sys₀ sys : System} {es : List Cpu} {tr : List Nat}
    (hshared : sys₀.mem.IsShared) (hzero : ∀ w : Word, sys₀.word w.address = 0)
    (h : (multiCore limit sys₀).Run es sys tr) : RunInv limit sys tr := by
  refine Machine.inv_run (I := RunInv limit) ?_ ?_ h
  · refine ⟨inv_init hshared hzero, List.IsChain.singleton 0, ?_, by simp⟩
    exact congrArg some (hzero .counter).symm
  · intro sys tr cpu sys' o hI hs
    cases hs
    obtain ⟨hinv, hc⟩ := inv_stepCpu hI.inv cpu
    refine ⟨hinv, ?_, by rw [← List.cons_append, List.getLast?_append]; rfl, ?_⟩
    · rw [← List.cons_append, List.isChain_append]
      refine ⟨hI.chain, List.IsChain.singleton _, ?_⟩
      intro c hc₀ c' hc'
      rw [hI.last] at hc₀
      cases hc₀
      cases hc'
      exact hc
    · simp only [List.forall_mem_append, List.forall_mem_singleton]
      exact ⟨hI.le, hinv.le⟩

/-- A core that is done has stored its share, and the counter has reached the limit. -/
theorem CoreInv.of_done {limit : UInt8} {sys : System} {cpu : Cpu} (h : CoreInv limit sys cpu)
    (hdone : sys.word cpu.done = 1) :
    sys.word counter = limit.toNat ∧ sys.word cpu.increments = cpu.share limit.toNat := by
  have hpc : (sys.core cpu).pc = 16 := by
    by_contra hne
    rw [h.done, if_neg hne] at hdone
    cases hdone
  have hann := h.annotated
  simp only [Assertion, hpc] at hann
  obtain ⟨hinc, hc⟩ := hann
  rw [hinc, hc]
  exact ⟨rfl, rfl⟩

/-- **No increment is lost.** However the two instruction streams interleave, the counter only goes
up, one at a time, and stays within the limit; and once both cores are done it has reached the
limit, each core having made its half of the increments. -/
theorem pingPong_correct {limit : UInt8} {sys₀ sys : System} {es : List Cpu} {tr : List Nat}
    (hshared : sys₀.mem.IsShared) (hzero : ∀ w : Word, sys₀.word w.address = 0)
    (h : (multiCore limit sys₀).Run es sys tr) :
    (0 :: tr).IsChain (fun c c' => c' = c ∨ c' = c + 1) ∧ (∀ c ∈ tr, c ≤ limit.toNat) ∧
      (sys.word Cpu.m55.done = 1 → sys.word Cpu.m0.done = 1 →
        sys.word counter = limit.toNat ∧ sys.word Cpu.m55.increments = (limit.toNat + 1) / 2 ∧
          sys.word Cpu.m0.increments = limit.toNat / 2) := by
  have hrun := runInv_run hshared hzero h
  refine ⟨hrun.chain, hrun.le, ?_⟩
  intro hm55 hm0
  obtain ⟨hc, hinc⟩ := (hrun.inv.core .m55).of_done hm55
  exact ⟨hc, hinc, ((hrun.inv.core .m0).of_done hm0).2⟩

/-- Two cores with zero registers and a new memory. -/
def reset : System :=
  ⟨fun _ => ⟨fun _ => 0, ⟨false, false, false⟩, 0⟩, Memory.new (fun _ => 9) 0x20000000 0x20000⟩

/-- Both cores read the zero, the parity-1 core polls while the other one increments it to the
limit, and both finish. -/
def turns : List Cpu :=
  List.replicate 3 .m0 ++ List.replicate 12 .m55 ++ List.replicate 6 .m0 ++ List.replicate 7 .m55 ++
    List.replicate 6 .m0

theorem reset_zero (w : Word) : reset.word w.address = 0 := by
  rcases w with - | (- | -) | (- | -) <;> decide +kernel

theorem pingPong_turns :
    ∃ sys tr, (multiCore 1 reset).Run turns sys tr ∧ sys.word counter = 1 ∧
      sys.word Cpu.m55.increments = 1 ∧ sys.word Cpu.m0.increments = 0 :=
  have h : (multiCore 1 reset).Run turns _ _ := rfl
  ⟨_, _, h, (pingPong_correct ⟨rfl, rfl⟩ reset_zero h).2.2 (by decide +kernel) (by decide +kernel)⟩

end RenodeSystemC.MultiCore
