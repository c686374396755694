import RenodeSystemC.Native.Dmi

/-!
# The lamps of the DMI test

`test_state` lights the lamp on `test_done` when both the memory test and the CPU are done, in
either order, and `reset` puts it out. The target lights `unexpected_io_access`, which nothing puts
out.

**Theorem (`lamps_exact`).** In every run `test_done` is lit exactly when, since the last reset, the
memory test has succeeded and the CPU has written the register; and `unexpected_io_access` exactly
when some transaction has accessed the memory in another way than writing one byte.
-/

namespace RenodeSystemC.Dmi

/-! ## What the events mean -/

/-- The CPU writes the register. -/
def Event.writesDone : Event → Bool
  | .bTransport p => p.command = .write ∧ 0x1000 ≤ p.address.toNat ∧
      p.address.toNat + p.data.length ≤ 0x1004
  | _ => false

/-- A transaction on the memory that is not the write of one byte. -/
def Event.unexpected : Event → Bool
  | .bTransport p => (memoryAccess p).isSome ∧ ¬ (p.command = .write ∧ p.data.length = 1)
  | _ => false

/-- The events after the last reset. -/
def sinceReset (es : List Event) : List Event := (es.reverse.takeWhile (· ≠ .reset)).reverse

theorem sinceReset_concat (es : List Event) (e : Event) :
    sinceReset (es ++ [e]) = if e = .reset then [] else sinceReset es ++ [e] := by
  rw [sinceReset, List.reverse_append, List.reverse_singleton, List.singleton_append,
    List.takeWhile_cons]
  by_cases he : e = .reset
  · simp [he]
  · simp [he, sinceReset]

/-! ## Transactions -/

section Transactions

variable {p : Payload}

/-- The lamps and the flags, apart from the one for unexpected accesses. -/
structure SameFlags (t t' : Target) : Prop where
  memoryDone : t'.memoryDone = t.memoryDone
  cpuDone : t'.cpuDone = t.cpuDone
  testDone : t'.gpio .testDone = t.gpio .testDone

theorem SameFlags.refl (t : Target) : SameFlags t t := ⟨rfl, rfl, rfl⟩

@[simp] theorem gpio_gpioUpdate (t : Target) (line l : RenodeGpio) (level : Bool) :
    (t.gpioUpdate line level).gpio l = if l = line then level else t.gpio l := rfl

/-- What a routed transaction does to the flags and the lamps. -/
theorem flags_bTransport (t : Target) (h : tlmRoute p.address = true) :
    (t.bTransport p).1.state = t.markCpuDone ∧ (Event.bTransport p).writesDone = true ∧
        (Event.bTransport p).unexpected = false ∨
      (Event.bTransport p).writesDone = false ∧ SameFlags t (t.bTransport p).1.state ∧
        (t.bTransport p).1.state.gpio .unexpectedIoAccess =
          (t.gpio .unexpectedIoAccess || (Event.bTransport p).unexpected) := by
  have hlen : p.dataLength.toUInt64 = 1 ↔ p.data.length = 1 := by
    rw [← UInt64.toNat_inj, UInt32.toNat_toUInt64, Payload.toNat_dataLength]
    rfl
  simp only [Target.bTransport, Target.handleDoneRegister, inDone_iff h, outside_iff h, hlen]
  by_cases hdone : 0x1000 ≤ p.address.toNat ∧ p.address.toNat + p.data.length ≤ 0x1004
  · have hnone : memoryAccess p = none := memoryAccess_eq_none (Or.inr hdone.1)
    rw [if_pos hdone]
    by_cases hw : p.command = .write
    · rw [if_pos hw]
      left
      simp [Event.writesDone, Event.unexpected, hw, hdone.1, hdone.2, hnone]
    · rw [if_neg hw]
      right
      refine ⟨by simp [Event.writesDone, hw], .refl t, ?_⟩
      simp [Event.unexpected, hnone]
  · rw [if_neg hdone]
    right
    have hregister : (Event.bTransport p).writesDone = false := by
      simp only [Event.writesDone, decide_eq_false_iff_not]
      exact fun hc => hdone hc.2
    by_cases hout : 0x1000 < p.address.toNat + p.data.length
    · have hnone : memoryAccess p = none :=
        memoryAccess_eq_none (by unfold Crosses; omega)
      simp only [hout, if_true]
      refine ⟨hregister, .refl t, ?_⟩
      simp [Event.unexpected, hnone]
    · have hin : p.address.toNat < 0x1000 ∧ p.address.toNat + p.data.length ≤ 0x1000 := by omega
      have hsome : (memoryAccess p).isSome = true := by
        rw [memoryAccess, if_pos hin]
        split_ifs <;> rfl
      simp only [hout, if_false]
      have hunexpected : (Event.bTransport p).unexpected =
          decide ¬ (p.command = .write ∧ p.data.length = 1) := by
        rw [Event.unexpected, decide_eq_decide]
        exact and_iff_right hsome
      by_cases hw : p.command = .write
      · by_cases hbyte : p.data.length = 1
        · simp only [hw, hbyte, and_self, if_true] at hunexpected ⊢
          rw [hunexpected]
          exact ⟨hregister, ⟨rfl, rfl, rfl⟩, (Bool.or_false _).symm⟩
        · simp only [hw, hbyte, and_false, if_false, if_true] at hunexpected ⊢
          rw [hunexpected]
          exact ⟨hregister, ⟨rfl, rfl, rfl⟩, (Bool.or_true _).symm⟩
      · simp only [hw, false_and, if_false] at hunexpected ⊢
        rw [hunexpected]
        exact ⟨hregister, ⟨rfl, rfl, rfl⟩, (Bool.or_true _).symm⟩

end Transactions

/-! ## Runs -/

/-- What `update` does to the flags and the lamps. -/
theorem flags_update (t : Target) : t.update.memoryDone = t.memoryDone ∧
    t.update.cpuDone = t.cpuDone ∧
    t.update.gpio .testDone = (t.gpio .testDone || (t.memoryDone && t.cpuDone)) ∧
    t.update.gpio .unexpectedIoAccess = t.gpio .unexpectedIoAccess := by
  unfold Target.update
  split_ifs with h
  · rw [h, Bool.or_true]
    exact ⟨rfl, rfl, rfl, rfl⟩
  · rw [Bool.not_eq_true] at h
    rw [h, Bool.or_false]
    exact ⟨rfl, rfl, rfl, rfl⟩

/-- The flags and the lamps after the events `es`. -/
structure Lit (es : List Event) (t : Target) : Prop where
  memoryDone : t.memoryDone = true ↔ .markMemoryDone ∈ sinceReset es
  cpuDone : t.cpuDone = true ↔ ∃ e ∈ sinceReset es, e.writesDone = true
  testDone : t.gpio .testDone = (t.memoryDone && t.cpuDone)
  unexpected : t.gpio .unexpectedIoAccess = true ↔ ∃ e ∈ es, e.unexpected = true

namespace Lit

variable {es : List Event} {e : Event} {t t' : Target}

theorem unexpected_concat (h : Lit es t)
    (hio : t'.gpio .unexpectedIoAccess = (t.gpio .unexpectedIoAccess || e.unexpected)) :
    t'.gpio .unexpectedIoAccess = true ↔ ∃ x ∈ es ++ [e], x.unexpected = true := by
  simp only [hio, Bool.or_eq_true, h.unexpected, List.mem_append, List.mem_singleton, or_and_right,
    exists_or, exists_eq_left]

/-- An event that neither resets nor reports anything done. -/
theorem other (h : Lit es t) (hreset : e ≠ .reset) (hmark : e ≠ .markMemoryDone)
    (hdone : e.writesDone = false) (hflags : SameFlags t t')
    (hio : t'.gpio .unexpectedIoAccess = (t.gpio .unexpectedIoAccess || e.unexpected)) :
    Lit (es ++ [e]) t' := by
  have hsince : sinceReset (es ++ [e]) = sinceReset es ++ [e] := by
    rw [sinceReset_concat, if_neg hreset]
  refine ⟨?_, ?_, ?_, h.unexpected_concat hio⟩
  · rw [hflags.memoryDone, h.memoryDone, hsince, List.mem_append, List.mem_singleton]
    exact (or_iff_left hmark.symm).symm
  · rw [hflags.cpuDone, h.cpuDone, hsince]
    simp [hdone, or_and_right, exists_or]
  · rw [hflags.testDone, hflags.memoryDone, hflags.cpuDone]
    exact h.testDone

theorem markCpuDone (h : Lit es t) (hreset : e ≠ .reset) (hmark : e ≠ .markMemoryDone)
    (hdone : e.writesDone = true) (hio : e.unexpected = false) : Lit (es ++ [e]) t.markCpuDone := by
  have hsince : sinceReset (es ++ [e]) = sinceReset es ++ [e] := by
    rw [sinceReset_concat, if_neg hreset]
  obtain ⟨hm, hc, hlamp, hsame⟩ := flags_update { t with cpuDone := true }
  refine ⟨?_, ?_, ?_, ?_⟩
  · rw [Target.markCpuDone, hm, hsince, List.mem_append, List.mem_singleton]
    exact h.memoryDone.trans (or_iff_left hmark.symm).symm
  · rw [Target.markCpuDone, hc, hsince]
    exact iff_of_true rfl ⟨e, List.mem_append_right _ (List.mem_singleton_self e), hdone⟩
  · rw [Target.markCpuDone, hlamp, hm, hc]
    dsimp only
    rw [h.testDone]
    cases t.memoryDone <;> cases t.cpuDone <;> rfl
  · apply h.unexpected_concat
    rw [Target.markCpuDone, hsame, hio, Bool.or_false]

theorem markMemoryDone (h : Lit es t) : Lit (es ++ [.markMemoryDone]) t.markMemoryDone := by
  have hsince : sinceReset (es ++ [.markMemoryDone]) = sinceReset es ++ [.markMemoryDone] := by
    rw [sinceReset_concat, if_neg (by simp)]
  obtain ⟨hm, hc, hlamp, hsame⟩ := flags_update { t with memoryDone := true }
  refine ⟨?_, ?_, ?_, ?_⟩
  · rw [Target.markMemoryDone, hm, hsince]
    exact iff_of_true rfl (List.mem_append_right _ (List.mem_singleton_self _))
  · rw [Target.markMemoryDone, hc, hsince]
    apply h.cpuDone.trans
    simp [Event.writesDone, or_and_right, exists_or]
  · rw [Target.markMemoryDone, hlamp, hm, hc]
    dsimp only
    rw [h.testDone]
    cases t.memoryDone <;> cases t.cpuDone <;> rfl
  · apply h.unexpected_concat
    rw [Target.markMemoryDone, hsame]
    exact (Bool.or_false _).symm

theorem reset (h : Lit es t) : Lit (es ++ [.reset]) t.reset := by
  have hsince : sinceReset (es ++ [.reset]) = [] := by
    rw [sinceReset_concat, if_pos rfl]
  refine ⟨?_, ?_, rfl, ?_⟩
  · rw [hsince]
    exact iff_of_false Bool.false_ne_true List.not_mem_nil
  · rw [hsince]
    apply iff_of_false Bool.false_ne_true
    intro hc
    obtain ⟨x, hx, -⟩ := hc
    cases hx
  · exact h.unexpected_concat (Bool.or_false _).symm

theorem step (h : Lit es t) {o : List Output} (hs : step t e = some (t', o)) :
    Lit (es ++ [e]) t' := by
  cases e with
  | bTransport p =>
    simp only [Dmi.step] at hs
    split_ifs at hs with hr
    cases hs
    rcases flags_bTransport t hr with ⟨hstate, hdone, hio⟩ | ⟨hdone, hflags, hio⟩
    · rw [hstate]
      exact h.markCpuDone (by simp) (by simp) hdone hio
    · exact h.other (by simp) (by simp) hdone hflags hio
  | getDirectMemPtr p =>
    simp only [Dmi.step] at hs
    split_ifs at hs with hr
    cases hs
    have hsame : SameFlags t (t.getDirectMemPtr p).1 ∧
        (t.getDirectMemPtr p).1.gpio .unexpectedIoAccess = t.gpio .unexpectedIoAccess := by
      unfold Target.getDirectMemPtr
      split_ifs
      · exact ⟨.refl t, rfl⟩
      · exact ⟨⟨rfl, rfl, rfl⟩, rfl⟩
    exact h.other (by simp) (by simp) rfl hsame.1 (hsame.2.trans (Bool.or_false _).symm)
  | directRead region address length =>
    simp only [Dmi.step] at hs
    split_ifs at hs
    cases hs
    exact h.other (by simp) (by simp) rfl (.refl t) (Bool.or_false _).symm
  | directWrite region address data =>
    simp only [Dmi.step] at hs
    split_ifs at hs
    cases hs
    exact h.other (by simp) (by simp) rfl ⟨rfl, rfl, rfl⟩ (Bool.or_false _).symm
  | reset =>
    cases hs
    exact h.reset
  | markMemoryDone =>
    cases hs
    exact h.markMemoryDone

end Lit

theorem lit_run {es : List Event} {t : Target} {tr : List Output} (h : cpuTarget.Run es t tr) :
    Lit es t := by
  refine Machine.inv_run_history (I := fun es t _ => Lit es t) ?_ ?_ h
  · refine ⟨?_, ?_, rfl, ?_⟩
    · exact iff_of_false Bool.false_ne_true List.not_mem_nil
    · exact iff_of_false Bool.false_ne_true (by simp [sinceReset])
    · exact iff_of_false Bool.false_ne_true (by simp)
  · intro es t tr e t' o hI hs
    exact hI.step hs

/-- **The lamps say what has happened.** -/
theorem lamps_exact {es : List Event} {t : Target} {tr : List Output}
    (h : cpuTarget.Run es t tr) :
    (t.gpio .testDone = true ↔
        .markMemoryDone ∈ sinceReset es ∧ ∃ e ∈ sinceReset es, e.writesDone = true) ∧
      (t.gpio .unexpectedIoAccess = true ↔ ∃ e ∈ es, e.unexpected = true) := by
  have hlit := lit_run h
  refine ⟨?_, hlit.unexpected⟩
  rw [hlit.testDone, Bool.and_eq_true, hlit.memoryDone, hlit.cpuDone]

/-- The CPU writes the register before the reset and again after the memory test. -/
def writeRegister : Event :=
  .bTransport ⟨.write, 0x1000, [0, 0, 0, 1], .incomplete, Payload.wordLength_lt, 4, false⟩

theorem lamps_exact_twice : ∃ t tr,
    cpuTarget.Run [writeRegister, .reset, .markMemoryDone, writeRegister] t tr ∧
      t.gpio .testDone = true := by
  have hrun : cpuTarget.Run [writeRegister, .reset, .markMemoryDone, writeRegister] _ _ := rfl
  refine ⟨_, _, hrun, ?_⟩
  apply (lamps_exact hrun).1.2
  decide

end RenodeSystemC.Dmi
