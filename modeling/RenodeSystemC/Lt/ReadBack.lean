import RenodeSystemC.Lt.Platform

/-!
# Reading back

Both generators write the same words to the same addresses and read them back, at the same time,
and accept a word that is the address or its inverse in the low 28 bits. What they read is
therefore right in every interleaving, unless Renode changes one of the words in between.

**Theorem (`no_fatal`).** In every run in which Renode writes nothing to the first 64 bytes of a
target until both generators are complete, no generator reports an error.
-/

namespace RenodeSystemC.Lt

open Bytes

/-! ## The tested words -/

/-- The word with the index `w` of the target `j`. -/
def wordAt (targets : Fin 2 → Target) (j : Fin 2) (w : Nat) : List UInt8 :=
  (targets j).targetMemory.memory.load (4 * w) 4

/-- A response to a read carries the word of its pass. -/
def GoodData : Property := fun i reading w q =>
  reading = true → q.data = leBytes 4 (passWord i w).toNat

/-- A call that does not write to the tested words. -/
def Spares (q : Payload) : Prop := q.command = .write → 64 ≤ q.address.toNat % 2 ^ 28

instance (q : Payload) : Decidable (Spares q) := inferInstanceAs (Decidable (_ → _))

/-- Renode keeps off the tested words until both generators are complete. -/
def KeepsOff (p : Platform) : Event → Prop
  | .renode q _ => Spares q ∨ ∀ g, (p.tops g).gen.point = .complete
  | .thread .. | .advance _ => True

instance (p : Platform) (e : Event) : Decidable (KeepsOff p e) := by
  cases e <;> unfold KeepsOff <;> infer_instance

/-- The mask of `check_complete` hides the difference between a bus address and a masked one. -/
theorem passWord_masked : ∀ i < 2, ∀ w < 16,
    passWord i w &&& 0x0FFFFFFF = UInt32.ofNat (4 * w) &&& 0x0FFFFFFF ∨
      passWord i w &&& 0x0FFFFFFF = ~~~ UInt32.ofNat (4 * w) &&& 0x0FFFFFFF := by decide

theorem checkResponse_good {i w : Nat} {reading : Bool} {q : Payload} (hi : i ≤ 1) (hw : w < 16)
    (h : IsResponse GoodData i reading w q) (id : UInt32) :
    InitiatorTop.checkResponse id q = none := by
  have haddr : q.address.toUInt32 = UInt32.ofNat (4 * w) := by
    rw [← UInt32.toNat_inj, UInt64.toNat_toUInt32, h.address, UInt32.toNat_ofNat']
  unfold InitiatorTop.checkResponse
  rw [if_neg (not_not.2 h.status)]
  dsimp only
  split_ifs with hread hbad
  · rw [h.command] at hread
    have hreading : reading = true := by
      cases reading
      · cases hread
      · rfl
    have hword : InitiatorTop.readWord q = passWord i w := by
      rw [InitiatorTop.readWord, h.property hreading, leWord_leBytes]
      have hmod : (passWord i w).toNat % 256 ^ 4 = (passWord i w).toNat :=
        Nat.mod_eq_of_lt (passWord i w).toNat_lt
      rw [hmod, UInt32.ofNat_toNat]
    rw [hword, haddr] at hbad
    rcases passWord_masked i (by omega) w hw with hplain | hinverted
    · exact absurd hplain hbad.1
    · exact absurd hinverted hbad.2
  · rfl
  · rfl

/-! ## Calls and words -/

section Words

variable {targets targets' : Fin 2 → Target} {j k : Fin 2} {w v : Nat}

/-- A write of a generator puts its word in place, and a read none. -/
theorem wordAt_served {reading : Bool} {p q : Payload} {delay : ScTime}
    (h : Served targets targets' j reading w p q delay) (hp : IsRequest j reading w p) :
    wordAt targets' k v =
      if reading = false ∧ k = j ∧ v = w then leBytes 4 (passWord j w).toNat
      else wordAt targets k v := by
  by_cases hk : k = j
  · cases reading with
    | true =>
      rw [if_neg (by simp), wordAt, wordAt, hk, (h.read rfl).1]
    | false =>
      have hlen := hp.length
      rw [wordAt, wordAt, hk, h.write rfl]
      by_cases hv : v = w
      · have hload := load_store_self (targets j).targetMemory.memory (4 * w) p.data
        rw [if_pos ⟨rfl, rfl, hv⟩, hv, ← hp.data rfl]
        rwa [hlen] at hload
      · rw [if_neg (fun hc => hv hc.2.2), load_store_of_disjoint (by omega)]
  · rw [if_neg (fun hc => hk hc.2.1), wordAt, wordAt, h.others k hk]

/-- A call that spares the tested words leaves them as they are. -/
theorem wordAt_of_spares {q q' : Payload} {t t' : ScTime}
    (hbus : initiatorBTransport targetBTransport targets q t = some (targets', q', t'))
    (hspares : Spares q) (hv : v < 16) : wordAt targets' k v = wordAt targets k v := by
  by_cases hn : q.address.toNat % 2 ^ 32 / 2 ^ 28 < 2
  · rw [initiatorBTransport_eq (i := ⟨_, hn⟩) rfl] at hbus
    generalize (⟨q.address.toNat % 2 ^ 32 / 2 ^ 28, hn⟩ : Fin 2) = j at hbus
    have hoff : (q.setAddress (q.address &&& getAddressMask (decode q.address))).address.toNat =
        q.address.toNat % 2 ^ 28 := toNat_and_mask _ _
    have hcmd : (q.setAddress (q.address &&& getAddressMask (decode q.address))).command =
        q.command := rfl
    generalize q.setAddress (q.address &&& getAddressMask (decode q.address)) = r at *
    rw [Option.some.injEq, Prod.mk.injEq] at hbus
    rw [← hbus.1]
    by_cases hk : k = j
    · rw [wordAt, wordAt, hk, Function.update_self]
      by_cases hidle : r.command = .ignore ∨ (targets j).targetMemory.checkAddress r ≠ .ok
      · rw [(operate_idle hidle).1]
      · rw [not_or, not_not] at hidle
        cases hc : r.command with
        | ignore => exact absurd hc hidle.1
        | read => rw [(operate_read hc hidle.2).1]
        | write =>
          have hfar := hspares (hcmd ▸ hc)
          rw [(operate_write hc hidle.2).1, hoff, load_store_of_disjoint (by omega)]
    · rw [wordAt, wordAt, Function.update_of_ne hk]
  · rw [initiatorBTransport_eq_none hn] at hbus
    cases hbus

end Words

/-- A call is at most one more. -/
theorem callsMade_take_le {s : InitiatorTop} {t now : Nat} {q : Payload} {delay : ScTime}
    {f : ScFifo Nat} (hi : s.initiator = .reading) (hr : s.request.nbRead = some (t, f)) :
    ({ s with request := f }.transported t now q delay).callsMade ≤ s.callsMade + 1 := by
  obtain ⟨-, hunt⟩ := places_take now q delay hi hr
  rw [InitiatorTop.callsMade, InitiatorTop.callsMade, hunt, List.length_cons,
    (InitiatorTop.transported_fields _ _ _ _ _).1]
  dsimp only
  omega

/-! ## The invariant -/

structure Intact (p : Platform) (tr : List Output) : Prop where
  onSchedule : OnSchedule GoodData p tr
  /-- Until both generators are complete, a word that one of them has written is in place. -/
  words : (∃ g, (p.tops g).gen.point ≠ .complete) → ∀ (j : Fin 2) (w : Nat), w < 16 →
    (∃ g, 32 * (j : Nat) + w < (p.tops g).callsMade) →
      wordAt p.targets j w = leBytes 4 (passWord j w).toNat
  silent : ∀ g msg, Output.fatal g msg ∉ tr

namespace Intact

variable {p p' : Platform} {tr o : List Output}

/-- A read finds the word of its pass, which its own generator has written before. -/
theorem good (h : Intact p tr) (g j : Fin 2) (reading : Bool) (w : Nat)
    (targets' : Fin 2 → Target) (p₀ q : Payload) (delay : ScTime) (hw : w < 16)
    (hcount : (p.tops g).callsMade = 32 * j + (if reading then 16 else 0) + w)
    (hserved : Served p.targets targets' j reading w p₀ q delay) : GoodData j reading w q := by
  intro hread
  rw [hread, if_pos rfl] at hcount
  have hbusy : (p.tops g).gen.point ≠ .complete := by
    intro hend
    have hall := (callsMade_complete (h.onSchedule.conserved g) (h.onSchedule.scheduled g) hend).1
    have hj := j.isLt
    omega
  rw [(hserved.read hread).2]
  exact h.words ⟨g, hbusy⟩ j w hw ⟨g, by omega⟩

/-- The words stay in place while no more calls are made. -/
theorem words_of_eq (h : Intact p tr)
    (hword : (∃ g, (p.tops g).gen.point ≠ .complete) → ∀ j w, w < 16 →
      wordAt p'.targets j w = wordAt p.targets j w)
    (hcalls : ∀ g, (p'.tops g).callsMade = (p.tops g).callsMade)
    (hend : ∀ g, (p.tops g).gen.point = .complete → (p'.tops g).gen.point = .complete) :
    (∃ g, (p'.tops g).gen.point ≠ .complete) → ∀ (j : Fin 2) (w : Nat), w < 16 →
      (∃ g, 32 * (j : Nat) + w < (p'.tops g).callsMade) →
        wordAt p'.targets j w = leBytes 4 (passWord j w).toNat := by
  intro hbusy j w hw hcount
  obtain ⟨g, hg⟩ := hbusy
  obtain ⟨k, hk⟩ := hcount
  have hbusy : ∃ g, (p.tops g).gen.point ≠ .complete := ⟨g, fun hc => hg (hend g hc)⟩
  rw [hword hbusy j w hw]
  exact h.words hbusy j w hw ⟨k, hcalls k ▸ hk⟩

/-- The call of a generator that is not complete puts its own word in place, if any. -/
theorem words_of_served (h : Intact p tr) {g j : Fin 2} {reading : Bool} {w : Nat} {p₀ q : Payload}
    {delay : ScTime} {tops : Fin 2 → InitiatorTop} {targets : Fin 2 → Target}
    (hself : (tops g).callsMade ≤ (p.tops g).callsMade + 1)
    (hothers : ∀ k, k ≠ g → tops k = p.tops k) (hbusy : (p.tops g).gen.point ≠ .complete)
    (hw : w < 16) (hrequest : IsRequest j reading w p₀)
    (hcount : (p.tops g).callsMade = 32 * j + (if reading then 16 else 0) + w)
    (hserved : Served p.targets targets j reading w p₀ q delay) (j' : Fin 2) (w' : Nat)
    (hw' : w' < 16) (hmade : ∃ k, 32 * (j' : Nat) + w' < (tops k).callsMade) :
    wordAt targets j' w' = leBytes 4 (passWord j' w').toNat := by
  rw [wordAt_served hserved hrequest]
  by_cases hthis : reading = false ∧ j' = j ∧ w' = w
  · rw [if_pos hthis, hthis.2.1, hthis.2.2]
  · rw [if_neg hthis]
    refine h.words ⟨g, hbusy⟩ j' w' hw' ?_
    obtain ⟨k, hk⟩ := hmade
    by_cases hkg : k = g
    · -- the only new number is that of the word just written, or of a read
      refine ⟨g, ?_⟩
      rw [hkg] at hk
      cases reading with
      | true =>
        rw [if_pos rfl] at hcount
        omega
      | false =>
        rw [if_neg Bool.false_ne_true] at hcount
        have hne : ¬ ((j' : Nat) = j ∧ w' = w) := fun hc => hthis ⟨rfl, Fin.ext hc.1, hc.2⟩
        omega
    · exact ⟨k, by rw [← hothers k hkg]; exact hk⟩

theorem step (h : Intact p tr) {e : Event} (hadv : Advanced p e p' o) (hoff : KeepsOff p e) :
    Intact p' (tr ++ o) := by
  have honSchedule := h.onSchedule.step hadv h.good
  have hadv' := hadv
  refine ⟨honSchedule, ?_, ?_⟩
  · cases hadv with
    | @local_ g k e s hs he hgen hwake =>
      obtain ⟨-, hcalls⟩ := (h.onSchedule.scheduled g).stepped (h.onSchedule.conserved g) hs (by
        intro now q delay t f htake
        rw [htake] at he
        cases he)
      rw [he, Nat.add_zero] at hcalls
      apply h.words_of_eq
      · intro _ _ _ _
        rfl
      · intro i
        show (Function.update p.tops g s i).callsMade = _
        by_cases hi : i = g
        · rw [hi, Function.update_self, hcalls]
        · rw [Function.update_of_ne hi]
      · intro i hend
        exact hadv'.complete hend
    | @call g t f targets q delay hi hr hbus =>
      obtain ⟨w, hw, hrequest, hcount⟩ := (h.onSchedule.scheduled g).next hr
      obtain ⟨j, targets', q', delay', hj, hbus', hserved⟩ :=
        served_request h.onSchedule.fill (h.onSchedule.scheduled g).loops.i_le hw hrequest
      rw [hbus] at hbus'
      cases hbus'
      rw [← hj] at hrequest hcount
      have hbusy : (p.tops g).gen.point ≠ .complete := by
        intro hend
        have hempty := (callsMade_complete (h.onSchedule.conserved g) (h.onSchedule.scheduled g)
          hend).2.2
        rw [(ScFifo.nbRead_eq_some hr).2] at hempty
        cases hempty
      intro _
      refine h.words_of_served ?_ (fun k hk => Function.update_of_ne hk ..) hbusy hw hrequest hcount
        hserved
      show (Function.update p.tops g _ g).callsMade ≤ _
      rw [Function.update_self]
      exact callsMade_take_le hi hr
    | callFails hi hr hbus => exact h.words_of_eq (fun _ _ _ _ => rfl) (fun _ => rfl) fun _ => id
    | fatal hp hr hmsg => exact h.words_of_eq (fun _ _ _ _ => rfl) (fun _ => rfl) fun _ => id
    | renode hbus =>
      refine h.words_of_eq ?_ (fun _ => rfl) fun _ => id
      intro hbusy j w hw
      rcases hoff with hspares | hend
      · exact wordAt_of_spares hbus hspares hw
      · obtain ⟨g, hg⟩ := hbusy
        exact absurd (hend g) hg
    | renodeFails hbus => exact h.words_of_eq (fun _ _ _ _ => rfl) (fun _ => rfl) fun _ => id
    | advance ht hidle => exact h.words_of_eq (fun _ _ _ _ => rfl) (fun _ => rfl) fun _ => id
  · intro g msg hmem
    rcases List.mem_append.1 hmem with hold | hnew
    · exact h.silent g msg hold
    · cases hadv with
      | @fatal g all t f msg hp hr hmsg =>
        obtain ⟨w, hw, hresponse⟩ := isResponse_of_nbRead (h.onSchedule.scheduled g) hr
        rw [checkResponse_good (h.onSchedule.scheduled g).loops.i_le hw hresponse] at hmsg
        cases hmsg
      | @local_ g k e s hs he hgen hwake =>
        split_ifs at hnew
        · simp at hnew
        · simp at hnew
      | call | callFails | renode | renodeFails | advance => simp at hnew

end Intact

section Runs

variable {garbage : Fin 2 → Nat → UInt32} {es : List Event} {p : Platform} {tr : List Output}

/-- **No error in any interleaving.** If Renode does not write to the tested words until both
generators are complete, neither generator reports an error, and the words written so far stay in
place. -/
theorem no_fatal (hG : (platform garbage).AllSteps KeepsOff (platform garbage).init es)
    (h : (platform garbage).Run es p tr) :
    (∀ g msg, Output.fatal g msg ∉ tr) ∧
      ((∃ g, (p.tops g).gen.point ≠ .complete) → ∀ (j : Fin 2) (w : Nat), w < 16 →
        (∃ g, 32 * (j : Nat) + w < (p.tops g).callsMade) →
          wordAt p.targets j w = leBytes 4 (passWord j w).toNat) := by
  have hinit : Intact (platform garbage).init [] := by
    refine ⟨onSchedule_init GoodData garbage, ?_, fun _ _ => List.not_mem_nil⟩
    intro _ j w _ hmade
    obtain ⟨g, hg⟩ := hmade
    have hcalls := congrArg List.length ((onSchedule_init GoodData garbage).calls g)
    rw [List.length_map, List.length_range] at hcalls
    rw [← hcalls] at hg
    exact absurd hg (Nat.not_lt_zero _)
  have hI := Machine.inv_run_of_allSteps (I := Intact) hinit
    (fun p tr e p' o hI hoff hs => hI.step (step_cases hs).2 hoff) hG h
  exact ⟨hI.silent, hI.words⟩

end Runs

theorem no_fatal_wholeProgram : ∃ p tr, (platform fun _ _ => 0).Run wholeProgram p tr ∧
    (∀ g, Output.complete g 4800000 ∈ tr) ∧ ∀ g msg, Output.fatal g msg ∉ tr := by
  have hG : (platform fun _ _ => 0).AllSteps KeepsOff (platform fun _ _ => 0).init
      wholeProgram := by
    decide +kernel
  obtain ⟨p, tr, h, -, -, hreports⟩ := run_wholeProgram
  exact ⟨p, tr, h, hreports, (no_fatal hG h).1⟩

end RenodeSystemC.Lt
