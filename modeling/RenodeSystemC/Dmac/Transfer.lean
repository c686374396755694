import RenodeSystemC.Dmac.Arbitration
import Mathlib.Data.List.Infix

/-!
# What a transfer puts on the bus

`dmac_loop` copies the two address registers into locals when the bus is granted, and consults the
length register again before every byte. The trace of a run is read as a list of transfers, each
with the register values at its grant; `copyTrace` is what these values stand for.

* `consistent_iff_lengthKept`: in a run every transfer issues exactly the accesses its configuration
  stands for, if and only if every test of the loop goes as it would with the length at the grant.
* `truncated_transfer`: a length written during a transfer cuts it short.
-/

namespace RenodeSystemC.Dmac

/-! ## Transfers -/

/-- What the bus sees of an access, and the answer to a read. -/
inductive Access where
  | read (address : UInt64)
  | got (byte : UInt8)
  | write (address : UInt64) (data : List UInt8)
  deriving DecidableEq

def Output.bus : Output → Option Access
  | .access p => some (if p.command = .write then .write p.address p.data else .read p.address)
  | .got byte => some (.got byte)
  | _ => none

structure Transfer where
  /-- The registers when the thread saw the edge. -/
  registers : Registers
  accesses : List Access
  finished : Bool
  deriving DecidableEq

/-- The transfers so far, the last one first. -/
def record (ts : List Transfer) (x : Output) : List Transfer :=
  match x, ts with
  | .granted r, ts => ⟨r, [], false⟩ :: ts
  | .lower, t :: ts => { t with finished := true } :: ts
  | x, t :: ts => { t with accesses := t.accesses ++ x.bus.toList } :: ts
  | _, [] => []

def transfers (tr : List Output) : List Transfer := tr.foldl record []

/-- Copying the bytes one by one: each is read from the source and written to the destination. -/
def copyTrace (src dst : UInt32) : List UInt8 → List Access
  | [] => []
  | b :: bs =>
    .read src.toUInt64 :: .got b :: .write dst.toUInt64 [b] :: copyTrace (src + 1) (dst + 1) bs

/-- The accesses are those the configuration stands for: all of them if the transfer is finished,
and otherwise the first ones. -/
def Transfer.Consistent (t : Transfer) : Prop :=
  ∃ bytes, bytes.length = t.registers.dataLen.toNat ∧
    t.accesses <+: copyTrace t.registers.addrSrc t.registers.addrDst bytes ∧
    (t.finished = true → t.accesses = copyTrace t.registers.addrSrc t.registers.addrDst bytes)

theorem transfers_append (tr o : List Output) :
    transfers (tr ++ o) = o.foldl record (transfers tr) :=
  List.foldl_append

theorem copyTrace_append (src dst : UInt32) (bs cs : List UInt8) :
    copyTrace src dst (bs ++ cs) =
      copyTrace src dst bs ++
        copyTrace (src + UInt32.ofNat bs.length) (dst + UInt32.ofNat bs.length) cs := by
  induction bs generalizing src dst with
  | nil =>
    show copyTrace src dst cs = copyTrace (src + 0) (dst + 0) cs
    rw [UInt32.add_zero, UInt32.add_zero]
  | cons b bs ih =>
    have hshift : ∀ a : UInt32,
        a + 1 + UInt32.ofNat bs.length = a + UInt32.ofNat (bs.length + 1) := by
      intro a
      rw [UInt32.ofNat_add, UInt32.add_assoc, UInt32.add_comm 1]
      rfl
    rw [List.cons_append, copyTrace, copyTrace, ih, hshift, hshift]
    rfl

theorem copyTrace_snoc (src dst : UInt32) (bs : List UInt8) (b : UInt8) :
    copyTrace src dst (bs ++ [b]) =
      copyTrace src dst bs ++ [.read (src + UInt32.ofNat bs.length).toUInt64, .got b,
        .write (dst + UInt32.ofNat bs.length).toUInt64 [b]] :=
  copyTrace_append src dst bs [b]

/-- Bytes that are still to come can be anything. -/
theorem consistent_of_prefix {t : Transfer} (bs : List UInt8) (hf : t.finished = false)
    (hlen : bs.length ≤ t.registers.dataLen.toNat)
    (h : t.accesses <+: copyTrace t.registers.addrSrc t.registers.addrDst bs) : t.Consistent := by
  refine ⟨bs ++ List.replicate (t.registers.dataLen.toNat - bs.length) 0, ?_, ?_, ?_⟩
  · rw [List.length_append, List.length_replicate]
    omega
  · rw [copyTrace_append]
    exact h.trans (List.prefix_append _ _)
  · intro hc
    rw [hf] at hc
    cases hc

theorem length_copyTrace (src dst : UInt32) (bs : List UInt8) :
    (copyTrace src dst bs).length = 3 * bs.length := by
  induction bs generalizing src dst with
  | nil => rfl
  | cons b bs ih =>
    rw [copyTrace, List.length_cons, List.length_cons, List.length_cons, List.length_cons, ih]
    omega

theorem Transfer.Consistent.length_eq {t : Transfer} (h : t.Consistent) (hf : t.finished = true) :
    t.accesses.length = 3 * t.registers.dataLen.toNat := by
  obtain ⟨bytes, hlen, -, heq⟩ := h
  rw [heq hf, length_copyTrace, hlen]

theorem Transfer.Consistent.length_le {t : Transfer} (h : t.Consistent) :
    t.accesses.length ≤ 3 * t.registers.dataLen.toNat := by
  obtain ⟨bytes, hlen, hprefix, -⟩ := h
  have hle := hprefix.length_le
  rwa [length_copyTrace, hlen] at hle

/-! ## Copying -/

/-- The thread is at byte `n` of the transfer `t`. -/
structure Progress (sys : System) (t : Transfer) (n : Nat) : Prop where
  rAddr : sys.rAddr = t.registers.addrSrc + UInt32.ofNat n
  wAddr : sys.wAddr = t.registers.addrDst + UInt32.ofNat n
  counter : sys.i.toUInt32.toNat = n
  lt : n < t.registers.dataLen.toNat
  unfinished : t.finished = false

/-- Where the transfers are, for each place of the thread. -/
def Transfers (sys : System) (ts : List Transfer) : Prop :=
  match sys.loop with
  | .reading => ∃ t rest bs, ts = t :: rest ∧ (∀ t' ∈ rest, t'.Consistent) ∧
      Progress sys t bs.length ∧
      t.accesses = copyTrace t.registers.addrSrc t.registers.addrDst bs ++
        [.read sys.rAddr.toUInt64]
  | .writing => ∃ t rest bs b, ts = t :: rest ∧ (∀ t' ∈ rest, t'.Consistent) ∧
      Progress sys t bs.length ∧
      t.accesses = copyTrace t.registers.addrSrc t.registers.addrDst (bs ++ [b])
  | _ => ∀ t ∈ ts, t.Consistent

/-- The loop is in the middle of a byte. -/
def System.copying (sys : System) : Prop := sys.loop = .reading ∨ sys.loop = .writing

theorem transfers_of_idle {sys : System} {ts : List Transfer} (hc : ¬ sys.copying) :
    Transfers sys ts ↔ ∀ t ∈ ts, t.Consistent := by
  unfold Transfers System.copying at *
  split
  · rename_i hl; exact absurd (Or.inl hl) hc
  · rename_i hl; exact absurd (Or.inr hl) hc
  · exact Iff.rfl

theorem Transfers.consistent {sys : System} {ts : List Transfer} (h : Transfers sys ts) :
    ∀ t ∈ ts, t.Consistent := by
  unfold Transfers at h
  split at h
  · obtain ⟨t, rest, bs, rfl, hrest, hp, hacc⟩ := h
    refine List.forall_mem_cons.2 ⟨?_, hrest⟩
    refine consistent_of_prefix (bs ++ [0]) hp.unfinished ?_ ?_
    · rw [List.length_append, List.length_singleton]
      exact hp.lt
    · rw [copyTrace_snoc, hacc, hp.rAddr]
      exact List.prefix_append_right_inj _ |>.2 ⟨_, rfl⟩
  · obtain ⟨t, rest, bs, b, rfl, hrest, hp, hacc⟩ := h
    refine List.forall_mem_cons.2 ⟨?_, hrest⟩
    refine consistent_of_prefix (bs ++ [b]) hp.unfinished ?_ ?_
    · rw [List.length_append, List.length_singleton]
      exact hp.lt
    · rw [hacc]
  · exact h

/-- When the loop is tested after a byte, the length register decides as the length at the grant of
the current transfer would. -/
def LengthKept (sys : System) (tr : List Output) : Event → Prop
  | .writeReturn .ok => ∀ t ∈ (transfers tr).head?,
      (sys.nextByte.i.toUInt32 < sys.registers.dataLen ↔
        sys.nextByte.i.toUInt32 < t.registers.dataLen)
  | _ => True

instance (sys : System) : Decidable sys.copying :=
  inferInstanceAs (Decidable (sys.loop = .reading ∨ sys.loop = .writing))

instance (sys : System) (tr : List Output) (e : Event) : Decidable (LengthKept sys tr e) := by
  unfold LengthKept
  split <;> infer_instance

/-! ## The invariant -/

/-- Nothing that `Progress` speaks of changes. -/
theorem Progress.frame {sys sys' : System} {t t' : Transfer} {n : Nat} (h : Progress sys t n)
    (hl : sys'.rAddr = sys.rAddr ∧ sys'.wAddr = sys.wAddr ∧ sys'.i = sys.i)
    (ht : t'.registers = t.registers) (hf : t'.finished = t.finished) : Progress sys' t' n where
  rAddr := by rw [hl.1, ht, h.rAddr]
  wAddr := by rw [hl.2.1, ht, h.wAddr]
  counter := by rw [hl.2.2, h.counter]
  lt := by rw [ht]; exact h.lt
  unfinished := by rw [hf, h.unfinished]

theorem toNat_nextByte {sys : System} (h : sys.i.toUInt32.toNat + 1 < 2 ^ 32) :
    sys.nextByte.i.toUInt32.toNat = sys.i.toUInt32.toNat + 1 := by
  show (sys.i + 1).toUInt32.toNat = _
  rw [Int32.toUInt32_add, UInt32.toNat_add]
  exact Nat.mod_eq_of_lt h

/-- The counter stays below the length, so it cannot wrap around. -/
theorem Progress.counter_next {sys : System} {t : Transfer} {n : Nat} (h : Progress sys t n) :
    sys.nextByte.i.toUInt32.toNat = n + 1 := by
  have hlt := h.lt
  have hbound := t.registers.dataLen.toNat_lt
  rw [toNat_nextByte (by rw [h.counter]; omega), h.counter]

/-- The counter at the next test. -/
theorem Progress.test_iff {sys : System} {t : Transfer} {n : Nat} (h : Progress sys t n)
    (len : UInt32) : sys.nextByte.i.toUInt32 < len ↔ n + 1 < len.toNat := by
  rw [UInt32.lt_iff_toNat_lt, h.counter_next]

theorem Progress.next {sys : System} {t : Transfer} {n : Nat} (h : Progress sys t n)
    (hlt : n + 1 < t.registers.dataLen.toNat) : Progress sys.nextByte t (n + 1) where
  rAddr := by
    show sys.rAddr + 1 = _
    rw [h.rAddr, UInt32.add_assoc, UInt32.ofNat_add]
    rfl
  wAddr := by
    show sys.wAddr + 1 = _
    rw [h.wAddr, UInt32.add_assoc, UInt32.ofNat_add]
    rfl
  counter := h.counter_next
  lt := hlt
  unfinished := h.unfinished

/-- The first byte. -/
theorem progress_beginCopy {sys : System} (h : sys.beginCopy.i.toUInt32 < sys.registers.dataLen)
    (acc : List Access) :
    Progress { sys.beginCopy with loop := .reading } ⟨sys.registers, acc, false⟩ 0 where
  rAddr := (UInt32.add_zero _).symm
  wAddr := (UInt32.add_zero _).symm
  counter := rfl
  lt := UInt32.lt_iff_toNat_lt.1 h
  unfinished := rfl

/-- The first test of the loop. -/
theorem transfers_granted {sys sys' : System} {ts : List Transfer} {o : List Output}
    (h : ∀ t ∈ ts, t.Consistent) (ht : Turns sys.beginCopy sys' o) :
    Transfers sys' (o.foldl record (⟨sys.registers, [], false⟩ :: ts)) := by
  cases ht with
  | next hlt => exact ⟨_, ts, [], rfl, h, progress_beginCopy hlt _, rfl⟩
  | done hge =>
    refine List.forall_mem_cons.2 ⟨⟨[], ?_, List.prefix_rfl, fun _ => rfl⟩, h⟩
    have hzero : ¬ (0 : UInt32).toNat < sys.registers.dataLen.toNat :=
      fun hlt => hge (UInt32.lt_iff_toNat_lt.2 hlt)
    exact (Nat.eq_zero_of_not_pos hzero).symm

/-- A byte has been written, and the loop goes on exactly if the transfer has another one. -/
theorem transfers_written {sys sys' : System} {t : Transfer} {rest : List Transfer}
    {bs : List UInt8} {b : UInt8} {o : List Output} (hrest : ∀ t' ∈ rest, t'.Consistent)
    (hp : Progress sys t bs.length)
    (hacc : t.accesses = copyTrace t.registers.addrSrc t.registers.addrDst (bs ++ [b]))
    (hG : sys.nextByte.i.toUInt32 < sys.registers.dataLen ↔
      sys.nextByte.i.toUInt32 < t.registers.dataLen)
    (ht : Turns sys.nextByte sys' o) : Transfers sys' (o.foldl record (t :: rest)) := by
  have hlen : (bs ++ [b]).length = bs.length + 1 := by
    rw [List.length_append, List.length_singleton]
  cases ht with
  | next hlt =>
    have hnext := hp.next ((hp.test_iff _).1 (hG.1 hlt))
    refine ⟨_, rest, bs ++ [b], rfl, hrest, ?_, ?_⟩
    · rw [hlen]
      exact hnext.frame ⟨rfl, rfl, rfl⟩ rfl rfl
    · show t.accesses ++ _ = _
      rw [hacc]
      rfl
  | done hge =>
    have hlast : t.registers.dataLen.toNat = bs.length + 1 := by
      have hlt := hp.lt
      have hnot := mt (hp.test_iff _).2 (mt hG.2 hge)
      omega
    refine List.forall_mem_cons.2 ⟨⟨bs ++ [b], ?_, ?_, ?_⟩, hrest⟩
    · rw [hlen]
      exact hlast.symm
    · show t.accesses <+: _
      rw [hacc]
    · exact fun _ => hacc

/-- Otherwise the transfer ends with too few accesses, or goes on with one too many. -/
theorem not_consistent_written {sys sys' : System} {t : Transfer} {rest : List Transfer}
    {bs : List UInt8} {b : UInt8} {o : List Output} (hp : Progress sys t bs.length)
    (hacc : t.accesses = copyTrace t.registers.addrSrc t.registers.addrDst (bs ++ [b]))
    (hG : ¬ (sys.nextByte.i.toUInt32 < sys.registers.dataLen ↔
      sys.nextByte.i.toUInt32 < t.registers.dataLen))
    (ht : Turns sys.nextByte sys' o) : ¬ ∀ t' ∈ o.foldl record (t :: rest), t'.Consistent := by
  intro hall
  have hlt := hp.lt
  have htest := hp.test_iff t.registers.dataLen
  have hcount : t.accesses.length = 3 * (bs.length + 1) := by
    rw [hacc, length_copyTrace, List.length_append, List.length_singleton]
  cases ht with
  | next hnext =>
    have hmore := (hall { t with accesses := t.accesses ++ [.read sys.nextByte.rAddr.toUInt64] }
      List.mem_cons_self).length_le
    simp only [List.length_append, List.length_singleton, hcount] at hmore
    have hend : ¬ sys.nextByte.i.toUInt32 < t.registers.dataLen := fun h => hG (iff_of_true hnext h)
    rw [htest] at hend
    omega
  | done hge =>
    have hless := (hall { t with finished := true } List.mem_cons_self).length_eq rfl
    have hlen : t.accesses.length = 3 * t.registers.dataLen.toNat := hless
    rw [hcount] at hlen
    have hgoes : sys.nextByte.i.toUInt32 < t.registers.dataLen := by
      by_contra h
      exact hG (iff_of_false hge h)
    rw [htest] at hgoes
    omega

/-- The thread stays where it is, and its progress is kept. -/
theorem Transfers.stay {sys sys' : System} {ts : List Transfer} (h : Transfers sys ts)
    (hl : sys'.loop = sys.loop) (hr : sys'.rAddr = sys.rAddr)
    (hp : sys.copying → ∀ t n, Progress sys t n → Progress sys' t n) : Transfers sys' ts := by
  by_cases hc : sys.copying
  · unfold Transfers at h ⊢
    rw [hl]
    rcases hc with hc | hc
    · rw [hc] at h ⊢
      obtain ⟨t, rest, bs, hts, hrest, hprog, hacc⟩ := h
      exact ⟨t, rest, bs, hts, hrest, hp (Or.inl hc) _ _ hprog, by rw [hr, hacc]⟩
    · rw [hc] at h ⊢
      obtain ⟨t, rest, bs, b, hts, hrest, hprog, hacc⟩ := h
      exact ⟨t, rest, bs, b, hts, hrest, hp (Or.inr hc) _ _ hprog, hacc⟩
  · have hc' : ¬ sys'.copying := by
      unfold System.copying
      rw [hl]
      exact hc
    exact (transfers_of_idle hc').2 h.consistent

/-- What is neither an access nor an end of a transfer is not recorded. -/
@[simp] theorem record_raise (ts : List Transfer) : record ts .raise = ts := by
  cases ts <;> simp [record, Output.bus]

@[simp] theorem record_posedge (ts : List Transfer) : record ts .posedge = ts := by
  cases ts <;> simp [record, Output.bus]

/-- A byte has been read: its write is on the way. -/
theorem transfers_read {sys : System} {ts : List Transfer} (hl : sys.loop = .reading) (byte : UInt8)
    (h : Transfers sys ts) :
    Transfers { sys with data := byte, loop := .writing }
      ([Output.got byte, .access { sys with data := byte }.writePayload].foldl record ts) := by
  simp only [Transfers, hl] at h
  obtain ⟨t, rest, bs, rfl, hrest, hp, hacc⟩ := h
  refine ⟨_, rest, bs, byte, rfl, hrest, hp.frame ⟨rfl, rfl, rfl⟩ rfl rfl, ?_⟩
  show t.accesses ++ [.got byte] ++ [.write sys.wAddr.toUInt64 [byte]] = _
  rw [hacc, copyTrace_snoc, hp.rAddr, hp.wAddr]
  simp

theorem transfers_delta {sys : System} {ts : List Transfer} (h : Transfers sys ts) :
    Transfers (afterDelta sys) ((if sys.rises then [.posedge] else []).foldl record ts) := by
  have hsilent : (if sys.rises then [Output.posedge] else []).foldl record ts = ts := by
    split_ifs
    · exact record_posedge ts
    · rfl
  rw [hsilent]
  by_cases hg : sys.rises = true ∧ sys.loop = .waitGrant
  · have hc : ¬ (afterDelta sys).copying := by
      unfold System.copying
      rw [show (afterDelta sys).loop = .granted from if_pos hg]
      decide
    exact (transfers_of_idle hc).2 h.consistent
  · exact h.stay (if_neg hg) rfl fun _ t n hp => hp.frame ⟨rfl, rfl, rfl⟩ rfl rfl

theorem transfers_step {ndebug : Bool} {sys sys' : System} {tr : List Output} {e : Event}
    {o : List Output} (h : Transfers sys (transfers tr)) (hG : LengthKept sys tr e)
    (hs : step ndebug sys e = some (sys', o)) : Transfers sys' (transfers (tr ++ o)) := by
  obtain ⟨-, hst⟩ := stepped hs
  rw [transfers_append]
  cases hst with
  | request req =>
    have hserves := serves_receiveBTransport ndebug sys req
    have hlocals := hserves.locals
    rcases hserves.loop with hl | ⟨-, hl'⟩
    · exact h.stay hl hlocals.1 fun _ t n hp =>
        hp.frame ⟨hlocals.1, hlocals.2.1, hlocals.2.2.1⟩ rfl rfl
    · have hc : ¬ (receiveBTransport ndebug sys req).copying := by
        unfold System.copying
        rw [hl']
        decide
      exact (transfers_of_idle hc).2 h.consistent
  | busFree level => exact h.stay rfl rfl fun _ t n hp => hp.frame ⟨rfl, rfl, rfl⟩ rfl rfl
  | start hl => exact h.consistent
  | raise hl =>
    show ∀ t ∈ record (transfers tr) .raise, t.Consistent
    rw [record_raise]
    exact h.consistent
  | granted hl ht => exact transfers_granted h.consistent ht
  | read hl byte => exact transfers_read hl byte h
  | readFailed hl byte => exact h.consistent
  | written hl ht =>
    simp only [Transfers, hl] at h
    obtain ⟨t, rest, bs, b, hts, hrest, hp, hacc⟩ := h
    rw [hts]
    exact transfers_written hrest hp hacc (hG t (by rw [hts]; rfl)) ht
  | writeFailed hl => exact h.consistent
  | delta => exact transfers_delta h

/-- A test that goes differently breaks the transfer. -/
theorem not_consistent_step {ndebug : Bool} {sys sys' : System} {tr : List Output} {e : Event}
    {o : List Output} (h : Transfers sys (transfers tr)) (hG : ¬ LengthKept sys tr e)
    (hs : step ndebug sys e = some (sys', o)) : ¬ ∀ t ∈ transfers (tr ++ o), t.Consistent := by
  obtain ⟨-, hst⟩ := stepped hs
  rw [transfers_append]
  cases hst with
  | written hl ht =>
    simp only [Transfers, hl] at h
    obtain ⟨t, rest, bs, b, hts, -, hp, hacc⟩ := h
    rw [hts]
    refine not_consistent_written hp hacc ?_ ht
    simpa [LengthKept, hts] using hG
  | @writeFailed hl status hne =>
    refine absurd ?_ hG
    cases status with
    | ok => exact absurd rfl hne
    | _ => trivial
  | _ => exact absurd trivial hG

/-- **One configuration for a transfer**, exactly if every test of the loop goes as it would with
the length at the grant. -/
theorem consistent_iff_lengthKept {ndebug : Bool} {garbage : Registers} {data : UInt8}
    {es : List Event} {sys : System} {tr : List Output}
    (h : (dmac ndebug garbage data).Run es sys tr) :
    (∀ pre s t, pre <+: es → (dmac ndebug garbage data).Run pre s t →
        ∀ x ∈ transfers t, x.Consistent) ↔
      (dmac ndebug garbage data).Allowed LengthKept es := by
  refine Machine.forall_prefix_iff_allowed (I := fun s t => Transfers s (transfers t)) ?_ ?_ ?_ ?_ h
  · intro x hx
    cases hx
  · exact fun _ _ _ _ _ hI hg hs => transfers_step hI hg hs
  · exact fun _ _ hI => hI.consistent
  · exact fun _ _ _ _ _ hI hg hs => not_consistent_step hI hg hs

/-- The addresses are written during the first of two bytes, where the length is cut and put back,
and the length once more during the second. -/
def reprogrammed : List Event :=
  [.runLoop, .request ⟨true, 0x4, 0x100⟩, .request ⟨true, 0x8, 0x200⟩, .request ⟨true, 0xC, 2⟩,
    .request startCommand, .runLoop, .busFree true, .delta, .runLoop, .request ⟨true, 0x4, 0x300⟩,
    .request ⟨true, 0x8, 0x400⟩, .request ⟨true, 0xC, 1⟩, .readReturn .ok 7,
    .request ⟨true, 0xC, 3⟩, .writeReturn .ok, .request ⟨true, 0xC, 1⟩, .readReturn .ok 8,
    .writeReturn .ok]

theorem consistent_reprogrammed :
    ∃ sys tr, (dmac false ⟨0, 0, 0⟩ 0).Run reprogrammed sys tr ∧
      transfers tr = [⟨⟨0x100, 0x200, 2⟩, copyTrace 0x100 0x200 [7, 8], true⟩] ∧
      ∀ pre s t, pre <+: reprogrammed → (dmac false ⟨0, 0, 0⟩ 0).Run pre s t →
        ∀ x ∈ transfers t, x.Consistent :=
  have h : (dmac false ⟨0, 0, 0⟩ 0).Run reprogrammed _ _ := rfl
  ⟨_, _, h, by decide, (consistent_iff_lengthKept h).2 (by decide)⟩

/-! ## A length that changes -/

/-- The length is written during the first byte. -/
def shortened : List Event :=
  [.runLoop, .request ⟨true, 0xC, 2⟩, .request startCommand, .runLoop, .busFree true, .delta,
    .runLoop, .request ⟨true, 0xC, 1⟩, .readReturn .ok 7, .writeReturn .ok]

/-- **A transfer can be cut short.** -/
theorem truncated_transfer :
    ¬ ∀ es sys tr, (dmac false ⟨0, 0, 0⟩ 0).Run es sys tr → ∀ t ∈ transfers tr, t.Consistent := by
  intro h
  have hrun : (dmac false ⟨0, 0, 0⟩ 0).Run shortened _ _ := rfl
  have hcons := h _ _ _ hrun ⟨⟨0, 0, 2⟩, copyTrace 0 0 [7], true⟩ (by decide)
  exact absurd (hcons.length_eq rfl) (by decide)

end RenodeSystemC.Dmac
