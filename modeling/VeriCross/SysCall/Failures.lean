import VeriCross.FunctionalCore
import VeriCross.Library.TreeMaps
import VeriCross.SysCall.DescriptorTable

/-!
# Failed system calls

A call that the host refuses, or whose path is too long to be copied, gives the program a negative
number in `a0` and leaves everything else it can observe as it was: the lookups that insert an entry
insert the zero that a missing entry reads as, and every store follows a host call that succeeded. A
call makes at most one host call.
-/

namespace VeriCross

open RiscV SysCall

/-- A lookup changes no host descriptor that a number stands for. -/
theorem SysCall.fdAt_fdTouch (sys : SysCall) (key number : Word) :
    (sys.fdTouch key).fdAt number = sys.fdAt number := by
  rw [fdTouch]
  split
  · rfl
  · next hkey =>
    rw [fdAt, fdAt, TreeMaps.getElem?_insert_ite]
    split
    · next heq =>
      rw [Std.TreeMap.contains_eq_isSome_getElem?, ← heq] at hkey
      cases hentry : sys.fdMap[number]? with
      | none => rfl
      | some fd => simp [hentry] at hkey
    · rfl

/-- The byte that a path is read by. -/
theorem Memory.read_one {n : ℕ} (m : Memory n) (addr : Word) :
    m.read addr 1 = [m.read1b .primary addr] := by
  rw [read, if_neg fun h => absurd h.2 (by decide)]
  simp

/-- A path none of whose first bytes is NUL is not copied. -/
theorem SysCall.readPath_eq_none {n : ℕ} (m : Memory n) {addr : Word} {size : ℕ}
    (hbytes : ∀ i < size, m.read1b .primary (addr + BitVec.ofNat 32 i) ≠ 0) :
    readPath m.read addr size = none := by
  induction size generalizing addr with
  | zero => rfl
  | succ size ih =>
    have hfirst : (bytesWord (m.read addr 1)).setWidth 8 ≠ 0 := by
      rw [m.read_one]
      simpa [bytesWord] using hbytes 0 (Nat.succ_pos _)
    have hrest : readPath m.read (addr + 1) size = none := by
      refine ih fun i hi => ?_
      have haddr : addr + 1 + BitVec.ofNat 32 i = addr + BitVec.ofNat 32 (i + 1) := by
        rw [Nat.add_comm i 1, BitVec.ofNat_add, ← BitVec.add_assoc]
        rfl
      rw [haddr]
      exact hbytes (i + 1) (Nat.succ_lt_succ hi)
    unfold readPath
    dsimp only
    rw [if_neg hfirst, hrest, Option.map_none]

/-- The value given to the program after a failure is the negated `errno`. -/
theorem HostReply.result_of_failure {r : HostReply} (hret : r.int = -1) : r.result = -r.errno := by
  rw [result, hret, if_neg (by decide)]

namespace Machine

variable {n : ℕ} {α β : Type}

/-- The cores, the memory and what the emulation state means to the program are the same. -/
structure Unchanged (M M' : Machine n α β) : Prop where
  prim : M'.prim = M.prim
  reps : M'.reps = M.reps
  mem : M'.mem = M.mem
  brkAddr : M'.sys.brkAddr = M.sys.brkAddr
  fdNext : M'.sys.fdNext = M.sys.fdNext
  fdAt : ∀ number, M'.sys.fdAt number = M.sys.fdAt number

/-- The program sees a value in `a0` of every core, and nothing else has changed: no other register
of a core, no word of the memory or of a write buffer, no part of the emulation state that a later
call observes, and no halt flag. -/
structure ChangesOnlyA0 (P : RegisterMethods α) (R : RegisterMethods β) (M M' : Machine n α β)
    (value : Word) : Prop where
  prim_reg : ∀ r, P.readReg M'.prim r = if r = regA0 then value else P.readReg M.prim r
  rep_reg : ∀ i r, R.readReg (M'.reps i) r = if r = regA0 then value else R.readReg (M.reps i) r
  mem : M'.mem = M.mem
  brkAddr : M'.sys.brkAddr = M.sys.brkAddr
  fdNext : M'.sys.fdNext = M.sys.fdNext
  fdAt : ∀ number, M'.sys.fdAt number = M.sys.fdAt number
  prim_halt : M'.prim.halt = M.prim.halt
  rep_halt : ∀ i, (M'.reps i).halt = (M.reps i).halt

/-- The last host call failed, in a machine that made one more host call than another, and that is
seen in `a0` only. -/
def FailureChangesOnlyA0 (host : Host) (P : RegisterMethods α) (R : RegisterMethods β)
    (M M' : Machine n α β) : Prop :=
  ∀ c, M'.calls = M.calls ++ [c] → (M'.reply host).int = -1 →
    ChangesOnlyA0 P R M M' (-(M'.reply host).errno)

variable {host : Host} {P : RegisterMethods α} {R : RegisterMethods β} {M M' : Machine n α β}

/-- Looking up a descriptor and making a host call are not observed. -/
theorem unchanged_lookup_call (P : RegisterMethods α) (M : Machine n α β) (c : HostCall) :
    M.Unchanged ((M.lookup P).2.call c) where
  prim := rfl
  reps := rfl
  mem := rfl
  brkAddr := by
    change (M.sys.fdTouch _).brkAddr = _
    rw [fdTouch]
    split <;> rfl
  fdNext := by
    change (M.sys.fdTouch _).fdNext = _
    rw [fdTouch]
    split <;> rfl
  fdAt := M.sys.fdAt_fdTouch _

/-- Writing `a0` after steps that are not observed. -/
theorem Unchanged.writeReg (hP : P.Lawful) (hR : R.Lawful) (h : M.Unchanged M') (value : Word) :
    ChangesOnlyA0 P R M (M'.writeReg P R regA0 value) value where
  prim_reg r := (hP.read_write ..).trans (by rw [h.prim])
  rep_reg i r := (hR.read_write ..).trans (by rw [h.reps])
  mem := h.mem
  brkAddr := h.brkAddr
  fdNext := h.fdNext
  fdAt := h.fdAt
  prim_halt := (hP.halt_write ..).trans (by rw [h.prim])
  rep_halt i := (hR.halt_write ..).trans (by rw [h.reps])

/-- Giving the program the result of a host call. -/
theorem Unchanged.writeReg_result (hP : P.Lawful) (hR : R.Lawful) (h : M.Unchanged M') :
    FailureChangesOnlyA0 host P R M (M'.writeReg P R regA0 (M'.reply host).result) := by
  intro c _ hret
  change (M'.reply host).int = -1 at hret
  rw [HostReply.result_of_failure hret]
  exact h.writeReg hP hR _

/-- A call that reaches no host makes none that fails. -/
theorem failureChangesOnlyA0_of_calls (h : M'.calls = M.calls) :
    FailureChangesOnlyA0 host P R M M' := by
  intro c hcalls
  rw [h] at hcalls
  simpa using congrArg List.length hcalls

/-- A close that fails is seen in `a0` only. -/
theorem emulateClose_of_failure (hP : P.Lawful) (hR : R.Lawful) :
    FailureChangesOnlyA0 host P R M (M.emulateClose host P R) := by
  unfold emulateClose
  dsimp only
  split
  · intro c _ hret
    have hne : ¬(((M.lookup P).2.call (.close (M.lookup P).1)).reply host).int = 0 := by
      intro hzero
      exact absurd (hzero.symm.trans hret) (by decide)
    rw [if_neg hne]
    exact (unchanged_lookup_call P M _).writeReg hP hR _
  · exact failureChangesOnlyA0_of_calls rfl

/-- A seek that fails is seen in `a0` only. -/
theorem emulateLseek_of_failure (hP : P.Lawful) (hR : R.Lawful) :
    FailureChangesOnlyA0 host P R M (M.emulateLseek host P R) :=
  (unchanged_lookup_call P M _).writeReg_result hP hR

/-- A read that fails is seen in `a0` only. -/
theorem emulateRead_of_failure (hP : P.Lawful) (hR : R.Lawful) :
    FailureChangesOnlyA0 host P R M (M.emulateRead host P R) := by
  unfold emulateRead
  dsimp only
  split
  · next hpos =>
    -- data is stored only when some was read
    intro c _ hret
    change (((M.lookup P).2.call _).reply host).int = -1 at hret
    rw [hret] at hpos
    exact absurd hpos (by decide)
  · exact (unchanged_lookup_call P M _).writeReg_result hP hR

/-- A write that fails is seen in `a0` only. -/
theorem emulateWrite_of_failure (hP : P.Lawful) (hR : R.Lawful) :
    FailureChangesOnlyA0 host P R M (M.emulateWrite host P R) :=
  (unchanged_lookup_call P M _).writeReg_result hP hR

/-- The common part of `SC_FSTAT` and `SC_STAT`, after a host call that failed. -/
theorem Unchanged.finishStat (hP : P.Lawful) (hR : R.Lawful) (h : M.Unchanged M') :
    FailureChangesOnlyA0 host P R M (M'.finishStat host P R) := by
  unfold Machine.finishStat
  dsimp only
  split
  · next hzero =>
    intro c _ hret
    exact absurd (hzero.symm.trans hret) (by decide)
  · intro c _ _
    exact h.writeReg hP hR _

/-- A host call that reads no descriptor is not observed either. -/
theorem unchanged_call (M : Machine n α β) (c : HostCall) : M.Unchanged (M.call c) :=
  ⟨rfl, rfl, rfl, rfl, rfl, fun _ => rfl⟩

/-- Asking for the break address or replacing it reaches no host. -/
theorem calls_emulateSbrk (P : RegisterMethods α) (R : RegisterMethods β) (M : Machine n α β) :
    (M.emulateSbrk P R).calls = M.calls := by
  rw [emulateSbrk]
  split <;> rfl

/-- An open that fails is seen in `a0` only. -/
theorem emulateOpen_of_failure (hP : P.Lawful) (hR : R.Lawful) :
    FailureChangesOnlyA0 host P R M (M.emulateOpen host P R) := by
  unfold emulateOpen
  split
  · exact failureChangesOnlyA0_of_calls rfl
  · dsimp only
    split
    · next hge =>
      intro c _ hret
      change ((M.call _).reply host).int = -1 at hret
      rw [hret] at hge
      exact absurd hge (by decide)
    · intro c _ _
      exact (unchanged_call M _).writeReg hP hR _

/-- A `stat` that fails is seen in `a0` only. -/
theorem emulateStat_of_failure (hP : P.Lawful) (hR : R.Lawful) :
    FailureChangesOnlyA0 host P R M (M.emulateStat host P R) := by
  unfold emulateStat
  split
  · exact failureChangesOnlyA0_of_calls rfl
  · exact (unchanged_call M _).finishStat hP hR

variable (host R M) in
/-- An emulated call makes at most one host call. -/
theorem calls_emulate (hP : P.Lawful) :
    (M.emulate host P R).calls = M.calls ∨ ∃ c, (M.emulate host P R).calls = M.calls ++ [c] := by
  by_cases huses : DescriptorState.UsesDescriptor (M.readReg P regA7)
  · rcases huses with hclose | hother
    · obtain ⟨-, hcalls⟩ := M.emulate_of_close (R := R) host hP hclose
      split at hcalls
      · exact .inr ⟨_, hcalls.1⟩
      · exact .inl hcalls.1
    · obtain ⟨-, c, hcalls, -⟩ := M.emulate_of_transfer (R := R) host rfl hother
      exact .inr ⟨c, hcalls⟩
  by_cases hopen : M.readReg P regA7 = scOpen
  · rcases M.emulate_of_open (R := R) host hP hopen with ⟨-, hcalls⟩ | ⟨_, _, _, hcalls, -⟩
    · exact .inl hcalls
    · exact .inr ⟨_, hcalls⟩
  · rcases (M.emulate_of_other host huses hopen).2 with hcalls | ⟨_, hcalls⟩
    · exact .inl hcalls
    · exact .inr ⟨_, hcalls⟩

/-- A system call whose host call fails changes nothing but `a0` of every core, which becomes the
negated `errno`. So does one whose path has no NUL where it may end; it makes no host call. A
system call makes no other host call than the one that fails. -/
theorem emulate_of_failure (hP : P.Lawful) (hR : R.Lawful) :
    ((M.emulate host P R).calls = M.calls ∨
      ∃ c, (M.emulate host P R).calls = M.calls ++ [c]) ∧
    FailureChangesOnlyA0 host P R M (M.emulate host P R) ∧
      (M.readReg P regA7 = scOpen ∨ M.readReg P regA7 = scStat →
        (∀ i < simPathMax,
          M.mem.read1b .primary (M.readReg P regA0 + BitVec.ofNat 32 i) ≠ 0) →
        ChangesOnlyA0 P R M (M.emulate host P R) (-36) ∧
          (M.emulate host P R).calls = M.calls) := by
  refine ⟨calls_emulate host R M hP, ?_, ?_⟩
  · have hite : ∀ (c : Prop) [Decidable c] {A B : Machine n α β},
        FailureChangesOnlyA0 host P R M A → FailureChangesOnlyA0 host P R M B →
        FailureChangesOnlyA0 host P R M (if c then A else B) := by
      intro c _ A B hA hB
      split
      · exact hA
      · exact hB
    rw [Machine.emulate]
    refine hite _ (emulateClose_of_failure hP hR) ?_
    refine hite _ (emulateLseek_of_failure hP hR) ?_
    refine hite _ (emulateRead_of_failure hP hR) ?_
    refine hite _ (emulateWrite_of_failure hP hR) ?_
    refine hite _ ((unchanged_lookup_call P M _).finishStat hP hR) ?_
    refine hite _ (failureChangesOnlyA0_of_calls rfl) ?_
    refine hite _ (failureChangesOnlyA0_of_calls rfl) ?_
    refine hite _ (failureChangesOnlyA0_of_calls (calls_emulateSbrk P R M)) ?_
    refine hite _ (emulateOpen_of_failure hP hR) ?_
    exact hite _ (emulateStat_of_failure hP hR) (failureChangesOnlyA0_of_calls rfl)
  · intro hnumber hbytes
    have hpath := readPath_eq_none M.mem hbytes
    have hemulate : M.emulate host P R = M.writeReg P R regA0 (-36) := by
      rcases hnumber with hopen | hstat
      · rw [emulate_eq_open host M hopen, emulateOpen, hpath]
      · rw [emulate_eq_stat host M hstat, emulateStat, hpath]
    rw [hemulate]
    exact ⟨Unchanged.writeReg hP hR ⟨rfl, rfl, rfl, rfl, rfl, fun _ => rfl⟩ _, rfl⟩

/-- A machine of two functional cores that make a system call with zero arguments, over a memory of
one word that every address reads. -/
def sampleFailure (number word : Word) : Machine 1 FunctionalState FunctionalState :=
  let core := FunctionalCore.new ⟨0, 0, 0, 0, 0, 0, 0, 0, 0⟩ ⟨0, 0, 0, 0, 0, 0, 0, 0, 0⟩
  { prim := FunctionalCore.writeReg core regA7 number
    reps := fun _ => FunctionalCore.writeReg core regA7 number
    mem := { Memory.new core.memif (fun _ => core.memif) 1 with mem := fun _ => word }
    sys := SysCall.new 0 1 2 0
    calls := [] }

/-- A host that refuses every call. -/
def refusingHost (errno : Word) : Host := fun _ =>
  { (default : HostReply) with ret := -1, errno := errno }

/-- A read that the host refuses, and a path without NUL. -/
theorem sampleFailure_changes_only_a0 :
    let P := FunctionalCore.registers
    ChangesOnlyA0 P P (sampleFailure scRead 0)
        ((sampleFailure scRead 0).emulate (refusingHost 9) P P) (-9) ∧
      ChangesOnlyA0 P P (sampleFailure scOpen 0x01010101)
        ((sampleFailure scOpen 0x01010101).emulate (refusingHost 9) P P) (-36) := by
  have hbytes : ∀ i < simPathMax, (sampleFailure scOpen 0x01010101).mem.read1b .primary
      ((sampleFailure scOpen 0x01010101).readReg FunctionalCore.registers regA0 +
        BitVec.ofNat 32 i) ≠ 0 := by
    intro i _
    have hword : ∀ lane < 4, ((0x01010101 : Word) >>> (lane * 8)).setWidth 8 ≠ (0 : Byte) := by
      decide
    exact hword _ (Nat.mod_lt _ (by decide))
  exact ⟨(emulate_of_failure FunctionalCore.registers_lawful
      FunctionalCore.registers_lawful).2.1 (.read 0 0) (by decide +kernel) (by decide +kernel),
    ((emulate_of_failure FunctionalCore.registers_lawful FunctionalCore.registers_lawful).2.2
      (.inl (by decide +kernel)) hbytes).1⟩

end Machine

end VeriCross
