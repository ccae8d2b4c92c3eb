import VeriCross.Loader.Image
import VeriCross.Sim.DataAccess
import VeriCross.Sim.Undisturbed
import VeriCross.SysCall.Clock

/-!
# The clock over a run

The calls of a run are the machines on which it emulates a system call. For any two calls of
`gettimeofday` in a run of either main loop, the instruction counts at which the clock of the
program behaves are given.
-/

namespace VeriCross

open RiscV SysCall

/-! The memory has as many words during a run as at its start. -/

namespace Machine

variable {n : ℕ} {α β : Type}

/-- An emulated call keeps the number of words. -/
theorem nwords_emulate (host : Host) (P : RegisterMethods α) (R : RegisterMethods β)
    (M : Machine n α β) : (M.emulate host P R).mem.nwords = M.mem.nwords :=
  emulate_invariant (P := P) (R := R) (I := fun M' => M'.mem.nwords = M.mem.nwords)
    (fun _ h _ => h) (fun _ h _ _ => (Memory.nwords_write ..).trans h) (fun _ h _ => h)
    (fun _ h _ => h) host rfl fun _ => rfl

/-- A cycle of the first core keeps the number of words. -/
theorem nwords_primCycle (C : CoreClass α) (M : Machine n α β) :
    (M.primCycle C).machine.mem.nwords = M.mem.nwords :=
  Memory.nwords_update ..

end Machine

section Concurrent

variable {β : Type} (args : SimArgs) (host : Host) (V : CoreMethods β)

/-- A machine on which a concurrent execution emulates a system call. -/
def ConcurrentCall (M N : Machine 1 FunctionalState β) : Prop :=
  ∃ k s, (concurrentLoop args host V).Reaches (concurrentStart V M) k s ∧
    (concurrentLoop args host V).guard s = true ∧
    (nextRound args V s).emulated = some (N.readReg FunctionalCore.registers regA7) ∧
    N = (nextRun args V s).machine

variable {args host V}

/-- Both steps of an iteration keep the number of words. -/
theorem nwords_nextRun (s : ConcurrentState β) :
    (nextRun args V s).machine.mem.nwords = s.machine.mem.nwords := by
  have hcycle := Machine.nwords_primCycle FunctionalCore.methods s.machine
  rw [nextRun, (samePrimary_verilatedStep ..).nwords, functionalStep]
  split <;> exact hcycle

/-- The number of words is the same at every head of the concurrent loop. -/
theorem nwords_of_reaches {M : Machine 1 FunctionalState β} {k : ℕ} {s : ConcurrentState β}
    (h : (concurrentLoop args host V).Reaches (concurrentStart V M) k s) :
    s.machine.mem.nwords = M.mem.nwords := by
  refine h.invariant (I := fun _ s => s.machine.mem.nwords = M.mem.nwords) rfl ?_
  intro k s _ _ hs
  change (concurrentBody args host V s).machine.mem.nwords = _
  rw [← hs, ← nwords_nextRun s]
  rcases machine_cases args host (V := V) s with ⟨-, ht⟩ | ⟨-, -, ht⟩ | ⟨-, -, ht⟩
  · rw [ht]
    rfl
  · rw [ht, Machine.nwords_emulate]
  · rw [ht]

/-- The number of words is the same at every call of a concurrent run. -/
theorem ConcurrentCall.nwords {M N : Machine 1 FunctionalState β}
    (h : ConcurrentCall args host V M N) : N.mem.nwords = M.mem.nwords := by
  obtain ⟨k, s, hreach, -, -, rfl⟩ := h
  rw [nwords_nextRun, nwords_of_reaches hreach]

end Concurrent

section Single

variable {α : Type} (args : SimArgs) (host : Host) (C : CoreClass α)

/-- A machine on which a single execution emulates a system call. -/
def SingleCall (M N : Machine 0 α α) : Prop :=
  ∃ k s, (singleLoop args host C).Reaches (singleStart C M) k s ∧
    (singleLoop args host C).guard s = true ∧
    N.prim.instif.valid ≠ 0 ∧ N.prim.instif.ir = 0x00000073 ∧
    N = (s.machine.memDrive.primCycle C).machine

variable {args host C}

/-- An iteration of the single loop keeps the number of words. -/
theorem nwords_singleBody (s : SingleState α) :
    (singleBody args host C s).machine.mem.nwords = s.machine.mem.nwords := by
  have hcycle : (s.machine.memDrive.primCycle C).machine.mem.nwords = s.machine.mem.nwords :=
    Machine.nwords_primCycle ..
  rw [singleBody]
  dsimp only
  split <;> split
  · exact (Machine.nwords_emulate ..).trans hcycle
  · exact (Machine.nwords_emulate ..).trans hcycle
  · exact hcycle
  · exact hcycle

/-- The number of words is the same at every call of a single run. -/
theorem SingleCall.nwords {M N : Machine 0 α α} (h : SingleCall args host C M N) :
    N.mem.nwords = M.mem.nwords := by
  obtain ⟨k, s, hreach, -, -, -, rfl⟩ := h
  rw [Machine.nwords_primCycle]
  change s.machine.mem.nwords = _
  refine hreach.invariant (I := fun _ s => s.machine.mem.nwords = M.mem.nwords) rfl ?_
  intro k s _ _ hs
  exact (nwords_singleBody s).trans hs

end Single

/-- An iteration of the functional core alone, with a word that is not an `ecall`. -/
theorem singleBody_of_execute {t : SingleState FunctionalState} (args : SimArgs) (host : Host)
    (hready : FunctionalCore.ready t.machine.prim = true) {x : Execution}
    (hx : execute t.machine.mem.read t.machine.prim.self.pc
      (FunctionalCore.instruction t.machine.mem.read t.machine.prim) t.machine.prim.self.reg
      (FunctionalCore.start t.machine.prim).memif = some x)
    (hecall : FunctionalCore.fetch t.machine.mem.read t.machine.prim ≠ 0x00000073) :
    let M := (singleBody args host FunctionalCore.methods t).machine
    M.prim.self =
        { t.machine.prim.self with reg := Function.update x.reg regZero 0, pc := x.npc } ∧
      M.prim.cntInst = t.machine.prim.cntInst + 1 ∧
      M.prim.halt =
        (decide (args.maxInsts ≤ t.machine.prim.cntInst + 1) || t.machine.prim.halt) ∧
      M.mem.nwords = t.machine.mem.nwords ∧
      M.mem.view none = WordMap.request t.machine.mem.nwords x.memif (t.machine.mem.view none) := by
  have hcycle := Machine.primCycle_of_execute (M := t.machine.memDrive) hready hx
  have hbody := machine_singleBody args host (t := t) (by rw [hcycle])
  rw [hcycle, Machine.afterInst, if_neg hecall] at hbody
  dsimp only
  rw [hbody]
  exact ⟨rfl, rfl, rfl, Machine.nwords_memUpdate .., Machine.view_memUpdate ..⟩

/-! A program without jumps, from its first word on. -/

/-- A program in the memory of a functional core. -/
def programMachine (program : List Word) : Machine 0 FunctionalState FunctionalState :=
  let memif : CoreMemoryIF := ⟨0, 0, 0, 0, 0, 0, 0, 0, 0⟩
  boot ⟨0, 0, 0, 0, 0, 0, 0, 0, 0⟩ memif Fin.elim0 memif Fin.elim0
    [{ addr := initialPc, length := BitVec.ofNat 32 (4 * program.length), data := program }] 0

/-- The machine of a program has the number of words of the simulator. -/
theorem nwords_programMachine (program : List Word) :
    (programMachine program).mem.nwords = memWords :=
  (agree_boot _ _ _ _ _ _ _).1

/-- The words of a program are in the memory. -/
theorem wordAt_programMachine {program : List Word} (hlength : program.length ≤ 2 ^ 19) {i : ℕ}
    {w : Word} (hw : program[i]? = some w) :
    (programMachine program).mem.wordAt initialPc i = w := by
  obtain ⟨-, hagree⟩ := agree_boot ⟨0, 0, 0, 0, 0, 0, 0, 0, 0⟩ ⟨0, 0, 0, 0, 0, 0, 0, 0, 0⟩
    (Fin.elim0 : Fin 0 → Core FunctionalState) ⟨0, 0, 0, 0, 0, 0, 0, 0, 0⟩ Fin.elim0
    [{ addr := initialPc, length := BitVec.ofNat 32 (4 * program.length), data := program }] 0
  have hfits : (BitVec.ofNat 32 (4 * program.length)).toNat = 4 * program.length := by
    rw [BitVec.toNat_ofNat]
    omega
  rw [loadBytes, List.foldl_cons, List.foldl_nil, Section.bytes_eq hfits] at hagree
  exact Memory.wordAt_of_agree (by decide) hagree hlength hw

/-- The core is about to execute a word of the program, with a number for `ecall` from its second
word on. -/
structure AtWord (program : List Word) (number : Word) (k : ℕ) (t : SingleState FunctionalState) :
    Prop where
  ready : FunctionalCore.ready t.machine.prim = true
  pc : t.machine.prim.self.pc = initialPc + BitVec.ofNat 32 (4 * k)
  cntInst : t.machine.prim.cntInst = BitVec.ofNat 64 k
  zero : t.machine.prim.self.reg regZero = 0
  number : 0 < k → t.machine.prim.self.reg regA7 = number
  words : ∀ i w, program[i]? = some w → t.machine.mem.wordAt initialPc i = w

namespace AtWord

variable {program : List Word} {number : Word} {k : ℕ} {t : SingleState FunctionalState}

/-- The start of a program is at its first word. -/
theorem start (number : Word) (hlength : program.length ≤ 2 ^ 19) :
    AtWord program number 0 (singleStart FunctionalCore.methods (programMachine program)) where
  ready := rfl
  pc := rfl
  cntInst := rfl
  zero := rfl
  number := fun h => absurd h (by omega)
  words := fun _ _ => wordAt_programMachine hlength

/-- The word that the core fetches. -/
theorem fetch (h : AtWord program number k t) {w : Word} (hw : program[k]? = some w) :
    FunctionalCore.fetch t.machine.mem.read t.machine.prim = w := by
  rw [FunctionalCore.fetch, h.pc]
  exact h.words k w hw

/-- A word that is executed without a request to the memory and without a jump. -/
theorem next (h : AtWord program number k t) {w : Word} (hw : program[k]? = some w)
    (hecall : w ≠ 0x00000073) {reg : RegIndex → Word}
    (hx : ∀ read pc memif, execute read pc (RiscVInstruction.decode pc w)
      t.machine.prim.self.reg memif = some ⟨reg, pc + 4, memif, 0⟩)
    (hreg : reg regA7 = number) {args : SimArgs} (host : Host)
    (hmax : t.machine.prim.cntInst + 1 < args.maxInsts) :
    AtWord program number (k + 1) (singleBody args host FunctionalCore.methods t) := by
  have hfetch := h.fetch hw
  have hexecute := hx t.machine.mem.read t.machine.prim.self.pc
    (FunctionalCore.start t.machine.prim).memif
  rw [← hfetch] at hexecute hecall
  obtain ⟨hself, hcnt, hhalt, hnwords, hview⟩ :=
    singleBody_of_execute args host h.ready hexecute hecall
  have hready : t.machine.prim.halt = false ∧ t.machine.prim.self.memory = true := by
    simpa [FunctionalCore.ready] using h.ready
  refine ⟨?_, ?_, ?_, ?_, fun _ => ?_, fun i v hv => ?_⟩
  · rw [FunctionalCore.ready, hself, hhalt, hready.1, hready.2,
      decide_eq_false (BitVec.not_le.mpr hmax)]
    rfl
  · rw [hself, h.pc, Nat.mul_succ, BitVec.ofNat_add, ← BitVec.add_assoc]
    rfl
  · rw [hcnt, h.cntInst, BitVec.ofNat_add]
    rfl
  · rw [hself]
    exact Function.update_self regZero 0 reg
  · rw [hself]
    exact (Function.update_of_ne (by decide : regA7 ≠ regZero) 0 reg).trans hreg
  · rw [← h.words i v hv, Memory.wordAt, Memory.wordAt, Memory.read_eq_get, Memory.read_eq_get,
      hnwords, hview]
    rfl

end AtWord

/-! Programs that ask for the time. -/

/-- `addi a7, zero, 169`, fences, and an `ecall`. -/
def timeProgram (fences : ℕ) : List Word :=
  0x0a900893 :: (List.replicate fences 0x0000000f ++ [0x00000073])

/-- The program is the number of the call, the fences and the call. -/
theorem length_timeProgram (fences : ℕ) : (timeProgram fences).length = fences + 2 := by
  rw [timeProgram, List.length_cons, List.length_append, List.length_replicate]
  rfl

/-- The words after the first one are fences. -/
theorem timeProgram_fence {fences k : ℕ} (hk : k < fences) :
    (timeProgram fences)[k + 1]? = some 0x0000000f := by
  rw [timeProgram, List.getElem?_cons_succ,
    List.getElem?_append_left (by rw [List.length_replicate]; exact hk), List.getElem?_replicate,
    if_pos hk]

/-- The last word is the call. -/
theorem timeProgram_ecall (fences : ℕ) : (timeProgram fences)[fences + 1]? = some 0x00000073 := by
  rw [timeProgram, List.getElem?_cons_succ, List.getElem?_append_right (by simp)]
  simp

section TimeProgram

variable {args : SimArgs} (host : Host)

/-- The core gets to each word of the program. -/
theorem timeProgram_reaches {fences : ℕ} (hlength : fences + 2 ≤ 2 ^ 19)
    (hmax : fences + 1 < args.maxInsts.toNat) {k : ℕ} (hk : k ≤ fences + 1) :
    ∃ t, (singleLoop args host FunctionalCore.methods).Reaches
        (singleStart FunctionalCore.methods (programMachine (timeProgram fences))) k t ∧
      AtWord (timeProgram fences) scGettimeofday k t := by
  induction k with
  | zero => exact ⟨_, .start, .start _ ((length_timeProgram fences).trans_le hlength)⟩
  | succ k ih =>
    obtain ⟨t, hreach, ht⟩ := ih (by omega)
    have hguard : (singleLoop args host FunctionalCore.methods).guard t = true := by
      have hready := ht.ready
      rw [FunctionalCore.ready, Bool.and_eq_true] at hready
      exact hready.1
    have hcount : t.machine.prim.cntInst + 1 < args.maxInsts := by
      rw [ht.cntInst, BitVec.lt_def, BitVec.toNat_add, BitVec.toNat_ofNat]
      change (k % 2 ^ 64 + 1) % 2 ^ 64 < _
      omega
    refine ⟨_, hreach.next hguard, ?_⟩
    cases k with
    | zero =>
      refine ht.next (w := 0x0a900893) rfl (by decide)
        (fun read pc memif => execute_opImm read pc _ memif .addi 17 0 169) ?_ host hcount
      change t.machine.prim.self.reg regZero + 169 = scGettimeofday
      rw [ht.zero]
      rfl
    | succ k =>
      exact ht.next (timeProgram_fence (by omega)) (by decide) (fun _ _ _ => rfl)
        (ht.number k.succ_pos) host hcount

/-- The program makes one call, with its last instruction. -/
theorem timeProgram_call (args : SimArgs) (fences : ℕ) (hlength : fences + 2 ≤ 2 ^ 19)
    (hmax : fences + 1 < args.maxInsts.toNat) :
    ∃ N, SingleCall args host FunctionalCore.methods (programMachine (timeProgram fences)) N ∧
      N.readReg FunctionalCore.registers regA7 = scGettimeofday ∧
      N.prim.cntInst.toNat = fences + 2 := by
  obtain ⟨t, hreach, ht⟩ := timeProgram_reaches host hlength hmax (le_refl (fences + 1))
  have hfetch := ht.fetch (timeProgram_ecall fences)
  have hguard : (singleLoop args host FunctionalCore.methods).guard t = true := by
    have hready := ht.ready
    rw [FunctionalCore.ready, Bool.and_eq_true] at hready
    exact hready.1
  have hx : execute t.machine.mem.read t.machine.prim.self.pc
      (FunctionalCore.instruction t.machine.mem.read t.machine.prim) t.machine.prim.self.reg
      (FunctionalCore.start t.machine.prim).memif = some ⟨t.machine.prim.self.reg,
        t.machine.prim.self.pc + 4, (FunctionalCore.start t.machine.prim).memif, 0⟩ := by
    rw [FunctionalCore.instruction, hfetch]
    rfl
  have hcycle := Machine.primCycle_of_execute (M := t.machine.memDrive) ht.ready hx
  refine ⟨_, ⟨_, t, hreach, hguard, ?_, ?_, rfl⟩, ?_, ?_⟩
  · rw [hcycle]
    exact (by decide : (1 : Word) ≠ 0)
  · rw [hcycle]
    exact hfetch
  · rw [hcycle]
    exact (Function.update_of_ne (by decide : regA7 ≠ regZero) 0 _).trans
      (ht.number fences.succ_pos)
  · rw [hcycle]
    change (t.machine.prim.cntInst + 1).toNat = _
    rw [ht.cntInst, BitVec.toNat_add, BitVec.toNat_ofNat]
    change ((fences + 1) % 2 ^ 64 + 1) % 2 ^ 64 = _
    omega

end TimeProgram

/-- What a core reports that executes the program without fences. -/
def timeRecords : List CoreInstructionIF :=
  [⟨1, 0x00010000, 0x0a900893, 17, 169, 0, 0, 0, 0⟩, ⟨1, 0x00010004, 0x00000073, 0, 0, 0, 0, 0, 0⟩]

/-- The thousandth instruction of a program asks for the time. A whole second of microseconds is
reported before the first second is over. -/
theorem time_at_thousand :
    ∃ N, SingleCall ⟨2000, 0, false⟩ (fun _ => default) FunctionalCore.methods
        (programMachine (timeProgram 998)) N ∧
      N.readReg FunctionalCore.registers regA7 = scGettimeofday ∧
      N.prim.cntInst.toNat = 1000 ∧ ClockFits N.prim.cntInst ∧
      ¬Machine.ClockRuns
        (N.timeCall (fun _ => default) FunctionalCore.registers FunctionalCore.registers)
        (N.timeCall (fun _ => default) FunctionalCore.registers FunctionalCore.registers) := by
  obtain ⟨N, hcall, hnumber, hcount⟩ := timeProgram_call (fun _ => default) ⟨2000, 0, false⟩ 998
    (by omega) (by decide)
  have hfits : ClockFits N.prim.cntInst := by
    rw [ClockFits, hcount]
    omega
  refine ⟨N, hcall, hnumber, hcount, hfits, fun h => ?_⟩
  have hnw := hcall.nwords.trans (nwords_programMachine _)
  have hiff := Machine.clockRuns_iff (fun _ => default) FunctionalCore.registers
    FunctionalCore.registers hnw hnumber hnw hnumber (BitVec.le_refl _) hfits
  rw [hcount] at hiff
  exact absurd (hiff.mp h).1 (by omega)

/-- For any two calls of `gettimeofday` in a run, of either main loop, the second at a count that is
not smaller: the clock runs between them exactly when both counts are less than a thousand above a
multiple of a million, and the time stamps of files agree with it, too, exactly when both are such
multiples. -/
theorem clock_iff (args : SimArgs) (host : Host) :
    (∀ (β : Type) (V : CoreMethods β) (M N N' : Machine 1 FunctionalState β),
      M.mem.nwords = memWords → ConcurrentCall args host V M N → ConcurrentCall args host V M N' →
      let P := FunctionalCore.registers
      let R := V.toRegisterMethods
      let t := N.timeCall host P R
      let t' := N'.timeCall host P R
      N.readReg P regA7 = scGettimeofday → N'.readReg P regA7 = scGettimeofday →
      t.cntInst ≤ t'.cntInst → ClockFits t'.cntInst →
        (Machine.ClockRuns t t' ↔
          t.cntInst.toNat % 1000000 < 1000 ∧ t'.cntInst.toNat % 1000000 < 1000) ∧
        (Machine.ClockBehaves P P R R t t' ↔
          t.cntInst.toNat % 1000000 = 0 ∧ t'.cntInst.toNat % 1000000 = 0)) ∧
    ∀ (α : Type) (C : CoreClass α) (M N N' : Machine 0 α α),
      (∀ read, (C read).toRegisterMethods.Lawful) → M.mem.nwords = memWords →
      SingleCall args host C M N → SingleCall args host C M N' →
      let P := (C N.mem.read).toRegisterMethods
      let P' := (C N'.mem.read).toRegisterMethods
      let t := N.timeCall host P P
      let t' := N'.timeCall host P' P'
      N.readReg P regA7 = scGettimeofday → N'.readReg P' regA7 = scGettimeofday →
      t.cntInst ≤ t'.cntInst → ClockFits t'.cntInst →
        (Machine.ClockRuns t t' ↔
          t.cntInst.toNat % 1000000 < 1000 ∧ t'.cntInst.toNat % 1000000 < 1000) ∧
        (Machine.ClockBehaves P P' P P' t t' ↔
          t.cntInst.toNat % 1000000 = 0 ∧ t'.cntInst.toNat % 1000000 = 0) := by
  constructor
  · intro β V M N N' hnw hcall hcall' P R t t' hnumber hnumber' hle hfits
    have hN := hcall.nwords.trans hnw
    have hN' := hcall'.nwords.trans hnw
    exact ⟨Machine.clockRuns_iff host R R hN hnumber hN' hnumber' hle hfits,
      Machine.clockBehaves_iff host R R hN hnumber FunctionalCore.registers_lawful
        FunctionalCore.registers_lawful hN' hnumber' hle hfits⟩
  · intro α C M N N' hC hnw hcall hcall' P P' t t' hnumber hnumber' hle hfits
    have hN := hcall.nwords.trans hnw
    have hN' := hcall'.nwords.trans hnw
    exact ⟨Machine.clockRuns_iff host P P' hN hnumber hN' hnumber' hle hfits,
      Machine.clockBehaves_iff host P P' hN hnumber (hC _) (hC _) hN' hnumber' hle hfits⟩

/-- A program that asks for the time with its second instruction, alone and against a core that
plays the same two instructions back: the clock runs, and the time stamps of files differ. -/
theorem time_at_two :
    (∃ N, ConcurrentCall ⟨10, 0, false⟩ (fun _ => default) (RVCorePCore.methods Playback.top)
          (playbackMachine (timeProgram 0) timeRecords) N ∧
        let P := FunctionalCore.registers
        let R := (RVCorePCore.methods Playback.top).toRegisterMethods
        let t := N.timeCall (fun _ => default) P R
        Machine.ClockRuns t t ∧ ¬Machine.ClockBehaves P P R R t t) ∧
      ∃ N, SingleCall ⟨10, 0, false⟩ (fun _ => default) FunctionalCore.methods
          (programMachine (timeProgram 0)) N ∧
        let P := FunctionalCore.registers
        let t := N.timeCall (fun _ => default) P P
        Machine.ClockRuns t t ∧ ¬Machine.ClockBehaves P P P P t t := by
  constructor
  · have hreach := WhileLoop.Reaches.start.next (L := concurrentLoop ⟨10, 0, false⟩
      (fun _ => default) (RVCorePCore.methods Playback.top)) (s := concurrentStart
        (RVCorePCore.methods Playback.top) (playbackMachine (timeProgram 0) timeRecords))
      (by decide +kernel)
    obtain ⟨hruns, hbehaves⟩ := (clock_iff ⟨10, 0, false⟩ fun _ => default).1 _
      (RVCorePCore.methods Playback.top) _ _ _ rfl
      ⟨_, _, hreach, by decide +kernel, by decide +kernel, rfl⟩
      ⟨_, _, hreach, by decide +kernel, by decide +kernel, rfl⟩ (by decide +kernel)
      (by decide +kernel) (BitVec.le_refl _) (by rw [ClockFits]; decide +kernel)
    exact ⟨_, ⟨_, _, hreach, by decide +kernel, by decide +kernel, rfl⟩,
      hruns.mpr (by decide +kernel), fun h => absurd (hbehaves.mp h) (by decide +kernel)⟩
  · obtain ⟨N, hcall, hnumber, hcount⟩ := timeProgram_call (fun _ => default) ⟨10, 0, false⟩ 0
      (by omega) (by decide)
    have hfits : ClockFits N.prim.cntInst := by
      rw [ClockFits, hcount]
      omega
    obtain ⟨hruns, hbehaves⟩ := (clock_iff ⟨10, 0, false⟩ fun _ => default).2 _
      FunctionalCore.methods _ N N (fun _ => FunctionalCore.registers_lawful)
      (nwords_programMachine _) hcall hcall
      hnumber hnumber (BitVec.le_refl _) hfits
    refine ⟨N, hcall, hruns.mpr ?_, fun h => ?_⟩
    · change N.prim.cntInst.toNat % 1000000 < 1000 ∧ N.prim.cntInst.toNat % 1000000 < 1000
      rw [hcount]
      omega
    · have hzero : N.prim.cntInst.toNat % 1000000 = 0 := (hbehaves.mp h).1
      rw [hcount] at hzero
      omega

end VeriCross
