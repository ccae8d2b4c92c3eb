import VeriCross.Sim.Lockstep
import VeriCross.Sim.SameRun
import VeriCross.Sim.Single

/-!
# Concurrent execution does not disturb the functional core

As long as the pairs are accepted and the functional core retires its instructions, an iteration
of the concurrent loop and one of the single loop do the same to the first core, so both loops go
through the same first cores.
-/

namespace VeriCross

open RiscV SysCall

namespace Machine

variable {n : ℕ} {β : Type} (host : Host) (R : RegisterMethods β)

/-- The machine after the retired word was looked at: an `ecall` is emulated. -/
def afterInst (M : Machine n FunctionalState β) (ir : Word) : Machine n FunctionalState β :=
  if ir = 0x00000073 then M.emulate host FunctionalCore.registers R else M

/-- Looking at the word counts nothing, and stops the first core when the program exits. -/
theorem afterInst_prim (M : Machine n FunctionalState β) (ir : Word) :
    (M.afterInst host R ir).prim.cntInst = M.prim.cntInst ∧
      (M.afterInst host R ir).prim.halt = (M.prim.halt ||
        decide (ir = 0x00000073 ∧ M.readReg FunctionalCore.registers regA7 = scExit)) := by
  rw [afterInst]
  by_cases hecall : ir = 0x00000073
  · obtain ⟨hcnt, hhalt⟩ :=
      M.emulate_prim host (R := R) FunctionalCore.registers_lawful.toKeepsCounts
    rw [if_pos hecall]
    refine ⟨hcnt, hhalt.trans ?_⟩
    simp [hecall]
  · rw [if_neg hecall, decide_eq_false fun h => hecall h.1, Bool.or_false]
    exact ⟨rfl, rfl⟩

end Machine

/-- Looking at the same word keeps the relation. -/
theorem SameRun.afterInst {n n' : ℕ} {β β' : Type} {M : Machine n FunctionalState β}
    {M' : Machine n' FunctionalState β'} (h : SameRun M M') (host : Host) (R : RegisterMethods β)
    (R' : RegisterMethods β') (ir : Word) :
    SameRun (M.afterInst host R ir) (M'.afterInst host R' ir) := by
  unfold Machine.afterInst
  split
  · exact (SameRun.emulationRel R R').emulate host h fun _ =>
      ⟨h.self, h.cntInst, h.view, h.nwords, h.sys, h.calls⟩
  · exact h

section Iteration

variable {β : Type} {args : SimArgs} {host : Host} {V : CoreMethods β}

/-- In every iteration so far the pair was accepted and the functional core retired an
instruction. -/
def Regular (s : ConcurrentState β) : Prop :=
  ∀ r ∈ s.rounds, r.accepted = true ∧ r.functional ≠ none

/-- Both loops are at their head with the same first core. -/
structure SameHead (s : ConcurrentState β) (t : SingleState FunctionalState) : Prop where
  run : SameRun s.machine t.machine
  halt : s.machine.prim.halt = t.machine.prim.halt
  memory : s.machine.prim.self.memory = true

variable (args host V) in
/-- A regular iteration of the concurrent loop: after both steps the retired word is looked
at. -/
theorem machine_of_regular {s : ConcurrentState β} (hhalt : s.machine.prim.halt = false)
    (hmemory : s.machine.prim.self.memory = true)
    (haccepted : (nextRound args V s).accepted = true)
    (hretired : (nextRound args V s).functional ≠ none) :
    (concurrentBody args host V s).machine =
      (nextRun args V s).machine.afterInst host V.toRegisterMethods
        (FunctionalCore.fetch s.machine.mem.read s.machine.prim) := by
  have hspec := functionalStep_spec args hhalt hmemory
  have hdriven : (functionalStep args s.machine).driven = true := by
    by_contra hrefused
    exact hretired (if_neg hrefused)
  have hir : (nextRound args V s).fif.ir =
      FunctionalCore.fetch s.machine.mem.read s.machine.prim := by
    rw [nextRound_fif]
    exact (hspec.instif hdriven).2
  have hemulates : (nextRound args V s).emulated.isSome = true ↔
      FunctionalCore.fetch s.machine.mem.read s.machine.prim = 0x00000073 := by
    rw [nextRound_emulates_iff, ← hir]
    exact and_iff_right haccepted
  rw [machine_concurrentBody, if_neg (by rw [haccepted]; decide)]
  simp only [hemulates]
  rfl

variable (args host) in
/-- An iteration of the single loop that retires an instruction. -/
theorem machine_singleBody {t : SingleState FunctionalState}
    (hdriven : (t.machine.memDrive.primCycle FunctionalCore.methods).driven = true) :
    (singleBody args host FunctionalCore.methods t).machine =
      let M := (t.machine.memDrive.primCycle FunctionalCore.methods).machine.afterInst host
        FunctionalCore.registers (FunctionalCore.fetch t.machine.mem.read t.machine.prim)
      M.setPrim
        { M.prim with halt := decide (args.maxInsts ≤ M.prim.cntInst) || M.prim.halt } := by
  obtain ⟨hok, hvalid, hir⟩ := primCycle_retires hdriven
  have hecall :
      (t.machine.memDrive.primCycle FunctionalCore.methods).machine.prim.instif.valid ≠ 0 ∧
      (t.machine.memDrive.primCycle FunctionalCore.methods).machine.prim.instif.ir = 0x00000073 ↔
      FunctionalCore.fetch t.machine.mem.read t.machine.prim = 0x00000073 := by
    rw [hvalid, hir]
    exact and_iff_right (by decide)
  rw [singleBody]
  dsimp only
  rw [hok]
  simp only [hecall]
  change (if args.maxInsts ≤ (Machine.afterInst host FunctionalCore.registers
      (t.machine.memDrive.primCycle FunctionalCore.methods).machine
      (FunctionalCore.fetch t.machine.mem.read t.machine.prim)).prim.cntInst ∨ true = false then
    Machine.haltPrim _ else _) = _
  rw [Machine.ite_haltPrim]
  simp only [Bool.true_eq_false, or_false]
  rfl

/-- An iteration keeps the first cores the same. -/
theorem SameHead.next {s : ConcurrentState β} {t : SingleState FunctionalState}
    (h : SameHead s t) (hhalt : s.machine.prim.halt = false)
    (haccepted : (nextRound args V s).accepted = true)
    (hretired : (nextRound args V s).functional ≠ none) :
    SameHead (concurrentBody args host V s) (singleBody args host FunctionalCore.methods t) := by
  have hdriven : (s.machine.primCycle FunctionalCore.methods).driven = true := by
    by_contra hrefused
    refine hretired (if_neg ?_)
    rwa [functionalStep_eq hhalt]
  have hbefore : SameRun s.machine t.machine.memDrive :=
    ⟨h.run.self, h.run.cntInst, h.run.view, h.run.nwords, h.run.sys, h.run.calls⟩
  obtain ⟨hdriven', hcycle⟩ := hbefore.primCycle h.halt hdriven
  have hrun : SameRun (nextRun args V s).machine
      (t.machine.memDrive.primCycle FunctionalCore.methods).machine := by
    refine SameRun.of_samePrimary ?_ (samePrimary_verilatedStep ..)
    rw [functionalStep_eq hhalt]
    exact ⟨hcycle.self, hcycle.cntInst, hcycle.view, hcycle.nwords, hcycle.sys, hcycle.calls⟩
  have hfetch : FunctionalCore.fetch s.machine.mem.read s.machine.prim =
      FunctionalCore.fetch t.machine.mem.read t.machine.prim := by
    rw [FunctionalCore.fetch, FunctionalCore.fetch, h.run.read, h.run.self]
  have hmachine := machine_of_regular args host V hhalt h.memory
    haccepted hretired
  have hmachine' := machine_singleBody args host hdriven'
  rw [hfetch] at hmachine
  have hafter := hrun.afterInst host V.toRegisterMethods FunctionalCore.registers
    (FunctionalCore.fetch t.machine.mem.read t.machine.prim)
  refine ⟨?_, ?_, memory_concurrentBody hhalt h.memory⟩
  · rw [hmachine, hmachine']
    exact ⟨hafter.self, hafter.cntInst, hafter.view, hafter.nwords, hafter.sys, hafter.calls⟩
  · have hlimit : (nextRun args V s).machine.prim.halt =
        decide (args.maxInsts ≤ (nextRun args V s).machine.prim.cntInst) := by
      rw [nextRun, (samePrimary_verilatedStep ..).prim, functionalStep_eq hhalt]
      change (_ || !(s.machine.primCycle FunctionalCore.methods).driven) = _
      rw [hdriven, Bool.not_true, Bool.or_false]
      rfl
    have hgoing : (t.machine.memDrive.primCycle FunctionalCore.methods).machine.prim.halt =
        false :=
      (primCycle_halt _).trans (h.halt.symm.trans hhalt)
    have hargument : (nextRun args V s).machine.readReg FunctionalCore.registers regA7 =
        (t.machine.memDrive.primCycle FunctionalCore.methods).machine.readReg
          FunctionalCore.registers regA7 :=
      congrFun (congrArg FunctionalState.reg hrun.self) regA7
    rw [hmachine, hmachine']
    dsimp only [Machine.setPrim]
    rw [(Machine.afterInst_prim ..).2, (Machine.afterInst_prim ..).1,
      (Machine.afterInst_prim ..).2, hlimit, hgoing, hargument, hrun.cntInst, Bool.false_or]

/-- Earlier iterations of a regular run are regular. -/
theorem regular_of_concurrentBody (s : ConcurrentState β)
    (h : Regular (concurrentBody args host V s)) : Regular s := by
  intro r hr
  refine h r ?_
  rw [rounds_concurrentBody]
  exact List.mem_append_left _ hr

/-- Loops whose heads have the same first core go through the same first cores, as long as the
concurrent run is regular. -/
theorem SameHead.reaches {s : ConcurrentState β} {t : SingleState FunctionalState} {k : ℕ}
    {s' : ConcurrentState β} (hreach : (concurrentLoop args host V).Reaches s k s')
    (hregular : Regular s') (h : SameHead s t) :
    ∃ t', (singleLoop args host FunctionalCore.methods).Reaches t k t' ∧ SameHead s' t' := by
  refine hreach.simulation (P := Regular) hregular regular_of_concurrentBody h ?_
  intro u u' hguard hu hrel
  obtain ⟨hgoing, -⟩ := concurrentLoop_guard.mp hguard
  obtain ⟨haccepted, hretired⟩ := hu (nextRound args V u) (by
    change nextRound args V u ∈ (concurrentBody args host V u).rounds
    rw [rounds_concurrentBody]
    exact List.mem_append_right _ List.mem_cons_self)
  refine ⟨?_, hrel.next hgoing haccepted hretired⟩
  change (!u'.machine.prim.halt) = true
  rw [← hrel.halt, hgoing]
  rfl

/-- After any number of regular iterations of the concurrent loop, the program counter, the
registers and the instruction count of the functional core, the words it reads, the emulation
state and the host calls are those of the single loop after as many iterations on the same image,
whatever the replica does and whatever the uninitialised interfaces held. -/
theorem concurrent_undisturbed (instif instif' : CoreInstructionIF) (memif memif' : CoreMemoryIF)
    (rep : Core β) (ifPrim ifPrim' ifRep : CoreMemoryIF) (sections : List Section)
    (brkAddr : Word) {k : ℕ} {s : ConcurrentState β}
    (hreach : (concurrentLoop args host V).Reaches (concurrentStart V
      (boot instif memif (fun _ => rep) ifPrim (fun _ => ifRep) sections brkAddr)) k s)
    (hregular : Regular s) :
    ∃ t, (singleLoop args host FunctionalCore.methods).Reaches
        (singleStart FunctionalCore.methods
          (boot instif' memif' Fin.elim0 ifPrim' Fin.elim0 sections brkAddr)) k t ∧
      s.machine.prim.self.pc = t.machine.prim.self.pc ∧
      s.machine.prim.self.reg = t.machine.prim.self.reg ∧
      s.machine.prim.cntInst = t.machine.prim.cntInst ∧ s.machine.mem.read = t.machine.mem.read ∧
      s.machine.sys = t.machine.sys ∧ s.machine.calls = t.machine.calls := by
  have hboot := sameRun_boot instif instif' memif memif' (fun _ : Fin 1 => rep)
    (Fin.elim0 : Fin 0 → Core FunctionalState) ifPrim ifPrim' (fun _ => ifRep) Fin.elim0 sections
    brkAddr
  have hstart : SameHead (concurrentStart V
      (boot instif memif (fun _ => rep) ifPrim (fun _ => ifRep) sections brkAddr))
      (singleStart FunctionalCore.methods
        (boot instif' memif' Fin.elim0 ifPrim' Fin.elim0 sections brkAddr)) :=
    { run := ⟨hboot.self, hboot.cntInst, hboot.view, hboot.nwords, hboot.sys, hboot.calls⟩
      halt := rfl
      memory := rfl }
  obtain ⟨t, ht, hrun, -, -⟩ := hstart.reaches hreach hregular
  exact ⟨t, ht, congrArg FunctionalState.pc hrun.self, congrArg FunctionalState.reg hrun.self,
    hrun.cntInst, hrun.read, hrun.sys, hrun.calls⟩

end Iteration

/-- One instruction that does nothing, executed with and without a replica. -/
theorem nop_undisturbed :
    let V := RVCorePCore.methods Playback.top
    let host : Host := fun _ => default
    let zero : CoreInstructionIF := ⟨0, 0, 0, 0, 0, 0, 0, 0, 0⟩
    let memif : CoreMemoryIF := ⟨0, 0, 0, 0, 0, 0, 0, 0, 0⟩
    let rep := CoreWrapper.new zero memif
      { rest := [⟨1, 0x00010000, 0x00000013, 0, 0, 0, 0, 0, 0⟩], shown := zero, reg := fun _ => 0 }
    let image : List Section := [{ addr := initialPc, length := 4, data := [0x00000013] }]
    let L := concurrentLoop ⟨10, 0, false⟩ host V
    let s := L.body
      (concurrentStart V (boot zero memif (fun _ => rep) memif (fun _ => memif) image 0))
    ∃ t, (singleLoop ⟨10, 0, false⟩ host FunctionalCore.methods).Reaches
        (singleStart FunctionalCore.methods
          (boot zero memif Fin.elim0 memif Fin.elim0 image 0)) 1 t ∧
      s.machine.prim.self.pc = t.machine.prim.self.pc ∧
      s.machine.prim.self.reg = t.machine.prim.self.reg ∧
      s.machine.prim.cntInst = t.machine.prim.cntInst ∧ s.machine.mem.read = t.machine.mem.read ∧
      s.machine.sys = t.machine.sys ∧ s.machine.calls = t.machine.calls := by
  intro V host zero memif rep image L s
  have hgoing : L.guard (concurrentStart V
      (boot zero memif (fun _ => rep) memif (fun _ => memif) image 0)) = true := by
    decide +kernel
  have hregular : ∀ r ∈ s.rounds, r.accepted = true ∧ r.functional ≠ none := by
    decide +kernel
  exact concurrent_undisturbed zero zero memif memif rep memif memif memif image 0
    (WhileLoop.Reaches.start.next hgoing) hregular

end VeriCross
