import VeriCross.Sim.CoreCycle
import VeriCross.Sim.Lockstep
import VeriCross.Sim.OwnTrace
import VeriCross.Sim.SameRun

/-!
# The verilated core does not notice the functional core

With `-p` the verilated core is simulated alone. A cycle of it in concurrent execution and an
iteration of the single loop do the same to the core and to its port of the memory. An iteration
of the concurrent loop is therefore as many iterations of the single loop as the core needs cycles
for an instruction, if both cores agree wherever a system call is emulated.
-/

namespace VeriCross

open RiscV SysCall

/-- The core as it is while it runs. -/
def Core.running {σ : Type} (c : Core σ) : Core σ := { c with halt := false }

/-- A core is determined by its halt flag and the rest. -/
theorem Core.eq_of_running {σ : Type} {c c' : Core σ} (h : c.running = c'.running)
    (hhalt : c.halt = c'.halt) : c = c' := by
  have hself := congrArg Core.self h
  have hinst := congrArg Core.cntInst h
  have hcycle := congrArg Core.cntCycle h
  have hinstif := congrArg Core.instif h
  have hmemif := congrArg Core.memif h
  cases c
  cases c'
  cases hself
  cases hinst
  cases hcycle
  cases hinstif
  cases hmemif
  cases hhalt
  rfl

/-! Machines that are the same for the verilated core. -/

/-- The verilated core and everything it can observe are the same in concurrent execution and
alone, apart from the halt flag. -/
structure SameReplica {β : Type} (M : Machine 1 FunctionalState β) (N : Machine 0 β β) : Prop where
  core : (M.reps 0).running = N.prim.running
  port : M.mem.port (some 0) = N.mem.port none
  nwords : M.mem.nwords = N.mem.nwords
  sys : M.sys = N.sys
  calls : M.calls = N.calls

namespace SameReplica

variable {β : Type} {M : Machine 1 FunctionalState β} {N : Machine 0 β β}

/-- Counters are not part of what may differ. -/
theorem cntInst (h : SameReplica M N) : (M.reps 0).cntInst = N.prim.cntInst := by
  have hcnt := congrArg Core.cntInst h.core
  exact hcnt

/-- The state of the derived class is not part of what may differ. -/
theorem self (h : SameReplica M N) : (M.reps 0).self = N.prim.self := by
  have hself := congrArg Core.self h.core
  exact hself

/-- The words that the verilated core sees. -/
theorem view (h : SameReplica M N) : M.mem.view (some 0) = N.mem.view none :=
  congrArg Port.view h.port

/-- The memory interface may be driven before a cycle. -/
theorem memDrive (h : SameReplica M N) : SameReplica M N.memDrive :=
  ⟨h.core, h.port, h.nwords, h.sys, h.calls⟩

/-- The first core of the concurrent execution may be replaced. -/
theorem setPrim (h : SameReplica M N) (core : Core FunctionalState) :
    SameReplica (M.setPrim core) N :=
  ⟨h.core, h.port, h.nwords, h.sys, h.calls⟩

/-- The halt flags may be set. -/
theorem halts (h : SameReplica M N) (halt halt' : Bool) :
    SameReplica (M.setRep 0 { M.reps 0 with halt := halt })
      (N.setPrim { N.prim with halt := halt' }) where
  core := by
    have hrep : (M.setRep 0 { M.reps 0 with halt := halt }).reps 0 =
        { M.reps 0 with halt := halt } :=
      Function.update_self (0 : Fin 1) _ M.reps
    rw [hrep]
    exact h.core
  port := h.port
  nwords := h.nwords
  sys := h.sys
  calls := h.calls

/-- The halt flag of the core that is alone may be set. -/
theorem haltAlone (h : SameReplica M N) (halt : Bool) :
    SameReplica M (N.setPrim { N.prim with halt := halt }) :=
  ⟨h.core, h.port, h.nwords, h.sys, h.calls⟩

/-- A cycle of the first core does not reach the verilated core. -/
theorem primCycle (h : SameReplica M N) (C : CoreClass FunctionalState) :
    SameReplica (M.primCycle C).machine N where
  core := h.core
  port := (Memory.port_update_replica ..).trans h.port
  nwords := (Memory.nwords_update ..).trans h.nwords
  sys := h.sys
  calls := h.calls

/-- A cycle of the verilated core. -/
theorem cycle (h : SameReplica M N) (V : CoreMethods β) (hhalt : (M.reps 0).halt = N.prim.halt) :
    (M.repCycle V 0).driven = (N.primCycle fun _ => V).driven ∧
      (M.repCycle V 0).updated = (N.primCycle fun _ => V).updated ∧
      (M.repCycle V 0).machine.reps 0 = (N.primCycle fun _ => V).machine.prim ∧
      SameReplica (M.repCycle V 0).machine (N.primCycle fun _ => V).machine := by
  obtain ⟨hdriven, hupdated, hcore, hport, hnwords, hsys, hcalls⟩ := M.repCycle_eq_cycle V 0
  obtain ⟨hdriven', hupdated', hcore', hport', hnwords', hsys', hcalls'⟩ :=
    N.primCycle_eq_cycle fun _ => V
  rw [← h.port, ← h.nwords, ← Core.eq_of_running h.core hhalt] at hdriven' hupdated' hcore' hport'
  refine ⟨hdriven.trans hdriven'.symm, hupdated.trans hupdated'.symm, hcore.trans hcore'.symm, ?_⟩
  exact
    { core := congrArg Core.running (hcore.trans hcore'.symm)
      port := hport.trans hport'.symm
      nwords := hnwords.trans (h.nwords.trans hnwords'.symm)
      sys := hsys.trans (h.sys.trans hsys'.symm)
      calls := hcalls.trans (h.calls.trans hcalls'.symm) }

end SameReplica

/-! The cycles of one instruction. -/

section Cycles

variable {β : Type} {args : SimArgs} {host : Host} {V : CoreMethods β}

variable (args host V) in
/-- The machine after an iteration of the single loop. -/
theorem machine_singleBody_eq (t : SingleState β) :
    let c := t.machine.memDrive.primCycle fun _ => V
    let N := if c.machine.prim.instif.valid ≠ 0 ∧ c.machine.prim.instif.ir = 0x00000073 then
        c.machine.emulate host V.toRegisterMethods V.toRegisterMethods
      else c.machine
    (singleBody args host (fun _ => V) t).machine =
      N.setPrim { N.prim with
        halt := decide (args.maxInsts ≤ N.prim.cntInst ∨ c.ok = false) || N.prim.halt } := by
  intro c N
  rw [← Machine.ite_haltPrim]
  rfl

variable (host) in
/-- An iteration of the single loop without an instruction only takes a cycle. -/
theorem singleBody_of_stall {t : SingleState β}
    (hvalid : (t.machine.memDrive.primCycle fun _ => V).machine.prim.instif.valid = 0)
    (hok : (t.machine.memDrive.primCycle fun _ => V).ok = true)
    (hbelow : ¬args.maxInsts ≤ (t.machine.memDrive.primCycle fun _ => V).machine.prim.cntInst) :
    (singleBody args host (fun _ => V) t).machine =
        (t.machine.memDrive.primCycle fun _ => V).machine ∧
      (singleBody args host (fun _ => V) t).cycleCount = t.cycleCount + 1 := by
  refine ⟨?_, rfl⟩
  rw [machine_singleBody_eq args host V t]
  dsimp only
  rw [if_neg fun h => h.1 hvalid, hok]
  simp only [hbelow, Bool.true_eq_false, or_self, decide_false, Bool.false_or]
  rfl

variable (args host) in
/-- The cycles that the verilated core takes for an instruction, as iterations of the single loop:
all but the last one are over, and the last cycle retires the instruction. -/
theorem verilatedCycles_alone (hV : V.CountsRetired) (i : ℕ) {M : Machine 1 FunctionalState β}
    (cycleCount : Counter) {t : SingleState β} (h : SameReplica M t.machine)
    (hhalt : (M.reps 0).halt = false) (hhalt' : t.machine.prim.halt = false)
    (hbelow : ¬args.maxInsts ≤ t.machine.prim.cntInst)
    (hretired : (verilatedCycles V i M cycleCount).retired ≠ []) :
    ∃ u, RetiresWithin args host (fun _ => V) i t u
        ((verilatedCycles V i M cycleCount).machine.reps 0).instif ∧
      u.cycleCount + cycleCount = t.cycleCount + (verilatedCycles V i M cycleCount).cycleCount ∧
      let c := u.cycle fun _ => V
      SameReplica (verilatedCycles V i M cycleCount).machine c.machine ∧ c.ok = true ∧
        c.machine.prim.instif = ((verilatedCycles V i M cycleCount).machine.reps 0).instif ∧
        c.machine.prim.instif.valid ≠ 0 ∧
        c.machine.prim.halt = false := by
  -- the induction is on the cycles that are left; a cycle without an instruction is an iteration
  induction i generalizing M cycleCount t with
  | zero => exact absurd rfl hretired
  | succ i ih =>
    obtain ⟨hdriven, hupdated, hcore, hcycle⟩ := h.memDrive.cycle V (hhalt.trans hhalt'.symm)
    obtain ⟨hkeep, hcnt⟩ := M.repCycle_counts hV 0
    have hok : (M.repCycle V 0).ok = (t.cycle fun _ => V).ok := by
      rw [SingleState.cycle, Cycle.ok, Cycle.ok, hdriven, hupdated]
    have hcore : (M.repCycle V 0).machine.reps 0 = (t.cycle fun _ => V).machine.prim := hcore
    rw [verilatedCycles] at hretired ⊢
    dsimp only at hretired ⊢
    by_cases hleave : ((M.repCycle V 0).machine.reps 0).instif.valid ≠ 0 ∨
        (M.repCycle V 0).ok = false
    · rw [if_pos hleave] at hretired ⊢
      have hone : (M.repCycle V 0).ok = true := by
        by_contra hfail
        exact hretired (if_neg hfail)
      have hvalid : (t.cycle fun _ => V).machine.prim.instif.valid ≠ 0 := by
        rw [← hcore]
        simpa [hone] using hleave
      refine ⟨t, ?_, rfl, hcycle, hok ▸ hone, by rw [hcore], hvalid, ?_⟩
      · dsimp only
        rw [hcore]
        exact .now hhalt' (hok ▸ hone) hvalid
      · rw [← hcore, hkeep, hhalt]
    · rw [if_neg hleave] at hretired ⊢
      rw [not_or, not_not, Bool.not_eq_false] at hleave
      obtain ⟨hvalid, hone⟩ := hleave
      have hsame : ((M.repCycle V 0).machine.reps 0).cntInst = (M.reps 0).cntInst := by
        rw [hcnt, if_neg fun h => h.2 hvalid]
      have hbelow' : ¬args.maxInsts ≤ (t.cycle fun _ => V).machine.prim.cntInst := by
        rwa [← hcore, hsame, h.cntInst]
      have hidle : (t.cycle fun _ => V).machine.prim.instif.valid = 0 := by
        rw [← hcore]
        exact hvalid
      obtain ⟨hmachine, hcount⟩ := singleBody_of_stall host hidle (hok ▸ hone) hbelow'
      obtain ⟨u, hwithin, hcycles, hlast⟩ :=
        ih (t := singleBody args host (fun _ => V) t) (cycleCount + 1) (by rwa [hmachine])
          (hkeep.trans hhalt)
          (by rw [hmachine]; exact (congrArg Core.halt hcore).symm.trans (hkeep.trans hhalt))
          (by rwa [hmachine]) hretired
      refine ⟨u, .later hhalt' (hok ▸ hone) hidle hwithin, ?_, hlast⟩
      rw [hcount] at hcycles
      bv_omega

end Cycles

/-! Emulated system calls. -/

/-- Where a system call is emulated, both cores agree on the registers and on the memory. -/
structure AgreeAtCall {β : Type} (R : RegisterMethods β) (M : Machine 1 FunctionalState β) :
    Prop where
  reg : ∀ r, M.prim.self.reg r = R.readReg (M.reps 0) r
  view : M.mem.view (some 0) = M.mem.view none

section Emulation

variable {τ : Type} {T : TopModule τ} {patch : CoreInstructionIF → τ → τ}

/-- The machines are the same for the verilated core, and the functional core has the same
registers, the same memory and the same count. -/
structure SameCall (T : TopModule τ) (M : Machine 1 FunctionalState (WrapperState τ))
    (N : Machine 0 (WrapperState τ) (WrapperState τ)) : Prop where
  same : SameReplica M N
  reg : ∀ r, M.prim.self.reg r = CoreWrapper.readReg T (M.reps 0) r
  view : M.mem.view (some 0) = M.mem.view none
  cntInst : M.prim.cntInst = (M.reps 0).cntInst

/-- Stopping all the cores keeps the relation. -/
theorem SameCall.haltCores {M : Machine 1 FunctionalState (WrapperState τ)}
    {N : Machine 0 (WrapperState τ) (WrapperState τ)} (h : SameCall T M N) :
    SameCall T M.haltCores N.haltCores :=
  ⟨⟨h.same.core, h.same.port, h.same.nwords, h.same.sys, h.same.calls⟩, h.reg, h.view, h.cntInst⟩

variable (patch) in
/-- Emulation keeps the relation. -/
theorem SameCall.emulationRel (hT : T.HasRegisterArray) :
    Machine.EmulationRel FunctionalCore.registers (CoreWrapper.methods T patch).toRegisterMethods
      (CoreWrapper.methods T patch).toRegisterMethods
      (CoreWrapper.methods T patch).toRegisterMethods (SameCall T) where
  readReg := fun {M N} h r => by
    exact (h.reg r).trans
      (congrArg (fun self : WrapperState τ => T.readReg self.top r) h.same.self)
  cntInst := fun h => h.cntInst.trans h.same.cntInst
  read := fun h => Memory.read_congr (h.view.symm.trans h.same.view) h.same.nwords
  sys := fun h => h.same.sys
  calls := fun h => h.same.calls
  writeReg := fun {M N} h data => by
    refine ⟨⟨?_, h.same.port, h.same.nwords, h.same.sys, h.same.calls⟩, fun r => ?_, h.view,
      h.cntInst⟩
    · exact congrArg (CoreWrapper.writeReg T · regA0 data) h.same.core
    · have hread := h.reg r
      change Function.update M.prim.self.reg regA0 data r =
        T.readReg (T.writeReg (M.reps 0).self.top regA0 data) r
      rw [hT, Function.update_apply, hread]
      rfl
  memWrite := fun {M N} h addr data => by
    have hdata : (M.mem.port (some 0)).dRdata = (N.mem.port none).dRdata :=
      congrArg Port.dRdata h.same.port
    refine ⟨⟨h.same.core, ?_, ?_, h.same.sys, h.same.calls⟩, h.reg, ?_, h.cntInst⟩
    · change (M.mem.write addr data).port (some 0) = (N.mem.write addr data).port none
      rw [Memory.port_write _ _ _ _ h.view, Memory.port_write _ _ _ _ rfl, h.same.view, hdata,
        h.same.nwords]
    · change (M.mem.write addr data).nwords = (N.mem.write addr data).nwords
      rw [Memory.nwords_write, Memory.nwords_write, h.same.nwords]
    · change (M.mem.write addr data).view (some 0) = (M.mem.write addr data).view none
      rw [Memory.view_write _ _ _ _ h.view, Memory.view_write _ _ _ _ rfl, h.view]
  setSys := fun h _ => { h with same := { h.same with sys := rfl } }
  call := fun h c => { h with same := { h.same with calls := congrArg (· ++ [c]) h.same.calls } }

end Emulation

/-! One iteration of the concurrent loop. -/

section Iteration

variable {β : Type} {args : SimArgs} {host : Host} {V : CoreMethods β}

/-- The functional step does not reach the verilated core. -/
theorem SameReplica.functionalStep {M : Machine 1 FunctionalState β} {N : Machine 0 β β}
    (h : SameReplica M N) : SameReplica (functionalStep args M).machine N := by
  unfold VeriCross.functionalStep
  dsimp only
  split
  · exact (h.primCycle _).setPrim _
  · exact h.primCycle _

/-- Stopping the verilated core after its cycles leaves everything else. -/
theorem SameReplica.verilatedStep {M : Machine 1 FunctionalState β} {N : Machine 0 β β}
    {cycleCount : Counter}
    (h : SameReplica (verilatedCycles V vcoreTimeout M cycleCount).machine N) :
    SameReplica (verilatedStep args V M cycleCount).machine N := by
  unfold VeriCross.verilatedStep
  dsimp only
  split
  · exact h.halts true N.prim.halt
  · exact h

variable (args V) in
/-- The verilated step leaves the record, the retired instructions and the cycles as they are. -/
theorem verilatedStep_keeps (M : Machine 1 FunctionalState β) (cycleCount : Counter) :
    let v := verilatedCycles V vcoreTimeout M cycleCount
    let w := verilatedStep args V M cycleCount
    (w.machine.reps 0).instif = (v.machine.reps 0).instif ∧ w.retired = v.retired ∧
      w.cycleCount = v.cycleCount := by
  intro v w
  have hrep : (v.machine.haltRep 0).reps 0 = { v.machine.reps 0 with halt := true } :=
    Function.update_self (0 : Fin 1) _ v.machine.reps
  by_cases hstop : args.maxInsts ≤ (v.machine.reps 0).cntInst ∨ v.ok = false ∨
      (v.machine.reps 0).instif.valid = 0
  · have hw : w = { v with machine := v.machine.haltRep 0 } := if_pos hstop
    rw [hw]
    exact ⟨by rw [hrep], rfl, rfl⟩
  · have hw : w = v := if_neg hstop
    rw [hw]
    exact ⟨rfl, rfl, rfl⟩

/-- The cycles after an iteration. -/
theorem cycleCount_concurrentBody (s : ConcurrentState β) :
    (concurrentBody args host V s).cycleCount = (nextRun args V s).cycleCount := by
  rw [concurrentBody]
  dsimp only
  split <;> rfl

/-- Both loops are at their head with the same verilated core. The loop of concurrent execution
does not count the cycles that retire an instruction. -/
structure SameReplicaHead {β : Type} (s : ConcurrentState β) (t : SingleState β) : Prop where
  same : SameReplica s.machine t.machine
  halt : (s.machine.reps 0).halt = t.machine.prim.halt
  cycles : t.cycleCount = s.cycleCount + (s.machine.reps 0).cntInst

namespace SameReplicaHead

variable {s : ConcurrentState β} {t : SingleState β} {k : ℕ}

/-- What the cycles of the next iteration start from. -/
theorem functionalStep (h : SameReplicaHead s t) (hlockstep : InLockstep args k s)
    (hlimit : 1 ≤ args.maxInsts.toNat) (hmemory : s.machine.prim.self.memory = true) :
    SameReplica (functionalStep args s.machine).machine t.machine ∧
      ((VeriCross.functionalStep args s.machine).machine.reps 0).halt = false ∧
      ¬args.maxInsts ≤ t.machine.prim.cntInst := by
  have hreps := (functionalStep_spec args hlockstep.primHalt hmemory).reps
  have hcount := hlockstep.repCnt
  have hcases := hlockstep.below
  refine ⟨h.same.functionalStep, by rw [hreps]; exact hlockstep.repHalt, ?_⟩
  rw [← h.same.cntInst, BitVec.le_def]
  omega

variable (args host) in
/-- An instruction that the verilated core retires in the next iteration, as the next one that it
retires alone. -/
theorem retires (hV : V.CountsRetired) (h : SameReplicaHead s t) (hlockstep : InLockstep args k s)
    (hlimit : 1 ≤ args.maxInsts.toNat) (hmemory : s.machine.prim.self.memory = true)
    (hretired : (nextRound args V s).verilated ≠ []) :
    ∃ u, RetiresWithin args host (fun _ => V) vcoreTimeout t u (nextRound args V s).vif ∧
      u.cycleCount + s.cycleCount = t.cycleCount + (nextRun args V s).cycleCount ∧
      let c := u.machine.memDrive.primCycle fun _ => V
      SameReplica (nextRun args V s).machine c.machine ∧ c.ok = true ∧
        c.machine.prim.instif = (nextRound args V s).vif ∧ c.machine.prim.instif.valid ≠ 0 ∧
        c.machine.prim.halt = false := by
  obtain ⟨hM, hhalt, hbelow⟩ := h.functionalStep hlockstep hlimit hmemory
  obtain ⟨hinstif, hretiredEq, hcycles⟩ :=
    verilatedStep_keeps args V (VeriCross.functionalStep args s.machine).machine s.cycleCount
  have hvif : (nextRound args V s).vif = _ := hinstif
  have hcount : (nextRun args V s).cycleCount = _ := hcycles
  obtain ⟨u, hwithin, hcyclesU, hsame, hcycle⟩ := verilatedCycles_alone args host hV vcoreTimeout
    s.cycleCount hM hhalt (h.halt.symm.trans hlockstep.repHalt) hbelow
    (hretiredEq ▸ hretired)
  rw [hvif, hcount]
  exact ⟨u, hwithin, hcyclesU, hsame.verilatedStep, hcycle⟩

end SameReplicaHead

end Iteration

section Alone

variable {τ : Type} {T : TopModule τ} {patch : CoreInstructionIF → τ → τ} {args : SimArgs}
  {host : Host}

variable (args host) in
/-- Looking at the instruction that both cores retired keeps the machines the same for the verilated
core, and stops it in both when the program exits. -/
theorem SameReplica.afterInst (hT : T.HasRegisterArray) {s : ConcurrentState (WrapperState τ)}
    {N : Machine 0 (WrapperState τ) (WrapperState τ)} :
    let V := CoreWrapper.methods T patch
    let r := nextRound args V s
    SameReplica (nextRun args V s).machine N → N.prim.halt = false → N.prim.instif = r.vif →
    N.prim.instif.valid ≠ 0 → r.accepted = true →
    (nextRun args V s).machine.prim.cntInst = ((nextRun args V s).machine.reps 0).cntInst →
    (r.emulated ≠ none → AgreeAtCall V.toRegisterMethods (nextRun args V s).machine) →
    let N' := if N.prim.instif.valid ≠ 0 ∧ N.prim.instif.ir = 0x00000073 then
        N.emulate host V.toRegisterMethods V.toRegisterMethods
      else N
    SameReplica (concurrentBody args host V s).machine N' ∧ N'.prim.cntInst = N.prim.cntInst ∧
      (N'.prim.halt = true ↔ r.emulated = some scExit) := by
  intro V r hsame hhalt hinstif hvalid haccepted hcount hagree N'
  have hir : r.fif.ir = N.prim.instif.ir := by
    rw [hinstif]
    exact ((accepts_iff r.fif r.vif).mp haccepted).2.1
  have hN' : N' = if r.fif.ir = 0x00000073 then
      N.emulate host V.toRegisterMethods V.toRegisterMethods else N := by
    rw [hir]
    simp only [N', hvalid, ne_eq, not_false_eq_true, true_and]
  rcases machine_cases args host (V := V) s with ⟨hr, -⟩ | ⟨-, he, ht⟩ | ⟨-, he, ht⟩
  · exact absurd (hr.symm.trans haccepted) Bool.false_ne_true
  · obtain ⟨-, hecall, -⟩ := (nextRound_emulated_iff s _).mp he
    have hcall := hagree (by rw [show r.emulated = _ from he]; simp)
    have hrel : SameCall T (nextRun args V s).machine N := ⟨hsame, hcall.reg, hcall.view, hcount⟩
    have hemulation := SameCall.emulationRel patch hT
    have hemulated := hemulation.emulate host hrel fun _ => hrel.haltCores
    obtain ⟨hcnt, hstop⟩ := N.emulate_prim host (P := V.toRegisterMethods)
      (R := V.toRegisterMethods) (CoreWrapper.registers_keepsCounts T patch)
    rw [hN', if_pos hecall, ht]
    refine ⟨hemulated.same, hcnt, ?_⟩
    rw [hstop, hhalt, Bool.false_or, decide_eq_true_eq, he, Option.some_inj,
      ← hemulation.readReg hrel]
  · have hother : r.fif.ir ≠ 0x00000073 := fun hecall => by
      have hsome := (nextRound_emulates_iff s).mpr ⟨haccepted, hecall⟩
      rw [show (nextRound args V s).emulated = none from he] at hsome
      cases hsome
    rw [hN', if_neg hother, ht]
    refine ⟨hsame, rfl, ?_⟩
    rw [hhalt, he]
    simp

/-- The last cycle of an instruction is not counted with the others. -/
theorem cycles_of_last {u s t v c : Counter} (h : u + s = t + v) (ht : t = s + c) :
    u + 1 = v + (c + 1) := by
  bv_omega

variable (args host) in
/-- An iteration of the concurrent loop whose round is paired is as many iterations of the single
loop as the verilated core takes cycles. -/
theorem SameReplicaHead.next (hresets : T.Resets) (hT : T.HasRegisterArray)
    {s : ConcurrentState (WrapperState τ)} {t : SingleState (WrapperState τ)}
    (h : SameReplicaHead s t) {k : ℕ} (hlockstep : InLockstep args k s)
    (hlimit : 1 ≤ args.maxInsts.toNat) (hmemory : s.machine.prim.self.memory = true)
    (hpaired : (nextRound args (CoreWrapper.methods T patch) s).Paired)
    (hagree : (nextRound args (CoreWrapper.methods T patch) s).emulated ≠ none →
      AgreeAtCall (CoreWrapper.methods T patch).toRegisterMethods
        (nextRun args (CoreWrapper.methods T patch) s).machine) :
    ∃ u, RetiresWithin args host (fun _ => CoreWrapper.methods T patch) vcoreTimeout t u
        (nextRound args (CoreWrapper.methods T patch) s).vif ∧
      SameReplicaHead (concurrentBody args host (CoreWrapper.methods T patch) s)
        (singleBody args host (fun _ => CoreWrapper.methods T patch) u) := by
  let V := CoreWrapper.methods T patch
  have hV : V.CountsRetired := CoreWrapper.methods_countsRetired patch hresets
  have hspec := concurrentBody_spec args host hV hlockstep.primHalt hlockstep.repHalt hmemory
  have hone : (nextRound args V s).verilated ≠ [] := by
    rw [hpaired.verilated]
    exact List.cons_ne_nil _ _
  have hfunctional : (nextRound args V s).functional ≠ none := by
    rw [hpaired.functional]
    exact Option.some_ne_none _
  obtain ⟨u, hwithin, hcyclesU, hrun, hok, hinstif, hvalid, hcycleHalt⟩ :=
    h.retires args host hV hlockstep hlimit hmemory hone
  have hcounts : (nextRun args V s).machine.prim.cntInst =
      ((nextRun args V s).machine.reps 0).cntInst := by
    rw [← (prim_concurrentBody args host (V := V) s).1, ← (rep_concurrentBody args host hV s).1,
      hspec.primCnt, hspec.repCnt, if_neg hfunctional, if_neg hone]
    exact congrArg (· + 1) (BitVec.eq_of_toNat_eq (hlockstep.primCnt.trans hlockstep.repCnt.symm))
  obtain ⟨hafter, hcnt, hstop⟩ := hrun.afterInst args host hT hcycleHalt hinstif hvalid
    hpaired.accepted hcounts hagree
  have hmachine := machine_singleBody_eq args host V u
  refine ⟨u, hwithin, ?_, ?_, ?_⟩
  · change SameReplica _ (singleBody args host (fun _ => V) u).machine
    rw [hmachine]
    exact hafter.haltAlone _
  · change _ = (singleBody args host (fun _ => V) u).machine.prim.halt
    rw [hmachine, Bool.eq_iff_iff, hspec.repHalt, hafter.cntInst]
    dsimp only [Machine.setPrim]
    rw [Bool.or_eq_true, decide_eq_true_eq, hstop, hok]
    simp only [hone, false_or, Bool.true_eq_false, or_false]
    exact or_iff_right fun hrefused =>
      absurd (hrefused.symm.trans hpaired.accepted) Bool.false_ne_true
  · change u.cycleCount + 1 = _
    rw [cycleCount_concurrentBody, hspec.repCnt, if_neg hone]
    exact cycles_of_last hcyclesU h.cycles

end Alone

/-! The machines at the start of both loops. -/

/-- The machine at the start of a main loop with `-p`. -/
def bootAlone {β : Type} (core : Core β) (ifPrim : CoreMemoryIF) (sections : List Section)
    (brkAddr : Word) : Machine 0 β β :=
  { prim := core
    reps := Fin.elim0
    mem := (Memory.new ifPrim Fin.elim0 memWords).loadSections sections
    sys := SysCall.new 0 1 2 brkAddr
    calls := [] }

/-- Loading the same image leaves the same ports. -/
theorem Memory.port_loadSections {n n' : ℕ} {m : Memory n} {m' : Memory n'} {a : Agent n}
    (ha : m.view a = m.view none) (hport : m.port a = m'.port none) (hnwords : m.nwords = m'.nwords)
    (sections : List Section) :
    (m.loadSections sections).port a = (m'.loadSections sections).port none ∧
      (m.loadSections sections).nwords = (m'.loadSections sections).nwords := by
  let R (c : Memory n) (c' : Memory n') : Prop :=
    c.view a = c.view none ∧ c.port a = c'.port none ∧ c.nwords = c'.nwords
  have hwrite : ∀ c c' (addr : Word) (data : List Byte), R c c' →
      R (c.write addr data) (c'.write addr data) := by
    rintro c c' addr data ⟨hview, hport, hnwords⟩
    have hsame : c.view a = c'.view none := congrArg Port.view hport
    refine ⟨?_, ?_, ?_⟩
    · rw [view_write _ _ _ _ hview, view_write _ _ _ _ rfl, hview]
    · rw [port_write _ _ _ _ hview, port_write _ _ _ _ rfl, hsame, hport, hnwords]
    · rw [nwords_write, nwords_write, hnwords]
  have hload : R (m.loadSections sections) (m'.loadSections sections) := by
    refine List.foldl_rel (r := R) ⟨ha, hport, hnwords⟩ ?_
    rintro s - c c' hc
    exact List.foldl_rel (r := R) hc fun _ _ _ _ h => hwrite _ _ _ _ h
  exact hload.2

/-- Booting with the same image starts both loops with the same verilated core. -/
theorem sameReplica_boot {β : Type} (instif : CoreInstructionIF) (memif : CoreMemoryIF)
    (rep : Core β) (ifPrim ifRep : CoreMemoryIF) (sections : List Section) (brkAddr : Word) :
    SameReplica (boot instif memif (fun _ : Fin 1 => rep) ifPrim (fun _ => ifRep) sections brkAddr)
      (bootAlone rep ifRep sections brkAddr) := by
  have hnew := Memory.view_new_agent ifPrim (fun _ : Fin 1 => ifRep) memWords
  have hports : (Memory.new ifPrim (fun _ : Fin 1 => ifRep) memWords).port (some 0) =
      (Memory.new ifRep (Fin.elim0 : Fin 0 → CoreMemoryIF) memWords).port none := by
    rw [Memory.port, Memory.port, hnew, Memory.view_new]
    rfl
  obtain ⟨hport, hnwords⟩ :=
    Memory.port_loadSections ((hnew _).trans (hnew _).symm) hports rfl sections
  exact ⟨rfl, hport, hnwords, rfl, rfl⟩

/-- Both loops start with the same verilated core. -/
theorem sameReplicaHead_start {β : Type} {V : CoreMethods β} (hV : V.CountsRetired)
    (instif : CoreInstructionIF) (memif : CoreMemoryIF) (rep : Core β) (hrep : rep.cntInst = 0)
    (ifPrim ifRep : CoreMemoryIF) (sections : List Section) (brkAddr : Word) :
    SameReplicaHead
      (concurrentStart V
        (boot instif memif (fun _ => rep) ifPrim (fun _ => ifRep) sections brkAddr))
      (singleStart (fun _ => V) (bootAlone rep ifRep sections brkAddr)) := by
  have hboot := sameReplica_boot instif memif rep ifPrim ifRep sections brkAddr
  have hreset : (concurrentStart V (boot instif memif (fun _ => rep) ifPrim (fun _ => ifRep)
      sections brkAddr)).machine.reps 0 = V.reset rep := Machine.reps_setRep ..
  exact
    { same := ⟨congrArg Core.running hreset, hboot.port, hboot.nwords, rfl, rfl⟩
      halt := congrArg Core.halt hreset
      cycles := by
        rw [hreset, hV.reset_cntInst, hrep]
        rfl }

/-- As long as both cores retire an instruction in every iteration, the pairs are accepted and the
cores agree wherever a system call is emulated, the verilated core goes through the same states as
with `-p`: after any number of iterations of the concurrent loop the whole core, the words it sees,
the emulation state and the host calls are those of the single loop after some number of
iterations. The cycles counted by the single loop are those counted by the concurrent loop and one
for each instruction. -/
theorem verilated_undisturbed {τ : Type} {T : TopModule τ} (patch : CoreInstructionIF → τ → τ)
    (hresets : T.Resets) (hT : T.HasRegisterArray) {args : SimArgs} {host : Host}
    (hlimit : 1 ≤ args.maxInsts.toNat) (instif instif' : CoreInstructionIF)
    (memif memif' ifPrim ifRep : CoreMemoryIF) (top : τ) (sections : List Section)
    (brkAddr : Word) :
    let V := CoreWrapper.methods T patch
    let rep := CoreWrapper.new instif' memif' top
    let L := concurrentLoop args host V
    let start := concurrentStart V
      (boot instif memif (fun _ => rep) ifPrim (fun _ => ifRep) sections brkAddr)
    ∀ k s, L.Reaches start k s → (∀ r ∈ s.rounds, r.Paired) →
      (∀ m u, m < k → L.Reaches start m u → (nextRound args V u).emulated ≠ none →
        AgreeAtCall V.toRegisterMethods (nextRun args V u).machine) →
      ∃ j t, (singleLoop args host fun _ => V).Reaches
          (singleStart (fun _ => V) (bootAlone rep ifRep sections brkAddr)) j t ∧
        s.machine.reps 0 = t.machine.prim ∧
        s.machine.mem.view (some 0) = t.machine.mem.view none ∧ s.machine.sys = t.machine.sys ∧
        s.machine.calls = t.machine.calls ∧
        t.cycleCount = s.cycleCount + (s.machine.reps 0).cntInst := by
  intro V rep L start k s hreach hpaired hagree
  have hV : V.CountsRetired := CoreWrapper.methods_countsRetired patch hresets
  have hbooted : Booted
      (boot instif memif (fun _ => rep) ifPrim (fun _ => ifRep) sections brkAddr) :=
    booted_boot instif memif rfl rfl ifPrim ifRep sections brkAddr
  have hstart := sameReplicaHead_start hV instif memif rep rfl ifPrim ifRep sections brkAddr
  have hback : ∀ u, (∀ r ∈ (L.body u).rounds, r.Paired) → ∀ r ∈ u.rounds, r.Paired :=
    fun _ hu => (forall_rounds_concurrentBody.mp hu).1
  have hcovered : ∀ m u, m < k → L.Reaches start m u →
      (u.machine.prim.self.memory = true ∧ (L.guard u = true → InLockstep args m u)) ∧
        ((nextRound args V u).emulated ≠ none →
          AgreeAtCall V.toRegisterMethods (nextRun args V u).machine) :=
    fun m u hm hu => ⟨inLockstep_of_reaches hV hbooted hu, hagree m u hm hu⟩
  obtain ⟨j, t, ht, hhead⟩ := hreach.stuttering (P := fun u => ∀ r ∈ u.rounds, r.Paired)
    (R := SameReplicaHead) hpaired hback
    (fun m u hm hu => Exists.intro m (hcovered m u hm hu)) hstart (by
      rintro u u' hguard hu ⟨m, ⟨hmemory, hlockstep⟩, hcall⟩ hrel
      obtain ⟨-, hround⟩ := forall_rounds_concurrentBody.mp hu
      obtain ⟨v, hwithin, hnext⟩ := hrel.next args host hresets hT (hlockstep hguard) hlimit
        hmemory hround hcall
      obtain ⟨hgoing, j, -, hreach⟩ := hwithin.reaches
      exact ⟨j + 1, _, hreach.next ((singleLoop_guard ..).mpr hgoing), hnext⟩)
  exact ⟨j, t, ht, Core.eq_of_running hhead.same.core hhead.halt, hhead.same.view, hhead.same.sys,
    hhead.same.calls, hhead.cycles⟩

/-- One instruction that does nothing, with and without the functional core. -/
theorem nop_alone :
    let V := RVCorePCore.methods Playback.top
    let host : Host := fun _ => default
    let args : SimArgs := ⟨10, 0, false⟩
    let zero : CoreInstructionIF := ⟨0, 0, 0, 0, 0, 0, 0, 0, 0⟩
    let memif : CoreMemoryIF := ⟨0, 0, 0, 0, 0, 0, 0, 0, 0⟩
    let top : Playback :=
      { rest := [⟨1, 0x00010000, 0x00000013, 0, 0, 0, 0, 0, 0⟩], shown := zero, reg := fun _ => 0 }
    let rep := CoreWrapper.new zero memif top
    let image : List Section := [{ addr := initialPc, length := 4, data := [0x00000013] }]
    let L := concurrentLoop args host V
    let s := L.body
      (concurrentStart V (boot zero memif (fun _ => rep) memif (fun _ => memif) image 0))
    ∃ j t, (singleLoop args host fun _ => V).Reaches
        (singleStart (fun _ => V) (bootAlone rep memif image 0)) j t ∧
      s.machine.reps 0 = t.machine.prim ∧
      s.machine.mem.view (some 0) = t.machine.mem.view none ∧ s.machine.sys = t.machine.sys ∧
      s.machine.calls = t.machine.calls ∧
      t.cycleCount = s.cycleCount + (s.machine.reps 0).cntInst := by
  intro V host args zero memif top rep image L s
  have hgoing : L.guard (concurrentStart V
      (boot zero memif (fun _ => rep) memif (fun _ => memif) image 0)) = true := by
    decide +kernel
  have hrounds : ∀ r ∈ s.rounds, r.functional = some r.fif ∧ r.verilated = [r.vif] ∧
      Validator.accepts r.fif r.vif = true := by
    decide +kernel
  have hnone : (nextRound args V (concurrentStart V
      (boot zero memif (fun _ => rep) memif (fun _ => memif) image 0))).emulated = none := by
    decide +kernel
  refine verilated_undisturbed (T := Playback.top) (fun _ top => top) Playback.top_resets
    Playback.top_hasRegisterArray (by decide) zero zero memif memif
    memif memif top image 0 1 s (WhileLoop.Reaches.start.next hgoing) ?_ ?_
  · intro r hr
    obtain ⟨hfunctional, hverilated, haccepted⟩ := hrounds r hr
    exact ⟨hfunctional, hverilated, haccepted⟩
  · intro m u hm hu hemulated
    obtain rfl : m = 0 := by omega
    cases hu
    exact absurd hnone hemulated

end VeriCross
