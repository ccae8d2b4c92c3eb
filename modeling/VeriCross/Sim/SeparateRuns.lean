import VeriCross.Sim.Alone
import VeriCross.Sim.Undisturbed

/-!
# Cross-verification compares two traces

Concurrent execution runs the two cores in turn on one memory and compares a pair of records in
each iteration. The pairs are those of the traces that the two cores leave when each is simulated
alone, so the verdict on an instruction does not depend on the cores being executed together.
-/

namespace VeriCross

open RiscV SysCall

/-! Machines that are the same for the functional core. -/

/-- The functional core, with its interfaces, and everything it can observe are the same in
concurrent execution and alone, apart from the halt flag. -/
structure SameFunctional {β : Type} (M : Machine 1 FunctionalState β)
    (N : Machine 0 FunctionalState FunctionalState) : Prop where
  core : M.prim.running = N.prim.running
  port : M.mem.port none = N.mem.port none
  nwords : M.mem.nwords = N.mem.nwords
  sys : M.sys = N.sys
  calls : M.calls = N.calls

namespace SameFunctional

variable {β : Type} {M : Machine 1 FunctionalState β}
  {N : Machine 0 FunctionalState FunctionalState}

/-- The registers, the counter and the words are part of what is the same. -/
theorem sameRun (h : SameFunctional M N) : SameRun M N := by
  have hself := congrArg Core.self h.core
  have hcnt := congrArg Core.cntInst h.core
  exact ⟨hself, hcnt, congrArg Port.view h.port, h.nwords, h.sys, h.calls⟩

/-- The copy of the request that a cycle overwrites is not part of it. -/
theorem memDrive (h : SameFunctional M N) : SameFunctional M N.memDrive :=
  ⟨h.core, h.port, h.nwords, h.sys, h.calls⟩

/-- A cycle of the functional core. -/
theorem primCycle (h : SameFunctional M N) (hhalt : M.prim.halt = N.prim.halt) :
    (M.primCycle FunctionalCore.methods).driven = (N.primCycle FunctionalCore.methods).driven ∧
      (M.primCycle FunctionalCore.methods).machine.prim =
        (N.primCycle FunctionalCore.methods).machine.prim ∧
      SameFunctional (M.primCycle FunctionalCore.methods).machine
        (N.primCycle FunctionalCore.methods).machine := by
  obtain ⟨hdriven, -, hcore, hport, hnwords, hsys, hcalls⟩ :=
    M.primCycle_eq_cycle FunctionalCore.methods
  obtain ⟨hdriven', -, hcore', hport', hnwords', hsys', hcalls'⟩ :=
    N.primCycle_eq_cycle FunctionalCore.methods
  have hsameCore := Core.eq_of_running h.core hhalt
  rw [← h.sameRun.read, ← h.port, ← h.nwords, ← hsameCore] at hdriven' hcore' hport'
  have hprim := hcore.trans hcore'.symm
  refine ⟨hdriven.trans hdriven'.symm, hprim, ?_⟩
  exact
    { core := congrArg Core.running hprim
      port := hport.trans hport'.symm
      nwords := hnwords.trans (h.nwords.trans hnwords'.symm)
      sys := hsys.trans (h.sys.trans hsys'.symm)
      calls := hcalls.trans (h.calls.trans hcalls'.symm) }

/-- Halt flags are not part of what is the same. -/
theorem halts (h : SameFunctional M N) (halt halt' : Bool) :
    SameFunctional (M.setPrim { M.prim with halt := halt })
      (N.setPrim { N.prim with halt := halt' }) :=
  ⟨h.core, h.port, h.nwords, h.sys, h.calls⟩

/-- Emulation keeps the relation. -/
theorem emulationRel (R : RegisterMethods β) :
    Machine.EmulationRel FunctionalCore.registers R FunctionalCore.registers
      FunctionalCore.registers (@SameFunctional β) where
  readReg := fun h r => congrFun (congrArg FunctionalState.reg h.sameRun.self) r
  cntInst := fun h => h.sameRun.cntInst
  read := fun h => h.sameRun.read
  sys := fun h => h.sys
  calls := fun h => h.calls
  writeReg := fun h data =>
    { h with core := congrArg (FunctionalCore.writeReg · regA0 data) h.core }
  memWrite := fun {M N} h addr data =>
    { h with
      port := by
        have hview := congrArg Port.view h.port
        have hdata := congrArg Port.dRdata h.port
        change (M.mem.write addr data).port none = (N.mem.write addr data).port none
        rw [Memory.port_write _ _ _ _ rfl, Memory.port_write _ _ _ _ rfl, h.nwords, hdata]
        exact congrArg (fun view => Port.mk (WordMap.put _ view addr data) _) hview
      nwords := by
        change (M.mem.write addr data).nwords = (N.mem.write addr data).nwords
        rw [Memory.nwords_write, Memory.nwords_write, h.nwords] }
  setSys := fun h _ => { h with sys := rfl }
  call := fun h c => { h with calls := congrArg (· ++ [c]) h.calls }

/-- Looking at the retired word keeps the relation. -/
theorem afterInst (h : SameFunctional M N) (host : Host) (R : RegisterMethods β) (ir : Word) :
    SameFunctional (M.afterInst host R ir) (N.afterInst host FunctionalCore.registers ir) := by
  unfold Machine.afterInst
  split
  · exact (emulationRel R).emulate host h fun _ => ⟨h.core, h.port, h.nwords, h.sys, h.calls⟩
  · exact h

end SameFunctional

/-- The cycles of the verilated core do not reach the port of the functional core. -/
theorem port_verilatedCycles {β : Type} (V : CoreMethods β) (i : ℕ)
    (M : Machine 1 FunctionalState β) (cycleCount : Counter) :
    (verilatedCycles V i M cycleCount).machine.mem.port none = M.mem.port none := by
  induction i generalizing M cycleCount with
  | zero => rfl
  | succ i ih =>
    have hcycle : (M.repCycle V 0).machine.mem.port none = M.mem.port none :=
      Memory.port_updateReplica_primary ..
    rw [verilatedCycles]
    split
    · exact hcycle
    · exact (ih ..).trans hcycle

/-- The verilated step keeps the relation. -/
theorem SameFunctional.verilatedStep {β : Type} {M : Machine 1 FunctionalState β}
    {N : Machine 0 FunctionalState FunctionalState} (h : SameFunctional M N) (args : SimArgs)
    (V : CoreMethods β) (cycleCount : Counter) :
    SameFunctional (verilatedStep args V M cycleCount).machine N := by
  have hsame : M.SamePrimary (VeriCross.verilatedStep args V M cycleCount).machine :=
    samePrimary_verilatedStep M cycleCount
  have hport : (VeriCross.verilatedStep args V M cycleCount).machine.mem.port none =
      M.mem.port none := by
    rw [← port_verilatedCycles V vcoreTimeout M cycleCount, VeriCross.verilatedStep]
    split <;> rfl
  exact
    { core := (congrArg Core.running hsame.prim).trans h.core
      port := hport.trans h.port
      nwords := hsame.nwords.trans h.nwords
      sys := hsame.sys.trans h.sys
      calls := hsame.calls.trans h.calls }

/-- Booting with the same image starts both machines with the same functional core. -/
theorem sameFunctional_boot {β : Type} (instif : CoreInstructionIF) (memif : CoreMemoryIF)
    (rep : Core β) (ifPrim ifRep : CoreMemoryIF) (sections : List Section) (brkAddr : Word) :
    SameFunctional
      (boot instif memif (fun _ : Fin 1 => rep) ifPrim (fun _ => ifRep) sections brkAddr)
      (boot instif memif Fin.elim0 ifPrim Fin.elim0 sections brkAddr) := by
  have hports : (Memory.new ifPrim (fun _ : Fin 1 => ifRep) memWords).port none =
      (Memory.new ifPrim (Fin.elim0 : Fin 0 → CoreMemoryIF) memWords).port none := by
    rw [Memory.port, Memory.port, Memory.view_new, Memory.view_new]
    rfl
  obtain ⟨hport, hnwords⟩ := Memory.port_loadSections rfl hports rfl sections
  exact ⟨rfl, hport, hnwords, rfl, rfl⟩

/-! The functional core. -/

section Functional

variable {β : Type} {args : SimArgs} {host : Host} {V : CoreMethods β}

/-- Both loops are at their head with the same functional core. -/
structure SameFunctionalHead (s : ConcurrentState β) (t : SingleState FunctionalState) : Prop where
  same : SameFunctional s.machine t.machine
  halt : s.machine.prim.halt = t.machine.prim.halt
  memory : s.machine.prim.self.memory = true

namespace SameFunctionalHead

variable {s : ConcurrentState β} {t : SingleState FunctionalState} (h : SameFunctionalHead s t)
  (hgoing : s.machine.prim.halt = false)

include h hgoing

variable (args V) in
/-- The functional core does the same in the next iteration of both loops. -/
theorem cycle :
    let c := t.cycle FunctionalCore.methods
    (functionalStep args s.machine).driven = c.driven ∧
      (nextRound args V s).fif = c.machine.prim.instif ∧
      SameFunctional (nextRun args V s).machine c.machine := by
  intro c
  obtain ⟨hdriven, hprim, hcycle⟩ := h.same.memDrive.primCycle h.halt
  have hstep : functionalStep args s.machine = _ := functionalStep_eq hgoing
  refine ⟨?_, ?_, ?_⟩
  · rw [hstep]
    exact hdriven
  · have hinstif := congrArg Core.instif hprim
    rw [nextRound_fif, hstep]
    exact hinstif
  · refine SameFunctional.verilatedStep ?_ args V s.cycleCount
    rw [hstep]
    exact ⟨hcycle.core, hcycle.port, hcycle.nwords, hcycle.sys, hcycle.calls⟩

variable (V) in
/-- The functional core retires an instruction in concurrent execution when it does alone. -/
theorem retires_iff {iif : CoreInstructionIF} :
    (∃ u, RetiresWithin args host FunctionalCore.methods 1 t u iif) ↔
      (nextRound args V s).functional = some iif := by
  obtain ⟨hdriven, hfif, -⟩ := h.cycle args V hgoing
  have hround : (nextRound args V s).functional =
      if (t.cycle FunctionalCore.methods).driven then
        some (t.cycle FunctionalCore.methods).machine.prim.instif
      else none := by
    rw [← hdriven, ← hfif, nextRound_fif]
    rfl
  rw [hround, Option.ite_none_right_eq_some, Option.some_inj]
  constructor
  · rintro ⟨u, hwithin⟩
    cases hwithin with
    | now _ hok _ => exact ⟨(Bool.and_eq_true _ _ ▸ hok : _ ∧ _).1, rfl⟩
    | later _ _ _ hlate => cases hlate
  · rintro ⟨hdone, rfl⟩
    obtain ⟨hok, hvalid, -⟩ := primCycle_retires (M := t.machine.memDrive) hdone
    refine ⟨t, .now (h.halt.symm.trans hgoing) hok ?_⟩
    rw [SingleState.cycle, hvalid]
    decide

/-- An iteration whose round is paired. -/
theorem next (host : Host) (hpaired : (nextRound args V s).Paired) :
    SameFunctionalHead (concurrentBody args host V s)
      (singleBody args host FunctionalCore.methods t) := by
  have haccepted : (nextRound args V s).accepted = true := hpaired.accepted
  have hretired : (nextRound args V s).functional ≠ none := by
    rw [hpaired.functional]
    exact Option.some_ne_none _
  have hhead : SameHead s t := ⟨h.same.sameRun, h.halt, h.memory⟩
  obtain ⟨-, hhalt, hmemory⟩ := hhead.next hgoing haccepted hretired
  refine ⟨?_, hhalt, hmemory⟩
  obtain ⟨hdriven, -, hrun⟩ := h.cycle args V hgoing
  have hdone : (t.machine.memDrive.primCycle FunctionalCore.methods).driven = true := by
    change (t.cycle FunctionalCore.methods).driven = true
    rw [← hdriven]
    by_contra hrefused
    exact hretired (if_neg hrefused)
  have hfetch : FunctionalCore.fetch s.machine.mem.read s.machine.prim =
      FunctionalCore.fetch t.machine.mem.read t.machine.prim := by
    rw [FunctionalCore.fetch, FunctionalCore.fetch, hhead.run.read, hhead.run.self]
  rw [machine_of_regular args host V hgoing h.memory haccepted hretired,
    machine_singleBody args host hdone, hfetch]
  have hafter := hrun.afterInst host V.toRegisterMethods
    (FunctionalCore.fetch t.machine.mem.read t.machine.prim)
  exact ⟨hafter.core, hafter.port, hafter.nwords, hafter.sys, hafter.calls⟩

end SameFunctionalHead

variable (V) in
/-- Both loops start with the same functional core. -/
theorem sameFunctionalHead_start (instif : CoreInstructionIF) (memif : CoreMemoryIF)
    (rep : Core β) (ifPrim ifRep : CoreMemoryIF) (sections : List Section) (brkAddr : Word) :
    SameFunctionalHead
      (concurrentStart V
        (boot instif memif (fun _ => rep) ifPrim (fun _ => ifRep) sections brkAddr))
      (singleStart FunctionalCore.methods
        (boot instif memif Fin.elim0 ifPrim Fin.elim0 sections brkAddr)) := by
  have hboot := sameFunctional_boot instif memif rep ifPrim ifRep sections brkAddr
  exact ⟨⟨hboot.core, hboot.port, hboot.nwords, hboot.sys, hboot.calls⟩, rfl, rfl⟩

end Functional

/-! The verilated core. -/

section Verilated

variable {β : Type} {args : SimArgs} {host : Host} {V : CoreMethods β}

/-- A core that retires an instruction alone within a number of cycles does so in concurrent
execution. -/
theorem retired_of_within (hV : V.CountsRetired) (i : ℕ) {M : Machine 1 FunctionalState β}
    (cycleCount : Counter) {t u : SingleState β} {iif : CoreInstructionIF}
    (h : SameReplica M t.machine) (hhalt : (M.reps 0).halt = false)
    (hbelow : ¬args.maxInsts ≤ t.machine.prim.cntInst)
    (hwithin : RetiresWithin args host (fun _ => V) i t u iif) :
    (verilatedCycles V i M cycleCount).retired ≠ [] := by
  induction i generalizing M cycleCount t with
  | zero => cases hwithin
  | succ i ih =>
    obtain ⟨hkeep, hcnt⟩ := M.repCycle_counts hV 0
    have hcycle : t.machine.prim.halt = false → (M.repCycle V 0).ok = (t.cycle fun _ => V).ok ∧
        (M.repCycle V 0).machine.reps 0 = (t.cycle fun _ => V).machine.prim ∧
        SameReplica (M.repCycle V 0).machine (t.cycle fun _ => V).machine := by
      intro hhalt'
      obtain ⟨hdriven, hupdated, hcore, hsame⟩ := h.memDrive.cycle V (hhalt.trans hhalt'.symm)
      refine ⟨?_, hcore, hsame⟩
      rw [SingleState.cycle, Cycle.ok, Cycle.ok, hdriven, hupdated]
    rw [verilatedCycles]
    cases hwithin with
    | now hgoing hok hvalid =>
      obtain ⟨hsameOk, hcore, -⟩ := hcycle hgoing
      rw [if_pos (.inl (by rw [hcore]; exact hvalid))]
      simp [hsameOk, hok]
    | later hgoing hok hidle hwithin =>
      obtain ⟨hsameOk, hcore, hsame⟩ := hcycle hgoing
      have hvalid : ((M.repCycle V 0).machine.reps 0).instif.valid = 0 := by
        rw [hcore]
        exact hidle
      have hcount : (t.cycle fun _ => V).machine.prim.cntInst = t.machine.prim.cntInst := by
        rw [← hcore, hcnt, if_neg fun hretires => hretires.2 hvalid]
        exact h.cntInst
      rw [if_neg (by simp [hvalid, hsameOk, hok])]
      obtain ⟨hmachine, -⟩ := singleBody_of_stall host hidle hok (by
        change ¬args.maxInsts ≤ (t.cycle fun _ => V).machine.prim.cntInst
        rw [hcount]
        exact hbelow)
      refine ih _ (by rw [hmachine]; exact hsame) (hkeep.trans hhalt) ?_ hwithin
      rw [hmachine]
      change ¬args.maxInsts ≤ (t.cycle fun _ => V).machine.prim.cntInst
      rw [hcount]
      exact hbelow

/-- The verilated core retires an instruction in the next iteration of concurrent execution exactly
when it does so alone within as many cycles as an iteration has. -/
theorem SameReplicaHead.retires_iff (hV : V.CountsRetired) {s : ConcurrentState β}
    {t : SingleState β} (h : SameReplicaHead s t) {k : ℕ} (hlockstep : InLockstep args k s)
    (hlimit : 1 ≤ args.maxInsts.toNat) (hmemory : s.machine.prim.self.memory = true)
    {iif : CoreInstructionIF} :
    (∃ u, RetiresWithin args host (fun _ => V) vcoreTimeout t u iif) ↔
      (nextRound args V s).verilated = [iif] := by
  have hspec := concurrentBody_spec args host hV hlockstep.primHalt hlockstep.repHalt hmemory
  constructor
  · rintro ⟨u, hwithin⟩
    obtain ⟨hM, hhalt, hbelow⟩ := h.functionalStep hlockstep hlimit hmemory
    have hretired : (nextRound args V s).verilated ≠ [] := by
      change (nextRun args V s).retired ≠ []
      rw [nextRun, (verilatedStep_keeps ..).2.1]
      exact retired_of_within hV _ _ hM hhalt hbelow hwithin
    obtain ⟨u', hwithin', -⟩ := h.retires args host hV hlockstep hlimit hmemory hretired
    obtain ⟨-, rfl⟩ := hwithin.unique hwithin'
    exact hspec.verilated.resolve_left hretired
  · intro hone
    have hretired : (nextRound args V s).verilated ≠ [] := by
      rw [hone]
      exact List.cons_ne_nil _ _
    obtain ⟨u, hwithin, -⟩ := h.retires args host hV hlockstep hlimit hmemory hretired
    have hvif := hone.symm.trans (hspec.verilated.resolve_left hretired)
    rw [(List.cons.inj hvif).1]
    exact ⟨u, hwithin⟩

end Verilated

/-! Both cores. -/

section Both

variable {β : Type} {args : SimArgs} {host : Host} {V : CoreMethods β}

/-- The compared records are those that both cores retired, if they did. -/
theorem compared_of_retired (hV : V.CountsRetired) {s : ConcurrentState β} {k : ℕ}
    (hlockstep : InLockstep args k s) (hmemory : s.machine.prim.self.memory = true)
    {f g : CoreInstructionIF} (hf : (nextRound args V s).functional = some f)
    (hg : (nextRound args V s).verilated = [g]) :
    (nextRound args V s).fif = f ∧ (nextRound args V s).vif = g := by
  have hspec := concurrentBody_spec args (fun _ => default) hV hlockstep.primHalt
    hlockstep.repHalt hmemory
  have hfunctional := nextRound_functional args V hlockstep.primHalt hmemory
  constructor
  · rw [hf] at hfunctional
    split at hfunctional
    · cases hfunctional
    · exact (Option.some.inj hfunctional).symm
  · have hvif := hspec.verilated.resolve_left (by rw [hg]; exact List.cons_ne_nil _ _)
    exact (List.cons.inj (hvif.symm.trans hg)).1

end Both

section Comparison

variable {τ : Type} {T : TopModule τ} {patch : CoreInstructionIF → τ → τ} {args : SimArgs}
  {host : Host}

/-- The loops whose runs are compared: concurrent execution of a machine, and the two cores of the
machine alone. -/
structure SeparateRuns (T : TopModule τ) (patch : CoreInstructionIF → τ → τ)
    (M : Machine 1 FunctionalState (WrapperState τ)) (start : SingleState FunctionalState)
    (start' : SingleState (WrapperState τ)) : Prop where
  booted : Booted M
  functional : SameFunctionalHead (concurrentStart (CoreWrapper.methods T patch) M) start
  verilated : SameReplicaHead (concurrentStart (CoreWrapper.methods T patch) M) start'

variable {M : Machine 1 FunctionalState (WrapperState τ)} {start : SingleState FunctionalState}
  {start' : SingleState (WrapperState τ)} (h : SeparateRuns T patch M start start')
  (hresets : T.Resets) (hT : T.HasRegisterArray) (hlimit : 1 ≤ args.maxInsts.toNat)

include h hresets hT hlimit

/-- Paired iterations leave both cores where they are alone after retiring the compared records. -/
theorem SeparateRuns.heads {k : ℕ} {s : ConcurrentState (WrapperState τ)}
    (hreach : (concurrentLoop args host (CoreWrapper.methods T patch)).Reaches
      (concurrentStart (CoreWrapper.methods T patch) M) k s)
    (hagree : ∀ m u, m < k → (concurrentLoop args host (CoreWrapper.methods T patch)).Reaches
      (concurrentStart (CoreWrapper.methods T patch) M) m u →
      (nextRound args (CoreWrapper.methods T patch) u).emulated ≠ none →
      AgreeAtCall (CoreWrapper.methods T patch).toRegisterMethods
        (nextRun args (CoreWrapper.methods T patch) u).machine)
    (hpaired : ∀ r ∈ s.rounds, r.Paired) :
    ∃ t t', Retires args host FunctionalCore.methods 1 start
        ((validated s.rounds).map Prod.fst) t ∧
      Retires args host (fun _ => CoreWrapper.methods T patch) vcoreTimeout start'
        ((validated s.rounds).map Prod.snd) t' ∧
      SameFunctionalHead s t ∧ SameReplicaHead s t' := by
  induction hreach with
  | start => exact ⟨start, start', .nil, .nil, h.functional, h.verilated⟩
  | @next k s hreach hguard ih =>
    have hV := CoreWrapper.methods_countsRetired patch hresets
    obtain ⟨hbefore, hnext⟩ := forall_rounds_concurrentBody.mp hpaired
    have hrounds : (concurrentBody args host (CoreWrapper.methods T patch) s).rounds =
        s.rounds ++ [nextRound args (CoreWrapper.methods T patch) s] := rounds_concurrentBody s
    obtain ⟨t, t', htrace, htrace', hF, hR⟩ := ih (fun m u hm => hagree m u (by omega)) hbefore
    have hlockstep := (inLockstep_of_reaches hV h.booted hreach).2 hguard
    obtain ⟨u, hwithin⟩ := (hF.retires_iff _ hlockstep.primHalt).mpr hnext.functional
    obtain ⟨u', hwithin', hR'⟩ := hR.next args host hresets hT hlockstep hlimit hF.memory hnext
      (hagree k s (by omega) hreach)
    obtain rfl := hwithin.eq_of_one
    have htraces : validated (concurrentBody args host (CoreWrapper.methods T patch) s).rounds =
        validated s.rounds ++ [((nextRound args (CoreWrapper.methods T patch) s).fif,
          (nextRound args (CoreWrapper.methods T patch) s).vif)] := by
      rw [validated, hrounds, List.map_append]
      rfl
    refine ⟨_, _, ?_, ?_, hF.next hlockstep.primHalt host hnext, hR'⟩
    · change Retires _ _ _ _ _ ((validated (concurrentBody _ _ _ _).rounds).map Prod.fst) _
      rw [htraces, List.map_append]
      exact htrace.snoc hwithin
    · change Retires _ _ _ _ _ ((validated (concurrentBody _ _ _ _).rounds).map Prod.snd) _
      rw [htraces, List.map_append]
      exact htrace'.snoc hwithin'

omit hT in
/-- The next iteration from a head, when both cores retire an instruction alone. -/
theorem SeparateRuns.next {k : ℕ} {s : ConcurrentState (WrapperState τ)}
    (hreach : (concurrentLoop args host (CoreWrapper.methods T patch)).Reaches
      (concurrentStart (CoreWrapper.methods T patch) M) k s)
    {t u : SingleState FunctionalState} {t' u' : SingleState (WrapperState τ)}
    {f g : CoreInstructionIF} (hF : SameFunctionalHead s t) (hR : SameReplicaHead s t')
    (hf : RetiresWithin args host FunctionalCore.methods 1 t u f)
    (hg : RetiresWithin args host (fun _ => CoreWrapper.methods T patch) vcoreTimeout t' u' g) :
    (concurrentLoop args host (CoreWrapper.methods T patch)).guard s = true ∧
      let r := nextRound args (CoreWrapper.methods T patch) s
      r.functional = some f ∧ r.verilated = [g] ∧ r.fif = f ∧ r.vif = g := by
  have hV := CoreWrapper.methods_countsRetired patch hresets
  have hguard : (concurrentLoop args host (CoreWrapper.methods T patch)).guard s = true := by
    refine concurrentLoop_guard.mpr ⟨?_, ?_⟩
    · rw [hF.halt]
      exact hf.going
    · rw [hR.halt]
      exact hg.going
  have hlockstep := (inLockstep_of_reaches hV h.booted hreach).2 hguard
  have hfunctional := (hF.retires_iff (CoreWrapper.methods T patch) hlockstep.primHalt).mp ⟨u, hf⟩
  have hverilated := (hR.retires_iff hV hlockstep hlimit hF.memory).mp ⟨u', hg⟩
  exact ⟨hguard, hfunctional, hverilated,
    compared_of_retired hV hlockstep hF.memory hfunctional hverilated⟩

/-- Traces whose records are accepted in pairs are compared in as many iterations. -/
theorem SeparateRuns.exists_reaches {pairs : List (CoreInstructionIF × CoreInstructionIF)}
    (hagree : ∀ m u, m < pairs.length →
      (concurrentLoop args host (CoreWrapper.methods T patch)).Reaches
        (concurrentStart (CoreWrapper.methods T patch) M) m u →
      (nextRound args (CoreWrapper.methods T patch) u).emulated ≠ none →
      AgreeAtCall (CoreWrapper.methods T patch).toRegisterMethods
        (nextRun args (CoreWrapper.methods T patch) u).machine)
    {t : SingleState FunctionalState} {t' : SingleState (WrapperState τ)}
    (hF : Retires args host FunctionalCore.methods 1 start (pairs.map Prod.fst) t)
    (hR : Retires args host (fun _ => CoreWrapper.methods T patch) vcoreTimeout start'
      (pairs.map Prod.snd) t')
    (haccepted : ∀ p ∈ pairs, Validator.accepts p.1 p.2 = true) :
    ∃ s, (concurrentLoop args host (CoreWrapper.methods T patch)).Reaches
        (concurrentStart (CoreWrapper.methods T patch) M) pairs.length s ∧
      (∀ r ∈ s.rounds, r.Paired) ∧ validated s.rounds = pairs ∧
      SameFunctionalHead s t ∧ SameReplicaHead s t' := by
  induction pairs using List.reverseRecOn generalizing t t' with
  | nil =>
    refine ⟨_, .start, fun r hr => absurd hr List.not_mem_nil, rfl, ?_, ?_⟩
    · rw [hF.unique .nil]
      exact h.functional
    · rw [hR.unique .nil]
      exact h.verilated
  | append_singleton pairs p ih =>
    rw [List.map_append] at hF hR
    obtain ⟨v, u, hv, hf, rfl⟩ := retires_snoc_iff.mp hF
    obtain ⟨v', u', hv', hg, rfl⟩ := retires_snoc_iff.mp hR
    obtain ⟨hbefore, hlast⟩ := List.forall_mem_append.mp haccepted
    have hlength : (pairs ++ [p]).length = pairs.length + 1 := List.length_append
    obtain ⟨s, hs, hpaired, hpairs, hFs, hRs⟩ :=
      ih (fun m w hm => hagree m w (by omega)) hv hv' hbefore
    obtain ⟨hguard, hfunctional, hverilated, hfif, hvif⟩ :=
      h.next hresets hlimit hs hFs hRs hf hg
    have hround : (nextRound args (CoreWrapper.methods T patch) s).Paired := by
      refine ⟨hfif.symm ▸ hfunctional, hvif.symm ▸ hverilated, ?_⟩
      rw [hfif, hvif]
      exact hlast p List.mem_cons_self
    have hall : ∀ r ∈ (concurrentBody args host (CoreWrapper.methods T patch) s).rounds,
        r.Paired := forall_rounds_concurrentBody.mpr ⟨hpaired, hround⟩
    have hlist : validated (concurrentBody args host (CoreWrapper.methods T patch) s).rounds =
        pairs ++ [p] := by
      rw [validated, rounds_concurrentBody, List.map_append]
      change validated s.rounds ++ [((nextRound _ _ s).fif, (nextRound _ _ s).vif)] = _
      rw [hpairs, hfif, hvif]
    have hreach := hs.next hguard
    rw [hlength]
    obtain ⟨w, w', hw, hw', hheads⟩ := h.heads hresets hT hlimit hreach
      (fun m u hm => hagree m u (by omega)) hall
    refine ⟨_, hreach, hall, hlist, ?_⟩
    have hlist' : validated ((concurrentLoop args host (CoreWrapper.methods T patch)).body
        s).rounds = pairs ++ [p] := hlist
    rw [hlist', List.map_append] at hw hw'
    rw [hF.unique hw, hR.unique hw']
    exact hheads

end Comparison

/-- Cross-verification compares the traces of two simulations. In concurrent execution a number of
instructions are accepted in turn exactly when the functional core and the verilated core, each
simulated alone on the image, retire as many, the verilated core within the timeout for each, and
the records are accepted in pairs. When a pair of records is refused after these, the mismatch is
reported with its index, and the loop is left. What both cores see of an emulated call has to be the
same, since the simulator only asks the functional core for its arguments. -/
theorem cross_verification {τ : Type} (T : TopModule τ) (patch : CoreInstructionIF → τ → τ)
    (hresets : T.Resets) (hT : T.HasRegisterArray) (args : SimArgs) (host : Host)
    (hlimit : 1 ≤ args.maxInsts.toNat) (instif instif' : CoreInstructionIF)
    (memif memif' ifPrim ifRep : CoreMemoryIF) (top : τ) (sections : List Section)
    (brkAddr : Word) :
    let V := CoreWrapper.methods T patch
    let rep := CoreWrapper.new instif' memif' top
    let L := concurrentLoop args host V
    let both := concurrentStart V
      (boot instif memif (fun _ => rep) ifPrim (fun _ => ifRep) sections brkAddr)
    let functional := singleStart FunctionalCore.methods
      (boot instif memif Fin.elim0 ifPrim Fin.elim0 sections brkAddr)
    let verilated := singleStart (fun _ => V) (bootAlone rep ifRep sections brkAddr)
    let traceF trace := ∃ t, Retires args host FunctionalCore.methods 1 functional trace t
    let traceV trace := ∃ t, Retires args host (fun _ => V) vcoreTimeout verilated trace t
    ∀ pairs : List (CoreInstructionIF × CoreInstructionIF),
      (∀ m u, m < pairs.length → L.Reaches both m u → (nextRound args V u).emulated ≠ none →
        AgreeAtCall V.toRegisterMethods (nextRun args V u).machine) →
      ((∃ s, L.Reaches both pairs.length s ∧ (∀ r ∈ s.rounds, r.Paired) ∧
          validated s.rounds = pairs) ↔
        traceF (pairs.map Prod.fst) ∧ traceV (pairs.map Prod.snd) ∧
          ∀ p ∈ pairs, Validator.accepts p.1 p.2 = true) ∧
      ∀ f g, traceF (pairs.map Prod.fst ++ [f]) → traceV (pairs.map Prod.snd ++ [g]) →
        (∀ p ∈ pairs, Validator.accepts p.1 p.2 = true) → Validator.accepts f g = false →
        ∃ s, L.Reaches both (pairs.length + 1) s ∧ L.guard s = false ∧
          ∃ count : Counter, count.toNat = pairs.length + 1 ∧ .mismatch count ∈ s.out := by
  intro V rep L both functional verilated traceF traceV pairs hagree
  have hV : V.CountsRetired := CoreWrapper.methods_countsRetired patch hresets
  have hruns : SeparateRuns T patch
      (boot instif memif (fun _ => rep) ifPrim (fun _ => ifRep) sections brkAddr) functional
      verilated :=
    ⟨booted_boot instif memif rfl rfl ifPrim ifRep sections brkAddr,
      sameFunctionalHead_start V instif memif rep ifPrim ifRep sections brkAddr,
      sameReplicaHead_start hV instif memif rep rfl ifPrim ifRep sections brkAddr⟩
  refine ⟨⟨?_, ?_⟩, ?_⟩
  · rintro ⟨s, hs, hpaired, rfl⟩
    obtain ⟨t, t', ht, ht', -⟩ := hruns.heads hresets hT hlimit hs hagree hpaired
    refine ⟨⟨t, ht⟩, ⟨t', ht'⟩, ?_⟩
    intro p hp
    obtain ⟨r, hr, rfl⟩ := List.mem_map.mp hp
    exact (hpaired r hr).accepted
  · rintro ⟨⟨t, ht⟩, ⟨t', ht'⟩, haccepted⟩
    obtain ⟨s, hs, hpaired, hpairs, -⟩ :=
      hruns.exists_reaches hresets hT hlimit hagree ht ht' haccepted
    exact ⟨s, hs, hpaired, hpairs⟩
  · rintro f g ⟨t, ht⟩ ⟨t', ht'⟩ haccepted hrefused
    obtain ⟨v, u, hv, hf, -⟩ := retires_snoc_iff.mp ht
    obtain ⟨v', u', hv', hg, -⟩ := retires_snoc_iff.mp ht'
    obtain ⟨s, hs, -, -, hF, hR⟩ :=
      hruns.exists_reaches hresets hT hlimit hagree hv hv' haccepted
    obtain ⟨hguard, hfunctional, -, hfif, hvif⟩ := hruns.next hresets hlimit hs hF hR hf hg
    have hlockstep := (inLockstep_of_reaches hV hruns.booted hs).2 hguard
    have hspec := concurrentBody_spec args host hV hlockstep.primHalt hlockstep.repHalt hF.memory
    have hround : (nextRound args V s).accepted = false := by
      change Validator.accepts (nextRound args V s).fif (nextRound args V s).vif = false
      rw [hfif, hvif]
      exact hrefused
    obtain ⟨vld, hout⟩ := out_of_rejected host hround
    have hcount : (nextRun args V s).machine.prim.cntInst = s.machine.prim.cntInst + 1 := by
      rw [← (prim_concurrentBody args host (V := V) s).1, hspec.primCnt, if_neg]
      rw [hfunctional]
      exact Option.some_ne_none f
    refine ⟨_, hs.next hguard, ?_, (nextRun args V s).machine.prim.cntInst, ?_, ?_⟩
    · refine concurrentLoop_exit.mpr (.inl ?_)
      exact hspec.primHalt.mpr (.inl hround)
    · rw [hcount]
      exact toNat_succ_of_below hlockstep.primCnt hlockstep.below
    · change _ ∈ (concurrentBody args host V s).out
      rw [hout]
      exact List.mem_append_right _ (mismatch_mem_mismatchLines ..)

/-- The record of an instruction that does nothing, at the wrong address. -/
def straySteps : List CoreInstructionIF := [⟨1, 0x00010004, 0x00000013, 0, 0, 0, 0, 0, 0⟩]

/-- A core whose first instruction is at the wrong address is reported. -/
theorem stray_reported :
    let V := RVCorePCore.methods Playback.top
    let L := concurrentLoop ⟨10, 0, false⟩ (fun _ => default) V
    ∃ s, L.Reaches (concurrentStart V (playbackMachine [0x00000013] straySteps)) 1 s ∧
      L.guard s = false ∧ ∃ count : Counter, count.toNat = 1 ∧ .mismatch count ∈ s.out := by
  intro V L
  obtain ⟨-, hmismatch⟩ := cross_verification Playback.top (fun _ top => top)
    Playback.top_resets Playback.top_hasRegisterArray ⟨10, 0, false⟩ (fun _ => default) (by decide)
    ⟨0, 0, 0, 0, 0, 0, 0, 0, 0⟩ ⟨0, 0, 0, 0, 0, 0, 0, 0, 0⟩ ⟨0, 0, 0, 0, 0, 0, 0, 0, 0⟩
    ⟨0, 0, 0, 0, 0, 0, 0, 0, 0⟩ ⟨0, 0, 0, 0, 0, 0, 0, 0, 0⟩ ⟨0, 0, 0, 0, 0, 0, 0, 0, 0⟩
    ⟨straySteps, ⟨0, 0, 0, 0, 0, 0, 0, 0, 0⟩, fun _ => 0⟩
    [{ addr := initialPc, length := 4, data := [0x00000013] }] 0 []
    (fun _ _ hm => absurd hm (Nat.not_lt_zero _))
  refine hmismatch _ _ ⟨_, Retires.nil.snoc (.now ?_ ?_ ?_)⟩ ⟨_, Retires.nil.snoc (.now ?_ ?_ ?_)⟩
    (fun _ hp => absurd hp List.not_mem_nil) ?_
  all_goals decide +kernel

end VeriCross
