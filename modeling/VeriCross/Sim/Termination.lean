import VeriCross.Sim.Lockstep
import VeriCross.Sim.Replica

/-!
# The concurrent loop ends

Whatever the verilated core does, an iteration after which both cores run has retired an
instruction of the functional core below the limit, so the number of instructions is that of the
iterations.
-/

namespace VeriCross

section Termination

variable {β : Type} {args : SimArgs} {host : Host} {V : CoreMethods β}

/-- The functional core after a number of iterations, if the loop goes on: each of them retired an
instruction, and the limit is not reached. -/
structure Retiring (args : SimArgs) (k : ℕ) (s : ConcurrentState β) : Prop where
  primCnt : s.machine.prim.cntInst.toNat = k
  below : k = 0 ∨ k < args.maxInsts.toNat

/-- An iteration after which the functional core runs retires an instruction of it. -/
theorem Retiring.next {k : ℕ} {s : ConcurrentState β} (h : Retiring args k s)
    (hprim : s.machine.prim.halt = false) (hmemory : s.machine.prim.self.memory = true)
    (hgoing : (concurrentBody args host V s).machine.prim.halt = false) :
    Retiring args (k + 1) (concurrentBody args host V s) := by
  obtain ⟨hcnt, hhalt⟩ := concurrentBody_prim args host V hprim hmemory
  have hnot := mt hhalt.mpr (by rw [hgoing]; decide)
  simp only [not_or] at hnot
  obtain ⟨-, hlimit, hfunctional, -⟩ := hnot
  rw [if_neg hfunctional] at hcnt
  have hnum : (concurrentBody args host V s).machine.prim.cntInst.toNat = k + 1 := by
    rw [hcnt, toNat_succ_of_below h.primCnt h.below]
  refine ⟨hnum, .inr ?_⟩
  rw [BitVec.not_le, BitVec.lt_def, hnum] at hlimit
  exact hlimit

/-- At every head the functional core is bound to the memory, and if the loop goes on as many
instructions are retired as iterations are completed. -/
theorem retiring_of_reaches {M : Machine 1 FunctionalState β} (hmemory : M.prim.self.memory = true)
    (hcnt : M.prim.cntInst = 0) {k : ℕ} {t : ConcurrentState β}
    (h : (concurrentLoop args host V).Reaches (concurrentStart V M) k t) :
    t.machine.prim.self.memory = true ∧
      ((concurrentLoop args host V).guard t = true → Retiring args k t) := by
  refine h.invariant (I := fun k t => t.machine.prim.self.memory = true ∧
    ((concurrentLoop args host V).guard t = true → Retiring args k t))
    ⟨hmemory, fun _ => ⟨congrArg BitVec.toNat hcnt, .inl rfl⟩⟩ ?_
  rintro k t - hguard ⟨hbound, hretiring⟩
  obtain ⟨hprim, -⟩ := concurrentLoop_guard.mp hguard
  refine ⟨memory_concurrentBody hprim hbound, fun hnext => ?_⟩
  exact (hretiring hguard).next hprim hbound (concurrentLoop_guard.mp hnext).1

/-- If the loop goes on, fewer iterations are completed than instructions are allowed, or none. -/
theorem lt_limit_of_guard {M : Machine 1 FunctionalState β} (hmemory : M.prim.self.memory = true)
    (hcnt : M.prim.cntInst = 0) {k : ℕ} {t : ConcurrentState β}
    (h : (concurrentLoop args host V).Reaches (concurrentStart V M) k t)
    (hguard : (concurrentLoop args host V).guard t = true) : k < max 1 args.maxInsts.toNat := by
  obtain ⟨-, hbelow⟩ := (retiring_of_reaches hmemory hcnt h).2 hguard
  omega

/-- The concurrent loop ends after at most as many iterations as instructions are allowed, or one,
with a stopped core, and with a history of at most `2 ^ 30` instructions no index has overflowed. In
each iteration both cores make their cycles, the verilated core at least one and at most as many as
it is granted; then it may be stopped, and the iteration ends with stopped cores, with one emulated
call or with neither. -/
theorem concurrent_terminates (args : SimArgs) (host : Host) (V : CoreMethods β)
    (instif : CoreInstructionIF) (memif : CoreMemoryIF) (rep : Core β)
    (ifPrim ifRep : CoreMemoryIF) (sections : List Section) (brkAddr : Word) :
    let L := concurrentLoop args host V
    let start := concurrentStart V
      (boot instif memif (fun _ => rep) ifPrim (fun _ => ifRep) sections brkAddr)
    ∃ k t, k ≤ max 1 args.maxInsts.toNat ∧ L.Reaches start k t ∧ L.guard t = false ∧
      (t.machine.prim.halt = true ∨ (t.machine.reps 0).halt = true) ∧
      (args.mismatchInsts.toNat ≤ 0x40000000 → t.overflow = false) ∧
      ∀ j s, L.Reaches start j s → j ≤ k ∧
        ∃ i, 0 < i ∧ i ≤ vcoreTimeout ∧
          let M := (functionalStep args s.machine).machine.replicaCycles V 0 i
          let N := (nextRun args V s).machine
          (N = M ∨ N = M.haltRep 0) ∧
            ((L.body s).machine = N.haltCores ∨
              (L.body s).machine = N.emulate host FunctionalCore.registers V.toRegisterMethods ∨
              (L.body s).machine = N) := by
  intro L start
  have hbound : ∀ k t, L.Reaches start k t → L.guard t = true → k < max 1 args.maxInsts.toNat :=
    fun k t => lt_limit_of_guard rfl rfl
  obtain ⟨k, t, hk, hreach, hexit⟩ := WhileLoop.exits_of_bound hbound
  refine ⟨k, t, hk, hreach, hexit, concurrentLoop_exit.mp hexit,
    fun hsmall => overflow_of_reaches hsmall hreach, fun j s hs => ?_⟩
  obtain ⟨i, hi, hmachine⟩ := nextRun_machine args V s
  refine ⟨hreach.le_of_exit hexit hs, i + 1, i.succ_pos, hi, hmachine, ?_⟩
  rcases machine_cases args host (V := V) s with ⟨-, hend⟩ | ⟨-, -, hend⟩ | ⟨-, -, hend⟩
  · exact .inl hend
  · exact .inr (.inl hend)
  · exact .inr (.inr hend)

end Termination

end VeriCross
