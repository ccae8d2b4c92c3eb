import VeriCross.CoreWrapper
import VeriCross.Sim.Rounds

/-!
# Lockstep

As long as neither core has stopped, both have retired one instruction in each iteration, and
each iteration compared exactly these two and accepted them. The retired instructions are read
off the rounds and tied to the counters of the cores.
-/

namespace VeriCross

open RiscV SysCall

variable {β : Type} {args : SimArgs} {host : Host} {V : CoreMethods β}

/-- The instructions that the functional core retired, in order. -/
def functionalRetired (rounds : List Round) : List CoreInstructionIF :=
  rounds.filterMap Round.functional

/-- The instructions that the verilated core retired, in order. -/
def verilatedRetired (rounds : List Round) : List CoreInstructionIF :=
  rounds.flatMap Round.verilated

/-- The pairs passed to the validator, in order. -/
def validated (rounds : List Round) : List (CoreInstructionIF × CoreInstructionIF) :=
  rounds.map fun r => (r.fif, r.vif)

/-- A machine before a run: the functional core is bound to the memory, no core is stopped and
none has retired an instruction. -/
structure Booted (M : Machine 1 FunctionalState β) : Prop where
  memory : M.prim.self.memory = true
  primHalt : M.prim.halt = false
  primCnt : M.prim.cntInst = 0
  repHalt : (M.reps 0).halt = false
  repCnt : (M.reps 0).cntInst = 0

/-- The setup of `main` boots the machine. -/
theorem booted_boot (instif : CoreInstructionIF) (memif : CoreMemoryIF) {rep : Core β}
    (hhalt : rep.halt = false) (hcnt : rep.cntInst = 0) (ifPrim ifRep : CoreMemoryIF)
    (sections : List Section) (brkAddr : Word) :
    Booted (boot instif memif (fun _ => rep) ifPrim (fun _ => ifRep) sections brkAddr) :=
  ⟨rfl, rfl, rfl, hhalt, hcnt⟩

/-- A machine with an image at the initial program counter and a verilated core that plays back
a list of records. -/
def playbackMachine (image : List Word) (records : List CoreInstructionIF) :
    Machine 1 FunctionalState (WrapperState Playback) :=
  let instif : CoreInstructionIF := ⟨0, 0, 0, 0, 0, 0, 0, 0, 0⟩
  let memif : CoreMemoryIF := ⟨0, 0, 0, 0, 0, 0, 0, 0, 0⟩
  let top : Playback := { rest := records, shown := instif, reg := fun _ => 0 }
  boot instif memif (fun _ => CoreWrapper.new instif memif top) memif (fun _ => memif)
    [{ addr := initialPc, length := BitVec.ofNat 32 (4 * image.length), data := image }] 0

/-- Such a machine is booted. -/
theorem booted_playbackMachine (image : List Word) (records : List CoreInstructionIF) :
    Booted (playbackMachine image records) :=
  booted_boot _ _ rfl rfl ..

/-- Both cores retired one instruction in the round, and these were compared and accepted. -/
structure Round.Paired (r : Round) : Prop where
  functional : r.functional = some r.fif
  verilated : r.verilated = [r.vif]
  accepted : Validator.accepts r.fif r.vif = true

/-- The loop is going on after a number of iterations, all of them paired and silent. The
counters do not wrap because the instruction limit has not been reached. -/
structure InLockstep (args : SimArgs) (k : ℕ) (s : ConcurrentState β) : Prop where
  primHalt : s.machine.prim.halt = false
  repHalt : (s.machine.reps 0).halt = false
  primCnt : s.machine.prim.cntInst.toNat = k
  repCnt : (s.machine.reps 0).cntInst.toNat = k
  below : k = 0 ∨ k < args.maxInsts.toNat
  rounds : s.rounds.length = k
  paired : ∀ r ∈ s.rounds, r.Paired
  out : s.out = []

/-- A counter below the limit counts one more instruction without wrapping. -/
theorem toNat_succ_of_below {c : Counter} {k : ℕ} (hc : c.toNat = k)
    (hbelow : k = 0 ∨ k < args.maxInsts.toNat) : (c + 1).toNat = k + 1 := by
  have hmax := args.maxInsts.isLt
  rw [BitVec.toNat_add, hc]
  change (k + 1) % 2 ^ 64 = k + 1
  omega

variable (args) in
/-- The start of a run is in lockstep. -/
theorem inLockstep_start (hV : V.CountsRetired) {M : Machine 1 FunctionalState β}
    (hboot : Booted M) : InLockstep args 0 (concurrentStart V M) where
  primHalt := hboot.primHalt
  repHalt := (hV.reset_halt _).trans hboot.repHalt
  primCnt := congrArg BitVec.toNat hboot.primCnt
  repCnt := congrArg BitVec.toNat ((hV.reset_cntInst _).trans hboot.repCnt)
  below := .inl rfl
  rounds := rfl
  paired := by simp [concurrentStart]
  out := rfl

/-- An iteration after which the loop goes on keeps the lockstep. -/
theorem InLockstep.next (hV : V.CountsRetired) {k : ℕ} {s : ConcurrentState β}
    (h : InLockstep args k s) (hmemory : s.machine.prim.self.memory = true)
    (hguard : (concurrentLoop args host V).guard (concurrentBody args host V s) = true) :
    InLockstep args (k + 1) (concurrentBody args host V s) := by
  have hspec := concurrentBody_spec args host hV h.primHalt h.repHalt hmemory
  obtain ⟨hprim, hrep⟩ := concurrentLoop_guard.mp hguard
  have hprimGoing := mt hspec.primHalt.mpr (by rw [hprim]; decide)
  have hrepGoing := mt hspec.repHalt.mpr (by rw [hrep]; decide)
  simp only [not_or] at hprimGoing hrepGoing
  obtain ⟨haccepted, hlimit, hfunctional, -⟩ := hprimGoing
  obtain ⟨-, -, hverilated, -⟩ := hrepGoing
  rw [Bool.not_eq_false] at haccepted
  have hcnt : (concurrentBody args host V s).machine.prim.cntInst = s.machine.prim.cntInst + 1 :=
    hspec.primCnt.trans (if_neg hfunctional)
  have hcnts : ((concurrentBody args host V s).machine.reps 0).cntInst =
      (s.machine.reps 0).cntInst + 1 :=
    hspec.repCnt.trans (if_neg hverilated)
  have hpaired : (nextRound args V s).Paired :=
    { functional := by
        have hif := nextRound_functional args V h.primHalt hmemory
        rw [hif] at hfunctional ⊢
        rw [if_neg fun hunknown => hfunctional (if_pos hunknown)]
      verilated := hspec.verilated.resolve_left hverilated
      accepted := haccepted }
  exact
    { primHalt := hprim
      repHalt := hrep
      primCnt := by rw [hcnt, toNat_succ_of_below h.primCnt h.below]
      repCnt := by rw [hcnts, toNat_succ_of_below h.repCnt h.below]
      below := by
        right
        rw [BitVec.not_le, BitVec.lt_def, hcnt, toNat_succ_of_below h.primCnt h.below] at hlimit
        exact hlimit
      rounds := by rw [rounds_concurrentBody, List.length_append, h.rounds]; rfl
      paired := by
        intro r hr
        rw [rounds_concurrentBody] at hr
        rcases List.mem_append.mp hr with hr | hr
        · exact h.paired r hr
        · rw [List.mem_singleton.mp hr]
          exact hpaired
      out := (out_of_accepted haccepted).trans h.out }

/-- At every loop head the functional core is bound to the memory, and if the loop goes on it is
in lockstep. -/
theorem inLockstep_of_reaches (hV : V.CountsRetired) {M : Machine 1 FunctionalState β}
    (hboot : Booted M) {k : ℕ} {t : ConcurrentState β}
    (h : (concurrentLoop args host V).Reaches (concurrentStart V M) k t) :
    t.machine.prim.self.memory = true ∧
      ((concurrentLoop args host V).guard t = true → InLockstep args k t) := by
  refine h.invariant (I := fun k t => t.machine.prim.self.memory = true ∧
    ((concurrentLoop args host V).guard t = true → InLockstep args k t))
    ⟨hboot.memory, fun _ => inLockstep_start args hV hboot⟩ ?_
  rintro k t - hguard ⟨hmemory, hlockstep⟩
  have ht := hlockstep hguard
  exact ⟨memory_concurrentBody ht.primHalt hmemory, fun hnext => ht.next hV hmemory hnext⟩

/-! Reading the retired instructions off paired rounds. -/

/-- In regular rounds the functional core retires the compared records. -/
theorem functionalRetired_of_paired {rounds : List Round} (h : ∀ r ∈ rounds, r.Paired) :
    functionalRetired rounds = rounds.map Round.fif := by
  induction rounds with
  | nil => rfl
  | cons r rounds ih =>
    obtain ⟨hr, hrounds⟩ := List.forall_mem_cons.mp h
    change List.filterMap Round.functional (r :: rounds) = _
    rw [List.filterMap_cons_some hr.functional, List.map_cons]
    exact congrArg (r.fif :: ·) (ih hrounds)

/-- In regular rounds the verilated core retires the compared records. -/
theorem verilatedRetired_of_paired {rounds : List Round} (h : ∀ r ∈ rounds, r.Paired) :
    verilatedRetired rounds = rounds.map Round.vif := by
  induction rounds with
  | nil => rfl
  | cons r rounds ih =>
    obtain ⟨hr, hrounds⟩ := List.forall_mem_cons.mp h
    change r.verilated ++ verilatedRetired rounds = _
    rw [hr.verilated, ih hrounds]
    rfl

/-- Before every iteration after `k` completed ones both cores have retired `k` instructions,
and the pairs passed to the validator are the retired instructions of the two cores, each with
the one of the same index, all accepted. -/
theorem concurrent_lockstep (hV : V.CountsRetired) {M : Machine 1 FunctionalState β}
    (hboot : Booted M) {k : ℕ} {t : ConcurrentState β}
    (h : (concurrentLoop args host V).Reaches (concurrentStart V M) k t)
    (hguard : (concurrentLoop args host V).guard t = true) :
    t.machine.prim.cntInst.toNat = k ∧ (t.machine.reps 0).cntInst.toNat = k ∧
      (functionalRetired t.rounds).length = k ∧ (verilatedRetired t.rounds).length = k ∧
      validated t.rounds = (functionalRetired t.rounds).zip (verilatedRetired t.rounds) ∧
      ∀ p ∈ validated t.rounds, Validator.accepts p.1 p.2 = true := by
  have ht := (inLockstep_of_reaches hV hboot h).2 hguard
  rw [functionalRetired_of_paired ht.paired, verilatedRetired_of_paired ht.paired,
    List.length_map, List.length_map, ht.rounds, List.zip_map']
  refine ⟨ht.primCnt, ht.repCnt, rfl, rfl, rfl, fun p hp => ?_⟩
  obtain ⟨r, hr, rfl⟩ := List.mem_map.mp hp
  exact (ht.paired r hr).accepted

/-- One iteration of a program of two instructions that do nothing. -/
theorem nop_lockstep :
    let V := RVCorePCore.methods Playback.top
    let nop (pc : Word) : CoreInstructionIF := ⟨1, pc, 0x00000013, 0, 0, 0, 0, 0, 0⟩
    let M := playbackMachine [0x00000013, 0x00000013] [nop 0x00010000, nop 0x00010004]
    let L := concurrentLoop ⟨10, 0, false⟩ (fun _ => default) V
    let t := L.body (concurrentStart V M)
    t.machine.prim.cntInst.toNat = 1 ∧ (t.machine.reps 0).cntInst.toNat = 1 ∧
      (functionalRetired t.rounds).length = 1 ∧ (verilatedRetired t.rounds).length = 1 ∧
      validated t.rounds = (functionalRetired t.rounds).zip (verilatedRetired t.rounds) ∧
      ∀ p ∈ validated t.rounds, Validator.accepts p.1 p.2 = true := by
  intro V nop M L t
  refine concurrent_lockstep (RVCorePCore.methods_countsRetired Playback.top_resets)
    (booted_playbackMachine ..) (WhileLoop.Reaches.start.next (L := L) ?_) ?_
  · decide +kernel
  · decide +kernel

end VeriCross
