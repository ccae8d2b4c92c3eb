import VeriCross.CoreWrapper
import VeriCross.Sim.CoreCycle
import VeriCross.Sim.Rounds

/-!
# The verilated core in concurrent execution

Within an iteration the verilated core makes some cycles at its port of the memory. A property of
the core that its methods keep, and that does not depend on what the simulator puts into the core,
holds at every head of the loop. A wrapper is out of reset there.
-/

namespace VeriCross

/-! The cycles of an iteration. -/

/-- The machine after some cycles of a replica. -/
def Machine.replicaCycles {n : ℕ} {α β : Type} (M : Machine n α β) (V : CoreMethods β) (i : Fin n)
    (k : ℕ) : Machine n α β :=
  (fun M => (M.repCycle V i).machine)^[k] M

/-- One more cycle of a replica. -/
theorem Machine.replicaCycles_succ {n : ℕ} {α β : Type} (M : Machine n α β) (V : CoreMethods β)
    (i : Fin n) (k : ℕ) :
    M.replicaCycles V i (k + 1) = ((M.replicaCycles V i k).repCycle V i).machine :=
  Function.iterate_succ_apply' ..

/-- What holds of every cycle at a port holds of every cycle of a replica. -/
theorem Machine.replicaCycles_spec {n : ℕ} {α β : Type} {V : CoreMethods β} {Runs : Core β → Prop}
    {R : Word → Port → Core β → Core β → Port → Prop}
    (hcycle : ∀ nw p c, Runs c →
      Runs (V.cycle nw c p).core ∧ R nw p c (V.cycle nw c p).core (V.cycle nw c p).port)
    {M : Machine n α β} {i : Fin n} (hM : Runs (M.reps i)) (k : ℕ) :
    let N := M.replicaCycles V i
    Runs ((N k).reps i) ∧ (N k).mem.nwords = M.mem.nwords ∧
      R M.mem.nwords ((N k).mem.port (some i)) ((N k).reps i) ((N (k + 1)).reps i)
        ((N (k + 1)).mem.port (some i)) := by
  intro N
  have hstep : ∀ k, (N (k + 1)).reps i =
        (V.cycle (N k).mem.nwords ((N k).reps i) ((N k).mem.port (some i))).core ∧
      (N (k + 1)).mem.port (some i) =
        (V.cycle (N k).mem.nwords ((N k).reps i) ((N k).mem.port (some i))).port ∧
      (N (k + 1)).mem.nwords = (N k).mem.nwords := by
    intro k
    obtain ⟨-, -, hcore, hport, hnwords, -⟩ := (N k).repCycle_eq_cycle V i
    rw [show N (k + 1) = ((N k).repCycle V i).machine from M.replicaCycles_succ V i k]
    exact ⟨hcore, hport, hnwords⟩
  have hkeep : ∀ k, Runs ((N k).reps i) ∧ (N k).mem.nwords = M.mem.nwords := by
    intro k
    induction k with
    | zero => exact ⟨hM, rfl⟩
    | succ k ih =>
      obtain ⟨hcore, -, hnwords⟩ := hstep k
      rw [hcore, hnwords]
      exact ⟨(hcycle _ _ _ ih.1).1, ih.2⟩
  obtain ⟨hruns, hnwords⟩ := hkeep k
  obtain ⟨hcore, hport, -⟩ := hstep k
  rw [hcore, hport, hnwords]
  exact ⟨hruns, rfl, (hcycle _ _ _ hruns).2⟩

/-- The inner loop of concurrent execution is some cycles of the replica. -/
theorem verilatedCycles_eq_replicaCycles {β : Type} (V : CoreMethods β) (budget : ℕ)
    (M : Machine 1 FunctionalState β) (cycleCount : Counter) :
    ∃ k ≤ budget, (verilatedCycles V (budget + 1) M cycleCount).machine =
      M.replicaCycles V 0 (k + 1) := by
  induction budget generalizing M cycleCount with
  | zero =>
    refine ⟨0, le_rfl, ?_⟩
    rw [verilatedCycles]
    split <;> rfl
  | succ budget ih =>
    rw [verilatedCycles]
    split
    · exact ⟨0, Nat.zero_le _, rfl⟩
    · obtain ⟨k, hk, hmachine⟩ := ih (M.repCycle V 0).machine (cycleCount + 1)
      exact ⟨k + 1, Nat.succ_le_succ hk, hmachine⟩

/-- The verilated step of an iteration is at least one cycle of the replica and at most as many as
are granted, after which the replica may be stopped. -/
theorem nextRun_machine {β : Type} (args : SimArgs) (V : CoreMethods β) (s : ConcurrentState β) :
    ∃ k < vcoreTimeout,
      let M := (functionalStep args s.machine).machine.replicaCycles V 0 (k + 1)
      (nextRun args V s).machine = M ∨ (nextRun args V s).machine = M.haltRep 0 := by
  obtain ⟨k, hk, hmachine⟩ := verilatedCycles_eq_replicaCycles V (vcoreTimeout - 1)
    (functionalStep args s.machine).machine s.cycleCount
  refine ⟨k, Nat.lt_of_le_pred (by decide) hk, ?_⟩
  rw [← hmachine]
  rw [nextRun, verilatedStep]
  split
  · exact .inr rfl
  · exact .inl rfl

/-- The pair of an iteration is compared after some cycles of the replica. -/
theorem exists_replicaCycles {β : Type} (args : SimArgs) (V : CoreMethods β)
    (s : ConcurrentState β) :
    ∃ k < vcoreTimeout, (nextRound args V s).vif =
      (((functionalStep args s.machine).machine.replicaCycles V 0 (k + 1)).reps 0).instif := by
  obtain ⟨k, hk, hmachine⟩ := nextRun_machine args V s
  refine ⟨k, hk, ?_⟩
  change ((nextRun args V s).machine.reps 0).instif = _
  rcases hmachine with hmachine | hmachine
  · rw [hmachine]
  · rw [hmachine, Machine.haltRep, Machine.reps_setRep]

/-! Invariants. -/

/-- A property of a core that the methods keep, whatever halt flag and answers it is given. -/
structure CoreMethods.Keeps {β : Type} (V : CoreMethods β) (I : Core β → Prop) : Prop where
  drive : ∀ c, I c → I (V.drive c).2
  update : ∀ c, I c → I (V.update c).2
  writeReg : ∀ c a data, I c → I (V.writeReg c a data)
  halt : ∀ (c : Core β) halt, I c → I { c with halt := halt }
  memif : ∀ (c : Core β) memif, I c → I { c with memif := memif }

namespace CoreMethods.Keeps

variable {β : Type} {V : CoreMethods β} {I : Core β → Prop} {args : SimArgs}

/-- A cycle keeps the property. -/
theorem cycle (h : V.Keeps I) (nw : Word) {c : Core β} (hc : I c) (p : Port) :
    I (V.cycle nw c p).core := by
  rw [CoreMethods.cycle]
  apply h.memif
  split
  · exact h.update _ (h.drive _ hc)
  · exact h.drive _ hc

/-- A cycle of the replica keeps the property. -/
theorem repCycle (h : V.Keeps I) {M : Machine 1 FunctionalState β} (hM : I (M.reps 0)) :
    I ((M.repCycle V 0).machine.reps 0) := by
  obtain ⟨-, -, hcore, -⟩ := M.repCycle_eq_cycle V 0
  rw [hcore]
  exact h.cycle _ hM _

/-- The verilated step keeps the property. -/
theorem verilatedStep (h : V.Keeps I) {M : Machine 1 FunctionalState β} (hM : I (M.reps 0))
    (cycleCount : Counter) : I ((VeriCross.verilatedStep args V M cycleCount).machine.reps 0) := by
  have hcycles : ∀ i (M : Machine 1 FunctionalState β) cycleCount, I (M.reps 0) →
      I ((verilatedCycles V i M cycleCount).machine.reps 0) := by
    intro i
    induction i with
    | zero => exact fun _ _ hM => hM
    | succ i ih =>
      intro M cycleCount hM
      rw [verilatedCycles]
      split
      · exact h.repCycle hM
      · exact ih _ _ (h.repCycle hM)
  have hrun := hcycles vcoreTimeout M cycleCount hM
  unfold VeriCross.verilatedStep
  dsimp only
  split
  · rw [Machine.haltRep, Machine.reps_setRep]
    exact h.halt _ _ hrun
  · exact hrun

/-- An iteration of concurrent execution keeps the property. -/
theorem concurrentBody (h : V.Keeps I) (host : Host) {s : ConcurrentState β}
    (hs : I (s.machine.reps 0)) : I ((concurrentBody args host V s).machine.reps 0) := by
  have hfunctional : I ((functionalStep args s.machine).machine.reps 0) := by
    rw [functionalStep]
    split <;> exact hs
  have hrun : I ((nextRun args V s).machine.reps 0) := h.verilatedStep hfunctional _
  rw [machine_concurrentBody]
  split
  · exact h.halt _ _ hrun
  · split
    · refine Machine.emulate_invariant (I := fun M => I (M.reps 0))
        (fun M hM data => h.writeReg _ _ data hM) (fun _ hM _ _ => hM) (fun _ hM _ => hM)
        (fun _ hM _ => hM) host hrun fun _ => h.halt _ _ hrun
    · exact hrun

/-- A property that resetting establishes and the methods keep holds in every run. -/
theorem of_reaches (h : V.Keeps I) (host : Host) {M : Machine 1 FunctionalState β}
    (hreset : I (V.reset (M.reps 0))) {k : ℕ} {s : ConcurrentState β}
    (hreach : (concurrentLoop args host V).Reaches (concurrentStart V M) k s) :
    I (s.machine.reps 0) := by
  refine hreach.invariant (I := fun _ s => I (s.machine.reps 0)) ?_
    fun _ _ _ _ hs => h.concurrentBody host hs
  rw [concurrentStart, Machine.reps_setRep]
  exact hreset

end CoreMethods.Keeps

section Wrapper

variable {τ : Type} (T : TopModule τ) (patch : CoreInstructionIF → τ → τ)

/-- Only resetting touches the reset input of a wrapper. -/
theorem CoreWrapper.keeps_rstX :
    (methods T patch).Keeps fun c => c.self.inputs.rstX = true where
  drive := by
    intro c hc
    change (CoreWrapper.drive T c).2.self.inputs.rstX = true
    rw [(drive_keeps c).2.2]
    exact hc
  update := by
    intro c hc
    change (CoreWrapper.update T patch c).2.self.inputs.rstX = true
    rw [CoreWrapper.update]
    split <;> exact hc
  writeReg := fun _ _ _ hc => hc
  halt := fun _ _ hc => hc
  memif := fun _ _ hc => hc

/-- A wrapper, out of reset and not stopped. -/
structure CoreWrapper.Runs (c : Core (WrapperState τ)) : Prop where
  halt : c.halt = false
  rstX : c.self.inputs.rstX = true

/-- A wrapper runs when its cycles in an iteration begin. -/
theorem CoreWrapper.runs_of_reaches {args : SimArgs} {host : Host}
    {M : Machine 1 FunctionalState (WrapperState τ)} {k : ℕ} {s : ConcurrentState (WrapperState τ)}
    (h : (concurrentLoop args host (methods T patch)).Reaches
      (concurrentStart (methods T patch) M) k s)
    (hguard : (concurrentLoop args host (methods T patch)).guard s = true) :
    Runs ((functionalStep args s.machine).machine.reps 0) := by
  have hreps : (functionalStep args s.machine).machine.reps = s.machine.reps := by
    rw [functionalStep]
    split <;> rfl
  rw [hreps]
  exact ⟨(concurrentLoop_guard.mp hguard).2, (keeps_rstX T patch).of_reaches host rfl h⟩

end Wrapper

end VeriCross
