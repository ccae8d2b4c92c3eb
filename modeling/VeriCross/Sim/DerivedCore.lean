import VeriCross.Sim.CoreCycle
import VeriCross.Sim.Lockstep

/-!
# Derived classes of cores

A class of cores may add members to those of its base class and override some methods. As long as
the overriding methods do what those of the base class do, concurrent execution does the same with
either class: the state of one run is that of the other without the added members.
-/

namespace VeriCross

open RiscV SysCall

/-- The core without the members that its class adds. -/
def Core.upcast {σ' σ : Type} (f : σ' → σ) (c : Core σ') : Core σ := { c with self := f c.self }

namespace Machine

variable {n : ℕ} {α β' β : Type}

/-- The machine whose replicas are seen as cores of the base class. -/
def upcast (f : β' → β) (M : Machine n α β') : Machine n α β :=
  { M with reps := fun i => (M.reps i).upcast f }

/-- Replacing a replica. -/
theorem upcast_setRep (f : β' → β) (M : Machine n α β') (i : Fin n) (core : Core β') :
    (M.setRep i core).upcast f = (M.upcast f).setRep i (core.upcast f) := by
  have hreps : (fun j => (Function.update M.reps i core j).upcast f) =
      Function.update (fun j => (M.reps j).upcast f) i (core.upcast f) := by
    funext j
    by_cases hj : j = i
    · subst hj
      rw [Function.update_self, Function.update_self]
    · rw [Function.update_of_ne hj, Function.update_of_ne hj]
  rw [setRep, setRep, upcast, hreps]
  rfl

/-- Stopping a replica. -/
theorem upcast_haltRep (f : β' → β) (M : Machine n α β') (i : Fin n) :
    (M.haltRep i).upcast f = (M.upcast f).haltRep i :=
  M.upcast_setRep f i { M.reps i with halt := true }

/-- A cycle of a replica, from the results of its methods. -/
theorem repCycle_of {V : CoreMethods β} {i : Fin n} {M : Machine n α β} {d u : Bool × Core β}
    (hd : V.drive (M.reps i) = d)
    (hu : (if d.1 then V.update d.2 else (false, d.2)) = u) :
    M.repCycle V i =
      ⟨d.1, u.1, (((M.setRep i d.2).memDriveReplica).setRep i u.2).memUpdateReplica⟩ := by
  have hreps : ((M.setRep i d.2).memDriveReplica).reps i = d.2 := M.reps_setRep i d.2
  subst hd
  rw [← hreps] at hu
  rw [← hu]
  rfl

end Machine

/-- The cycles of an iteration, seen in the base class. -/
def VerilatedRun.upcast {β' β : Type} (f : β' → β) (v : VerilatedRun β') : VerilatedRun β :=
  { ok := v.ok, machine := v.machine.upcast f, cycleCount := v.cycleCount, retired := v.retired }

/-- The state of the loop, seen in the base class. -/
def ConcurrentState.upcast {β' β : Type} (f : β' → β) (s : ConcurrentState β') :
    ConcurrentState β :=
  { machine := s.machine.upcast f
    cycleCount := s.cycleCount
    logBuffer := s.logBuffer
    out := s.out
    log := s.log
    overflow := s.overflow
    rounds := s.rounds }

/-- The functional step does not look at the replicas. -/
theorem functionalStep_upcast {β' β : Type} (f : β' → β) (args : SimArgs)
    (M : Machine 1 FunctionalState β') :
    functionalStep args (M.upcast f) =
      ⟨(functionalStep args M).driven, (functionalStep args M).updated,
        (functionalStep args M).machine.upcast f⟩ := by
  unfold functionalStep
  change (if args.maxInsts ≤ (M.primCycle FunctionalCore.methods).machine.prim.cntInst ∨
    (M.primCycle FunctionalCore.methods).ok = false then _ else _) = _
  dsimp only
  split <;> rfl

/-- The result of a method, seen in the base class. -/
def upcastResult {σ' σ : Type} (f : σ' → σ) (r : Bool × Core σ') : Bool × Core σ :=
  (r.1, r.2.upcast f)

/-- A class whose methods do what those of the base class do, `update` and `reset` as long as fewer
than a number of instructions are retired. -/
structure CoreMethods.DerivesUntil {β' β : Type} (V' : CoreMethods β') (V : CoreMethods β)
    (f : β' → β) (limit : ℕ) : Prop where
  readReg : ∀ c a, V.readReg (c.upcast f) a = V'.readReg c a
  writeReg : ∀ c a data, V.writeReg (c.upcast f) a data = (V'.writeReg c a data).upcast f
  drive : ∀ c, V.drive (c.upcast f) = upcastResult f (V'.drive c)
  update : ∀ c, c.cntInst.toNat + 1 < limit → V.update (c.upcast f) = upcastResult f (V'.update c)
  reset : ∀ c, c.cntInst.toNat + 1 < limit → V.reset (c.upcast f) = (V'.reset c).upcast f

namespace CoreMethods.DerivesUntil

variable {β' β : Type} {V' : CoreMethods β'} {V : CoreMethods β} {f : β' → β} {limit : ℕ}
  (h : V'.DerivesUntil V f limit) {args : SimArgs} {host : Host}

include h

/-- A cycle of a replica. -/
theorem repCycle (hV' : V'.CountsRetired) {n : ℕ} {α : Type} {M : Machine n α β'} {i : Fin n}
    (hcnt : (M.reps i).cntInst.toNat + 1 < limit) :
    let c := M.repCycle V' i
    (M.upcast f).repCycle V i = ⟨c.driven, c.updated, c.machine.upcast f⟩ := by
  let d := V'.drive (M.reps i)
  let u := if d.1 then V'.update d.2 else (false, d.2)
  have hdrive : V.drive ((M.upcast f).reps i) = upcastResult f d := h.drive _
  have hupdate : (if d.1 then V.update (d.2.upcast f) else (false, d.2.upcast f)) =
      upcastResult f u := by
    have hcnt' : d.2.cntInst.toNat + 1 < limit := by
      rw [hV'.drive_cntInst]
      exact hcnt
    simp only [u]
    split
    · exact h.update _ hcnt'
    · rfl
  rw [Machine.repCycle_of (M := M) (d := d) (u := u) rfl rfl]
  rw [Machine.repCycle_of hdrive hupdate]
  simp only [upcastResult]
  congr 1
  rw [← Machine.upcast_setRep]
  change ((((M.setRep i d.2).memDriveReplica).upcast f).setRep i _).memUpdateReplica = _
  rw [← Machine.upcast_setRep]
  rfl

/-- The cycles of an iteration. -/
theorem verilatedCycles (hV' : V'.CountsRetired) (i : ℕ) {M : Machine 1 FunctionalState β'}
    (hcnt : (M.reps 0).cntInst.toNat + 1 < limit) (cycleCount : Counter) :
    VeriCross.verilatedCycles V i (M.upcast f) cycleCount =
      (VeriCross.verilatedCycles V' i M cycleCount).upcast f := by
  induction i generalizing M cycleCount with
  | zero => rfl
  | succ i ih =>
    have hcycle := h.repCycle hV' hcnt
    obtain ⟨-, hcount⟩ := M.repCycle_counts hV' 0
    rw [VeriCross.verilatedCycles, VeriCross.verilatedCycles]
    rw [hcycle]
    change (if ((M.repCycle V' 0).machine.reps 0).instif.valid ≠ 0 ∨
      (M.repCycle V' 0).ok = false then _ else _) = _
    dsimp only
    split
    · rfl
    · next hgo =>
      rw [not_or, not_not] at hgo
      apply ih
      rw [hcount, if_neg fun hretires => hretires.2 hgo.1]
      exact hcnt

/-- The verilated step. -/
theorem verilatedStep (hV' : V'.CountsRetired) {M : Machine 1 FunctionalState β'}
    (hcnt : (M.reps 0).cntInst.toNat + 1 < limit) (cycleCount : Counter) :
    VeriCross.verilatedStep args V (M.upcast f) cycleCount =
      (VeriCross.verilatedStep args V' M cycleCount).upcast f := by
  rw [VeriCross.verilatedStep, VeriCross.verilatedStep, h.verilatedCycles hV' vcoreTimeout hcnt]
  let v := VeriCross.verilatedCycles V' vcoreTimeout M cycleCount
  change (if args.maxInsts ≤ (v.machine.reps 0).cntInst ∨ v.ok = false ∨
    (v.machine.reps 0).instif.valid = 0 then _ else _) = _
  split
  · change VerilatedRun.mk v.ok ((v.machine.upcast f).haltRep 0) v.cycleCount v.retired = _
    rw [← Machine.upcast_haltRep]
    rfl
  · rfl

/-- An emulated call. -/
theorem emulate (host : Host) (M : Machine 1 FunctionalState β') :
    (M.upcast f).emulate host FunctionalCore.registers V.toRegisterMethods =
      (M.emulate host FunctionalCore.registers V'.toRegisterMethods).upcast f := by
  let S (M' : Machine 1 FunctionalState β') (M : Machine 1 FunctionalState β) : Prop :=
    M = M'.upcast f
  have hS : Machine.EmulationRel FunctionalCore.registers V'.toRegisterMethods
      FunctionalCore.registers V.toRegisterMethods S :=
    { readReg := fun hM _ => hM ▸ rfl
      cntInst := fun hM => hM ▸ rfl
      read := fun hM => hM ▸ rfl
      sys := fun hM => hM ▸ rfl
      calls := fun hM => hM ▸ rfl
      writeReg := by
        intro M' M hM data
        subst hM
        have hreps : (fun i => V.writeReg ((M'.reps i).upcast f) regA0 data) =
            fun i => (V'.writeReg (M'.reps i) regA0 data).upcast f :=
          funext fun i => h.writeReg _ _ _
        change Machine.mk _ (fun i => V.writeReg ((M'.reps i).upcast f) regA0 data) _ _ _ = _
        rw [hreps]
        rfl
      memWrite := fun hM _ _ => hM ▸ rfl
      setSys := fun hM _ => hM ▸ rfl
      call := fun hM _ => hM ▸ rfl }
  exact hS.emulate host rfl fun _ => rfl

/-- An iteration. -/
theorem concurrentBody (hV' : V'.CountsRetired) {s : ConcurrentState β'}
    (hcnt : (s.machine.reps 0).cntInst.toNat + 1 < limit) :
    VeriCross.concurrentBody args host V (s.upcast f) =
      (VeriCross.concurrentBody args host V' s).upcast f := by
  let M := (functionalStep args s.machine).machine
  let v := VeriCross.verilatedStep args V' M s.cycleCount
  have hreps : (M.reps 0).cntInst = (s.machine.reps 0).cntInst := by
    simp only [M, functionalStep]
    split <;> rfl
  have hf : functionalStep args (s.upcast f).machine =
      ⟨(functionalStep args s.machine).driven, (functionalStep args s.machine).updated,
        M.upcast f⟩ := functionalStep_upcast f args s.machine
  have hv : VeriCross.verilatedStep args V (M.upcast f) (s.upcast f).cycleCount = v.upcast f :=
    h.verilatedStep hV' (by rw [hreps]; exact hcnt) s.cycleCount
  have hemulate := h.emulate host v.machine
  rw [VeriCross.concurrentBody, VeriCross.concurrentBody]
  rw [hf]
  dsimp only
  rw [hv]
  change (if (Validator.validate v.machine.prim.instif (v.machine.reps 0).instif).1 = false then
    _ else _) = _
  split
  · rfl
  · change ConcurrentState.mk (if _ then (v.machine.upcast f).emulate _ _ _ else
      v.machine.upcast f) _ _ _ _ _ _ = _
    rw [hemulate]
    rw [← apply_ite (Machine.upcast f)]
    rfl

/-- The start of a run. -/
theorem concurrentStart {M : Machine 1 FunctionalState β'}
    (hcnt : (M.reps 0).cntInst.toNat + 1 < limit) :
    VeriCross.concurrentStart V (M.upcast f) = (VeriCross.concurrentStart V' M).upcast f := by
  rw [VeriCross.concurrentStart, VeriCross.concurrentStart]
  change ConcurrentState.mk ((M.upcast f).setRep 0 (V.reset ((M.reps 0).upcast f))) _ _ _ _ _ _ = _
  rw [h.reset _ hcnt]
  rw [← Machine.upcast_setRep]
  rfl

/-- A run with the derived class is one with the base class, and every run with the base class is
one of these, as long as fewer iterations are completed than instructions are allowed. -/
theorem reaches (hV' : V'.CountsRetired) {M : Machine 1 FunctionalState β'} (hboot : Booted M)
    (hlimit : 1 < limit) (args : SimArgs) (host : Host) {k : ℕ} (hk : k < limit) :
    (∀ s, (concurrentLoop args host V').Reaches (VeriCross.concurrentStart V' M) k s →
      (concurrentLoop args host V).Reaches (VeriCross.concurrentStart V (M.upcast f)) k
        (s.upcast f)) ∧
    ∀ t, (concurrentLoop args host V).Reaches (VeriCross.concurrentStart V (M.upcast f)) k t →
      ∃ s, (concurrentLoop args host V').Reaches (VeriCross.concurrentStart V' M) k s ∧
        t = s.upcast f := by
  have hzero : (M.reps 0).cntInst.toNat + 1 < limit := by
    rw [hboot.repCnt]
    exact hlimit
  have hstart := h.concurrentStart hzero
  -- the guard does not look at the added members
  have hbody : ∀ {k s}, k + 1 < limit →
      (concurrentLoop args host V').Reaches (VeriCross.concurrentStart V' M) k s →
      (concurrentLoop args host V').guard s = true →
      VeriCross.concurrentBody args host V (s.upcast f) =
        (VeriCross.concurrentBody args host V' s).upcast f := by
    intro k s hk hreach hguard
    have hlockstep := (inLockstep_of_reaches hV' hboot hreach).2 hguard
    exact h.concurrentBody hV' (by rw [hlockstep.repCnt]; exact hk)
  induction k with
  | zero =>
    constructor
    · intro s hreach
      cases hreach
      rw [← hstart]
      exact .start
    · intro t hreach
      cases hreach
      exact ⟨_, .start, hstart⟩
  | succ k ih =>
    obtain ⟨hforth, hback⟩ := ih (Nat.lt_of_succ_lt hk)
    constructor
    · intro s hreach
      obtain ⟨u, hu, hguard, rfl⟩ := WhileLoop.reaches_succ_iff.mp hreach
      change (concurrentLoop args host V).Reaches _ _
        ((VeriCross.concurrentBody args host V' u).upcast f)
      rw [← hbody hk hu hguard]
      exact (hforth u hu).next hguard
    · intro t hreach
      obtain ⟨u, hu, hguard, rfl⟩ := WhileLoop.reaches_succ_iff.mp hreach
      obtain ⟨s, hs, rfl⟩ := hback u hu
      exact ⟨_, hs.next hguard, hbody hk hs hguard⟩

end CoreMethods.DerivesUntil

end VeriCross
