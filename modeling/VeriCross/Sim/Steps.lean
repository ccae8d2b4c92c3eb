import VeriCross.Sim.Concurrent

/-!
# What the two steps of an iteration can do

The functional step retires the fetched instruction or stops the functional core. The verilated
step retires one instruction or stops the verilated core, however many cycles that takes, and
reaches nothing that the functional core can observe.
-/

namespace VeriCross

variable {β : Type} {args : SimArgs} {host : Host} {V : CoreMethods β}

/-! The guard. -/

/-- The main loop goes on while both cores run. -/
theorem concurrentLoop_guard {s : ConcurrentState β} :
    (concurrentLoop args host V).guard s = true ↔
      s.machine.prim.halt = false ∧ (s.machine.reps 0).halt = false := by
  change (!s.machine.prim.halt && !(s.machine.reps 0).halt) = true ↔ _
  simp

/-- The main loop is left when a core has stopped. -/
theorem concurrentLoop_exit {s : ConcurrentState β} :
    (concurrentLoop args host V).guard s = false ↔
      s.machine.prim.halt = true ∨ (s.machine.reps 0).halt = true := by
  change (!s.machine.prim.halt && !(s.machine.reps 0).halt) = false ↔ _
  rw [Bool.and_eq_false_iff, Bool.not_eq_false', Bool.not_eq_false']

/-! The functional step. -/

/-- The memory carries out the request of the first core on the words that this core sees. -/
theorem Machine.view_memUpdate {n : ℕ} (M : Machine n FunctionalState β)
    (core : Core FunctionalState) : ((M.setPrim core).memDrive.memUpdate).mem.view none =
      WordMap.request M.mem.nwords core.memif (M.mem.view none) := by
  change ((M.mem.drive core.memif).update core.memif).1.view none = _
  rw [Memory.view_update, Function.update_self]
  rfl

/-- Carrying out a request keeps the number of words. -/
theorem Machine.nwords_memUpdate {n : ℕ} (M : Machine n FunctionalState β)
    (core : Core FunctionalState) :
    ((M.setPrim core).memDrive.memUpdate).mem.nwords = M.mem.nwords :=
  Memory.nwords_update ..

/-- A cycle of the functional core: `update` succeeds after `drive` did and changes nothing. -/
theorem primCycle_functional {n : ℕ} (M : Machine n FunctionalState β) :
    M.primCycle FunctionalCore.methods =
      { driven := (FunctionalCore.drive M.mem.read M.prim).1
        updated := (FunctionalCore.drive M.mem.read M.prim).1
        machine :=
          (M.setPrim (FunctionalCore.drive M.mem.read M.prim).2).memDrive.memUpdate } := by
  have hupdate := FunctionalCore.update_of_drive M.mem.read M.prim
  change Cycle.mk (FunctionalCore.drive M.mem.read M.prim).1
    (if (FunctionalCore.drive M.mem.read M.prim).1 then
      FunctionalCore.update (FunctionalCore.drive M.mem.read M.prim).2
      else (false, (FunctionalCore.drive M.mem.read M.prim).2)).1
    (((M.setPrim (FunctionalCore.drive M.mem.read M.prim).2).memDrive.setPrim
      (if (FunctionalCore.drive M.mem.read M.prim).1 then
        FunctionalCore.update (FunctionalCore.drive M.mem.read M.prim).2
        else (false, (FunctionalCore.drive M.mem.read M.prim).2)).2).memUpdate) = _
  cases hd : (FunctionalCore.drive M.mem.read M.prim).1 with
  | false => rfl
  | true =>
    rw [if_pos rfl, hupdate hd]
    rfl

/-- A cycle of the functional core in which `drive` succeeds: nothing fails, and the record is a
valid one of the fetched word. -/
theorem primCycle_retires {n : ℕ} {M : Machine n FunctionalState β}
    (hdriven : (M.primCycle FunctionalCore.methods).driven = true) :
    (M.primCycle FunctionalCore.methods).ok = true ∧
      (M.primCycle FunctionalCore.methods).machine.prim.instif.valid = 1 ∧
      (M.primCycle FunctionalCore.methods).machine.prim.instif.ir =
        FunctionalCore.fetch M.mem.read M.prim := by
  rw [primCycle_functional] at hdriven ⊢
  obtain ⟨hvalid, -, hir⟩ := FunctionalCore.drive_instif _ _ hdriven
  refine ⟨?_, hvalid, hir⟩
  rw [Cycle.ok, Bool.and_self]
  exact hdriven

/-- A cycle of the functional core does not touch the halt flag. -/
theorem primCycle_halt {n : ℕ} (M : Machine n FunctionalState β) :
    (M.primCycle FunctionalCore.methods).machine.prim.halt = M.prim.halt := by
  rw [primCycle_functional]
  exact FunctionalCore.drive_halt M.mem.read M.prim

/-- What the functional step does to a running core bound to the memory: it retires the fetched
instruction, and stops at the instruction limit, or it refuses the word and stops. -/
structure FunctionalSpec (args : SimArgs) (M : Machine 1 FunctionalState β)
    (f : Cycle 1 FunctionalState β) : Prop where
  driven : f.driven = true ↔ (FunctionalCore.instruction M.mem.read M.prim).instrId ≠ .unknown
  cntInst : f.machine.prim.cntInst = if f.driven then M.prim.cntInst + 1 else M.prim.cntInst
  halt : f.machine.prim.halt = (decide (args.maxInsts ≤ f.machine.prim.cntInst) || !f.driven)
  instif : f.driven = true → f.machine.prim.instif.valid = 1 ∧
    f.machine.prim.instif.ir = FunctionalCore.fetch M.mem.read M.prim
  stale : f.driven = false → f.machine.prim.instif = { M.prim.instif with valid := 0 }
  memory : f.machine.prim.self.memory = true
  reps : f.machine.reps = M.reps

/-- On a running core the functional step is a cycle with the halt flag set from its outcome. -/
theorem functionalStep_eq {M : Machine 1 FunctionalState β} (hhalt : M.prim.halt = false) :
    functionalStep args M =
      let c := M.primCycle FunctionalCore.methods
      { c with
        machine := c.machine.setPrim
          { c.machine.prim with
            halt := decide (args.maxInsts ≤ c.machine.prim.cntInst) || !c.driven } } := by
  have hkeep : (M.primCycle FunctionalCore.methods).machine.prim.halt = false :=
    (primCycle_halt M).trans hhalt
  have hok : (M.primCycle FunctionalCore.methods).ok =
      (M.primCycle FunctionalCore.methods).driven := by
    rw [primCycle_functional]
    exact Bool.and_self _
  rw [functionalStep]
  dsimp only
  rw [hok]
  generalize M.primCycle FunctionalCore.methods = c at hkeep
  have hset : (decide (args.maxInsts ≤ c.machine.prim.cntInst) || !c.driven) =
      (decide (args.maxInsts ≤ c.machine.prim.cntInst ∨ c.driven = false) ||
        c.machine.prim.halt) := by
    rw [hkeep, Bool.or_false, Bool.decide_or]
    cases c.driven <;> rfl
  rw [hset, ← Machine.ite_haltPrim]
  split <;> rfl

variable (args) in
/-- The functional step meets its description. -/
theorem functionalStep_spec {M : Machine 1 FunctionalState β} (hhalt : M.prim.halt = false)
    (hmemory : M.prim.self.memory = true) : FunctionalSpec args M (functionalStep args M) := by
  have hready : FunctionalCore.ready M.prim = true := by simp [FunctionalCore.ready, hhalt, hmemory]
  have hrecord := FunctionalCore.drive_instif M.mem.read M.prim
  rw [functionalStep_eq hhalt, primCycle_functional]
  exact
    { driven := by
        rw [FunctionalCore.drive_fst, hready]
        exact and_iff_right rfl
      cntInst := FunctionalCore.drive_cntInst M.mem.read M.prim
      halt := rfl
      instif := fun h => ⟨(hrecord h).1, (hrecord h).2.2⟩
      stale := fun h => congrArg Core.instif (FunctionalCore.drive_refused _ _ hready h)
      memory := (FunctionalCore.drive_memory M.mem.read M.prim).trans hmemory
      reps := rfl }

/-! The verilated step. -/

namespace Machine

variable {n : ℕ} {α : Type}

/-- The machines are the same for the first core: only replicas, their buffers and the interface
copies of the memory may differ. -/
structure SamePrimary (M M' : Machine n α β) : Prop where
  prim : M'.prim = M.prim
  view : M'.mem.view none = M.mem.view none
  nwords : M'.mem.nwords = M.mem.nwords
  sys : M'.sys = M.sys
  calls : M'.calls = M.calls

/-- A cycle of a replica does not reach the first core. -/
theorem samePrimary_repCycle (i : Fin n) (M : Machine n α β) :
    M.SamePrimary (M.repCycle V i).machine where
  prim := rfl
  view := Memory.view_updateReplica _ _ none
  nwords := Memory.nwords_updateReplica ..
  sys := rfl
  calls := rfl

/-- Machines that are the same for the first core, in a row. -/
theorem SamePrimary.trans {M M' M'' : Machine n α β} (h : M.SamePrimary M')
    (h' : M'.SamePrimary M'') : M.SamePrimary M'' where
  prim := h'.prim.trans h.prim
  view := h'.view.trans h.view
  nwords := h'.nwords.trans h.nwords
  sys := h'.sys.trans h.sys
  calls := h'.calls.trans h.calls

/-- A cycle of a replica counts an instruction exactly when it succeeds and leaves a valid
record. -/
theorem repCycle_counts (hV : V.CountsRetired) (i : Fin n) (M : Machine n α β) :
    ((M.repCycle V i).machine.reps i).halt = (M.reps i).halt ∧
      ((M.repCycle V i).machine.reps i).cntInst =
        if (M.repCycle V i).ok = true ∧ ((M.repCycle V i).machine.reps i).instif.valid ≠ 0 then
          (M.reps i).cntInst + 1
        else (M.reps i).cntInst := by
  have hrep : ∀ (N : Machine n α β) core, (N.setRep i core).reps i = core :=
    fun N core => Function.update_self ..
  have hhalt := hV.drive_halt (M.reps i)
  have hcnt := hV.drive_cntInst (M.reps i)
  rw [repCycle, Cycle.ok]
  dsimp only [memUpdateReplica, memDriveReplica]
  simp only [hrep]
  cases hd : (V.drive (M.reps i)).1 with
  | false => simp [hhalt, hcnt]
  | true => simp [hV.update_halt, hV.update_cntInst, hhalt, hcnt]

end Machine

/-- What the cycles of the verilated core can do: retire one instruction, or fail or run out of
cycles without one. -/
theorem verilatedCycles_spec (hV : V.CountsRetired) (i : ℕ) (M : Machine 1 FunctionalState β)
    (cycleCount : Counter) (hvalid : i = 0 → (M.reps 0).instif.valid = 0) :
    let v := verilatedCycles V i M cycleCount
    let core := v.machine.reps 0
    core.halt = (M.reps 0).halt ∧
      ((v.retired = [] ∧ core.cntInst = (M.reps 0).cntInst ∧
          (v.ok = false ∨ core.instif.valid = 0)) ∨
        (v.retired = [core.instif] ∧ core.cntInst = (M.reps 0).cntInst + 1 ∧
          v.ok = true ∧ core.instif.valid ≠ 0)) := by
  induction i generalizing M cycleCount with
  | zero => exact ⟨rfl, .inl ⟨rfl, rfl, .inr (hvalid rfl)⟩⟩
  | succ i ih =>
    obtain ⟨hhalt, hcnt⟩ := M.repCycle_counts hV 0
    rw [verilatedCycles]
    dsimp only
    split
    · next hleave =>
      refine ⟨hhalt, ?_⟩
      dsimp only
      rw [hcnt]
      cases hok : (M.repCycle V 0).ok with
      | false => exact .inl ⟨rfl, by simp, .inl rfl⟩
      | true =>
        have hone : ((M.repCycle V 0).machine.reps 0).instif.valid ≠ 0 := by
          simpa [hok] using hleave
        exact .inr ⟨rfl, if_pos ⟨rfl, hone⟩, rfl, hone⟩
    · next hgo =>
      rw [not_or, not_not] at hgo
      have hsame : ((M.repCycle V 0).machine.reps 0).cntInst = (M.reps 0).cntInst := by
        rw [hcnt, if_neg fun h => h.2 hgo.1]
      have hrest := ih (M.repCycle V 0).machine (cycleCount + 1) fun _ => hgo.1
      dsimp only at hrest
      rwa [hhalt, hsame] at hrest

/-- The cycles of the verilated core do not reach the functional core. -/
theorem samePrimary_verilatedCycles (i : ℕ) (M : Machine 1 FunctionalState β)
    (cycleCount : Counter) : M.SamePrimary (verilatedCycles V i M cycleCount).machine := by
  induction i generalizing M cycleCount with
  | zero => exact ⟨rfl, rfl, rfl, rfl, rfl⟩
  | succ i ih =>
    unfold verilatedCycles
    dsimp only
    split
    · exact M.samePrimary_repCycle 0
    · exact (M.samePrimary_repCycle 0).trans (ih _ _)

/-- The verilated step does not reach the functional core. -/
theorem samePrimary_verilatedStep (M : Machine 1 FunctionalState β) (cycleCount : Counter) :
    M.SamePrimary (verilatedStep args V M cycleCount).machine := by
  have h := samePrimary_verilatedCycles (V := V) vcoreTimeout M cycleCount
  unfold verilatedStep
  dsimp only
  split
  · exact ⟨h.prim, h.view, h.nwords, h.sys, h.calls⟩
  · exact h

/-- What the verilated step does to a running core: it retires one instruction, and stops at the
instruction limit, or it retires none and stops. -/
structure VerilatedSpec (args : SimArgs) (M : Machine 1 FunctionalState β) (v : VerilatedRun β) :
    Prop where
  retired : v.retired = [] ∨ v.retired = [(v.machine.reps 0).instif]
  cntInst : (v.machine.reps 0).cntInst =
    if v.retired = [] then (M.reps 0).cntInst else (M.reps 0).cntInst + 1
  halt : (v.machine.reps 0).halt =
    (decide (args.maxInsts ≤ (v.machine.reps 0).cntInst) || decide (v.retired = []))

/-- The verilated step meets its description. -/
theorem verilatedStep_spec (hV : V.CountsRetired) {M : Machine 1 FunctionalState β}
    (hhalt : (M.reps 0).halt = false) (cycleCount : Counter) :
    VerilatedSpec args M (verilatedStep args V M cycleCount) := by
  obtain ⟨hkeep, hcases⟩ := verilatedCycles_spec hV vcoreTimeout M cycleCount
    fun h => absurd h (by decide)
  rw [hhalt] at hkeep
  have hrep : ∀ N : Machine 1 FunctionalState β,
      (N.haltRep 0).reps 0 = { N.reps 0 with halt := true } := by
    intro N
    exact Function.update_self (0 : Fin 1) _ N.reps
  unfold verilatedStep
  dsimp only
  rcases hcases with ⟨hnone, hcnt, hstop⟩ | ⟨hone, hcnt, hok, hvalid⟩
  · rw [if_pos (.inr hstop)]
    exact
      { retired := .inl hnone
        cntInst := by rw [if_pos hnone, hrep]; exact hcnt
        halt := by rw [hrep]; simp [hnone] }
  · have hne : (verilatedCycles V vcoreTimeout M cycleCount).retired ≠ [] := by simp [hone]
    by_cases hlast : args.maxInsts ≤
        ((verilatedCycles V vcoreTimeout M cycleCount).machine.reps 0).cntInst
    · rw [if_pos (.inl hlast)]
      exact
        { retired := .inr (by rw [hrep]; exact hone)
          cntInst := by rw [if_neg hne, hrep]; exact hcnt
          halt := by rw [hrep]; simp [hlast] }
    · rw [if_neg (not_or.mpr ⟨hlast, not_or.mpr ⟨by simp [hok], hvalid⟩⟩)]
      exact
        { retired := .inr hone
          cntInst := by rw [if_neg hne]; exact hcnt
          halt := by simp [hlast, hne, hkeep] }

end VeriCross
