import VeriCross.Memory.Ports
import VeriCross.Sim.Machine

/-!
# A cycle at the port of a core

A core of any class, as the first core or as a replica, makes one request in a cycle and is
answered in the same cycle. What the cycle does to the core and to its port does not depend on the
other cores.
-/

namespace VeriCross

/-- What a cycle of a core at its port leaves: the outcomes of `drive` and `update`, the core and
the port. -/
structure PortCycle (σ : Type) where
  driven : Bool
  updated : Bool
  core : Core σ
  port : Port

/-- A cycle of a core that has the memory for itself. -/
def CoreMethods.cycle {σ : Type} (V : CoreMethods σ) (nw : Word) (c : Core σ) (p : Port) :
    PortCycle σ :=
  let (driven, core) := V.drive c
  let req := core.memif
  let (updated, core) := if driven then V.update core else (false, core)
  let (port, memif) := p.cycle nw req core.memif
  { driven := driven, updated := updated, core := { core with memif := memif }, port := port }

namespace Machine

variable {n : ℕ} {α β : Type}

/-- A cycle of the first core is a cycle at its port. -/
theorem primCycle_eq_cycle (C : CoreClass α) (M : Machine n α β) :
    let c := (C M.mem.read).cycle M.mem.nwords M.prim (M.mem.port none)
    (M.primCycle C).driven = c.driven ∧ (M.primCycle C).updated = c.updated ∧
      (M.primCycle C).machine.prim = c.core ∧ (M.primCycle C).machine.mem.port none = c.port ∧
      (M.primCycle C).machine.mem.nwords = M.mem.nwords ∧
      (M.primCycle C).machine.sys = M.sys ∧ (M.primCycle C).machine.calls = M.calls := by
  let V := C M.mem.read
  let d := V.drive M.prim
  let u := if d.1 then V.update d.2 else (false, d.2)
  have hport : (((M.mem.drive d.2.memif).update u.2.memif).1.port none,
      ((M.mem.drive d.2.memif).update u.2.memif).2) =
      (M.mem.port none).cycle M.mem.nwords d.2.memif u.2.memif :=
    (M.mem.drive d.2.memif).port_update u.2.memif
  obtain ⟨hport, hmemif⟩ := Prod.ext_iff.mp hport
  refine ⟨rfl, rfl, ?_, hport, ?_, rfl, rfl⟩
  · exact congrArg (fun memif => { u.2 with memif := memif }) hmemif
  · exact Memory.nwords_update ..

/-- The replica that has been replaced. -/
theorem reps_setRep (M : Machine n α β) (i : Fin n) (core : Core β) :
    (M.setRep i core).reps i = core :=
  Function.update_self ..

/-- A cycle of a replica is a cycle at its port. -/
theorem repCycle_eq_cycle (V : CoreMethods β) (i : Fin n) (M : Machine n α β) :
    let c := V.cycle M.mem.nwords (M.reps i) (M.mem.port (some i))
    (M.repCycle V i).driven = c.driven ∧ (M.repCycle V i).updated = c.updated ∧
      (M.repCycle V i).machine.reps i = c.core ∧
      (M.repCycle V i).machine.mem.port (some i) = c.port ∧
      (M.repCycle V i).machine.mem.nwords = M.mem.nwords ∧
      (M.repCycle V i).machine.sys = M.sys ∧ (M.repCycle V i).machine.calls = M.calls := by
  let d := V.drive (M.reps i)
  let u := if d.1 then V.update d.2 else (false, d.2)
  let M₁ := (M.setRep i d.2).memDriveReplica
  let M₂ := M₁.setRep i u.2
  have hM₁ : M₁.reps i = d.2 := M.reps_setRep i d.2
  have hM₂ : M₂.reps i = u.2 := M₁.reps_setRep i u.2
  have hcycle : M.repCycle V i = ⟨d.1, u.1, M₂.memUpdateReplica⟩ := by
    rw [repCycle]
    change Cycle.mk d.1 (if d.1 then V.update (M₁.reps i) else (false, M₁.reps i)).1
      (M₁.setRep i (if d.1 then V.update (M₁.reps i) else (false, M₁.reps i)).2).memUpdateReplica =
      _
    rw [hM₁]
  have hport := M₂.mem.port_updateReplica (fun j => (M₂.reps j).memif) i
  have hrequest : (M.mem.port (some i)).cycle M.mem.nwords (M₂.mem.ifReps i) u.2.memif =
      (M.mem.port (some i)).cycle M.mem.nwords d.2.memif u.2.memif := by
    rw [← M.reps_setRep i d.2]
    rfl
  rw [hM₂] at hport
  obtain ⟨hport, hmemif⟩ := Prod.ext_iff.mp (hport.trans hrequest)
  rw [hcycle]
  refine ⟨rfl, rfl, ?_, hport, Memory.nwords_updateReplica .., rfl, rfl⟩
  change { M₂.reps i with
    memif := (M₂.mem.updateReplica fun j => (M₂.reps j).memif).2 i } = _
  rw [hM₂]
  exact congrArg (fun memif => { u.2 with memif := memif }) hmemif

end Machine

end VeriCross
