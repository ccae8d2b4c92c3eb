import VeriCross.Library.WhileLoop
import VeriCross.Sim.Machine

/-!
# Single execution

`sim_single` runs one core, of any class, on a memory without replicas.
-/

namespace VeriCross

/-- The variables of `sim_single` and the log. -/
structure SingleState (α : Type) where
  machine : Machine 0 α α
  cycleCount : Counter
  log : List String

section Loop

variable {α : Type} (args : SimArgs) (host : Host) (C : CoreClass α)

/-- The body of the main loop. -/
def singleBody (s : SingleState α) : SingleState α :=
  let c := s.machine.memDrive.primCycle C
  let M := c.machine
  let registers := (C M.mem.read).toRegisterMethods
  let line := (RiscVLogInfo.new M.mem.read M.prim.instif).getLog.1
  let M :=
    if M.prim.instif.valid ≠ 0 ∧ M.prim.instif.ir = 0x00000073 then
      M.emulate host registers registers
    else M
  { machine := if args.maxInsts ≤ M.prim.cntInst ∨ c.ok = false then M.haltPrim else M
    cycleCount := s.cycleCount + 1
    log := if args.log then s.log ++ [line] else s.log }

/-- The main loop. -/
def singleLoop : WhileLoop (SingleState α) where
  guard := fun s => !s.machine.prim.halt
  body := singleBody args host C

/-- The state at the loop head after the core was reset. -/
def singleStart (M : Machine 0 α α) : SingleState α where
  machine := M.setPrim ((C M.mem.read).reset M.prim)
  cycleCount := 0
  log := []

/-- The main loop goes on while the core runs. -/
theorem singleLoop_guard {s : SingleState α} :
    (singleLoop args host C).guard s = true ↔ s.machine.prim.halt = false := by
  change (!s.machine.prim.halt) = true ↔ _
  rw [Bool.not_eq_true']

end Loop

end VeriCross
