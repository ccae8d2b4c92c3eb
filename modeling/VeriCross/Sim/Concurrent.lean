import VeriCross.Library.WhileLoop
import VeriCross.Sim.Machine
import VeriCross.Validator

/-!
# Concurrent execution

`sim_concurrent` runs the functional core for one instruction, then the verilated core for at
most `VCORE_TIMEOUT` cycles until it has retired one, and compares the records of both. The
state carries, beside what the source keeps, one `Round` for each iteration: what either core
retired, what was compared, and which system call was emulated.
-/

namespace VeriCross

/-- A line printed to the standard output. -/
inductive Line
  | mismatch (cntInst : Counter)
  | address (faddr vaddr : Word)
  | writeData (fdata vdata : Word)
  | history (label : ℕ) (log : String)
  | functional (log : String)
  | verilated (log : String)
  | halted (core : String)
  deriving DecidableEq

/-- The text of a line. -/
def Line.text : Line → String
  | .mismatch cntInst => s!"## failure: detected mismatch @ instruction {cntInst.toInt}\n"
  | .address faddr vaddr =>
    let f := padLeft 8 '0' (hex faddr.toNat)
    let v := padLeft 8 '0' (hex vaddr.toNat)
    s!"## (address mismatch   : Functional {f}, Verilated {v})\n"
  | .writeData fdata vdata =>
    let f := padLeft 8 '0' (hex fdata.toNat)
    let v := padLeft 8 '0' (hex vdata.toNat)
    s!"## (write data mismatch: Functional {f}, Verilated {v})\n"
  | .history label log =>
    let number := padLeft 9 ' ' (toString label)
    s!"## {number} : {log}"
  | .functional log => s!"## Functional: {log}"
  | .verilated log => s!"## Verilated : {log}"
  | .halted core => s!"## failure: {core} core stopped but the other didn't.\n"

/-- The line reports a failure. -/
def Line.isFailure : Line → Bool
  | .mismatch _ => true
  | .halted _ => true
  | _ => false

/-- One iteration of the main loop: the record the functional core retired, the records the
verilated core retired, the compared pair, the verdict and the number of the emulated call. -/
structure Round where
  functional : Option CoreInstructionIF
  verilated : List CoreInstructionIF
  fif : CoreInstructionIF
  vif : CoreInstructionIF
  accepted : Bool
  emulated : Option Word
  deriving DecidableEq

/-- The variables of `sim_concurrent`, the output, and the rounds so far. When an index into the
ring buffer has overflowed, the behaviour is undefined from there on: the mismatch is already
printed, and the rest of the report means nothing. -/
structure ConcurrentState (β : Type) where
  machine : Machine 1 FunctionalState β
  cycleCount : Counter
  logBuffer : ℕ → Option RiscVLogInfo
  out : List Line
  log : List String
  overflow : Bool
  rounds : List Round

/-- The cycles of the verilated core in one iteration. -/
structure VerilatedRun (β : Type) where
  ok : Bool
  machine : Machine 1 FunctionalState β
  cycleCount : Counter
  retired : List CoreInstructionIF

section Loop

variable {β : Type} (args : SimArgs) (host : Host) (V : CoreMethods β)

/-- Execute exactly one instruction with the functional core. -/
def functionalStep (M : Machine 1 FunctionalState β) : Cycle 1 FunctionalState β :=
  let c := M.primCycle FunctionalCore.methods
  if args.maxInsts ≤ c.machine.prim.cntInst ∨ c.ok = false then
    { c with machine := c.machine.haltPrim }
  else c

/-- Run the verilated core until an instruction comes or the cycles are used up. -/
def verilatedCycles : ℕ → Machine 1 FunctionalState β → Counter → VerilatedRun β
  | 0, M, cycleCount => { ok := true, machine := M, cycleCount := cycleCount, retired := [] }
  | i + 1, M, cycleCount =>
    let c := M.repCycle V 0
    let iif := (c.machine.reps 0).instif
    if iif.valid ≠ 0 ∨ c.ok = false then
      { ok := c.ok
        machine := c.machine
        cycleCount := cycleCount
        retired := if c.ok then [iif] else [] }
    else verilatedCycles i c.machine (cycleCount + 1)

/-- Run the verilated core until it retires an instruction, and stop it when it does not. -/
def verilatedStep (M : Machine 1 FunctionalState β) (cycleCount : Counter) : VerilatedRun β :=
  let r := verilatedCycles V vcoreTimeout M cycleCount
  if args.maxInsts ≤ (r.machine.reps 0).cntInst ∨ r.ok = false ∨
      (r.machine.reps 0).instif.valid = 0 then
    { r with machine := r.machine.haltRep 0 }
  else r

/-- The index `(start + i) % mismatch_insts`. There is none when the sum, an `int`, overflows. -/
def historyIndex (start i : ℕ) : Option ℕ :=
  if start + i < 0x80000000 then some ((start + i) % args.mismatchInsts.toNat) else none

/-- The last instructions of the functional core, oldest first, unless an index overflows. -/
def historyLines (logBuffer : ℕ → Option RiscVLogInfo) (cntInst : Counter) :
    Option (List Line) :=
  let n := args.mismatchInsts.toNat
  let start := cntInst.toNat % n
  let lines := (List.range n).mapM fun i =>
    (historyIndex args start i).map fun idx =>
      (logBuffer idx).map fun info => Line.history (n - i) info.getLog.1
  lines.map (List.filterMap id)

/-- The report of a mismatch. -/
def mismatchLines (logBuffer : ℕ → Option RiscVLogInfo) (vld : Validator)
    (M : Machine 1 FunctionalState β) : List Line :=
  [.mismatch M.prim.cntInst] ++
    (if vld.addressMis then [.address vld.faddr vld.vaddr] else []) ++
    (if vld.writeDataMis then [.writeData vld.fdata vld.vdata] else []) ++
    (if 0 < args.mismatchInsts.toInt then (historyLines args logBuffer M.prim.cntInst).getD []
      else []) ++
    [.functional (RiscVLogInfo.new M.mem.read M.prim.instif).getLog.1,
      .verilated (RiscVLogInfo.new M.mem.read (M.reps 0).instif).getLog.1]

/-- An index overflows in the report of a mismatch. -/
def reportOverflows (logBuffer : ℕ → Option RiscVLogInfo) (M : Machine 1 FunctionalState β) :
    Bool :=
  decide (0 < args.mismatchInsts.toInt) && (historyLines args logBuffer M.prim.cntInst).isNone

/-- The body of the main loop. The loop is left after a mismatch because both cores are
stopped. -/
def concurrentBody (s : ConcurrentState β) : ConcurrentState β :=
  let f := functionalStep args s.machine
  let v := verilatedStep args V f.machine s.cycleCount
  let M := v.machine
  let fif := M.prim.instif
  let vif := (M.reps 0).instif
  let verdict := Validator.validate fif vif
  let emulates := verdict.1 && decide (fif.ir = 0x00000073)
  let round : Round :=
    { functional := if f.driven then some f.machine.prim.instif else none
      verilated := v.retired
      fif := fif
      vif := vif
      accepted := verdict.1
      emulated := if emulates then some (M.readReg FunctionalCore.registers RiscV.regA7) else none }
  if verdict.1 = false then
    { s with
      machine := M.haltCores
      cycleCount := v.cycleCount
      out := s.out ++ mismatchLines args s.logBuffer verdict.2 M
      overflow := s.overflow || reportOverflows args s.logBuffer M
      rounds := s.rounds ++ [round] }
  else
    let info := RiscVLogInfo.new M.mem.read fif
    { machine :=
        if emulates then M.emulate host FunctionalCore.registers V.toRegisterMethods else M
      cycleCount := v.cycleCount
      logBuffer :=
        if 0 < args.mismatchInsts.toInt then
          Function.update s.logBuffer (M.prim.cntInst.toNat % args.mismatchInsts.toNat) (some info)
        else s.logBuffer
      out := s.out
      log := if args.log then s.log ++ [info.getLog.1] else s.log
      overflow := s.overflow
      rounds := s.rounds ++ [round] }

/-- The main loop. -/
def concurrentLoop : WhileLoop (ConcurrentState β) where
  guard := fun s => !s.machine.prim.halt && !(s.machine.reps 0).halt
  body := concurrentBody args host V

/-- The state at the loop head after both cores were reset. -/
def concurrentStart (M : Machine 1 FunctionalState β) : ConcurrentState β where
  machine := M.setRep 0 (V.reset (M.reps 0))
  cycleCount := 0
  logBuffer := fun _ => none
  out := []
  log := []
  overflow := false
  rounds := []

/-- The report when only one of the cores stopped. -/
def concurrentFinish (s : ConcurrentState β) : List Line :=
  let fhalt := s.machine.prim.halt
  let vhalt := (s.machine.reps 0).halt
  if fhalt ^^ vhalt then s.out ++ [.halted (if fhalt then "Functional" else "Verilated")]
  else s.out

end Loop

end VeriCross
