import VeriCross.CommandLine.Model
import VeriCross.KronosCoreFaulty
import VeriCross.Loader.Model
import VeriCross.Sim.Alone

/-!
# The main function

`main` checks the command line, makes the cores, loads the image and calls one of the two main
loops. It reports the number of instructions that the first core retired, and its exit status says
whether the simulation took place, not what came out of it. The time that the simulation took is
not part of the output here.
-/

namespace VeriCross

/-- A verilated core: its class and the object that `new` makes. -/
structure VerilatedCore where
  State : Type
  methods : CoreMethods State
  new : Core State

/-- What the objects of `main` are made from: the modules that Verilator generated, the generator of
the faults, and what the interfaces contain that no constructor sets. -/
structure Build (τ υ ρ : Type) where
  kronosTop : TopModule τ
  newKronosTop : τ
  rvcorepMain : TopModule υ
  newRvcorepMain : υ
  faults : FaultSource ρ
  rng : ρ
  functionalInstif : CoreInstructionIF
  functionalMemif : CoreMemoryIF
  verilatedInstif : CoreInstructionIF
  verilatedMemif : CoreMemoryIF
  ifPrim : CoreMemoryIF
  ifRep : CoreMemoryIF

/-- The cores of a simulation. -/
inductive Cores
  | functional
  | verilated (V : VerilatedCore)
  | concurrent (V : VerilatedCore)

namespace Build

variable {τ υ ρ : Type} (B : Build τ υ ρ)

/-- The core of a model. -/
def core (coreType : String) : Option VerilatedCore :=
  if coreType = "kronos" then
    some ⟨_, KronosCore.methods B.kronosTop,
      CoreWrapper.new B.verilatedInstif B.verilatedMemif B.newKronosTop⟩
  else if coreType = "kronos_faulty" then
    some ⟨_, KronosCoreFaulty.methods B.kronosTop B.faults,
      KronosCoreFaulty.new B.verilatedInstif B.verilatedMemif B.newKronosTop B.rng⟩
  else if coreType = "rvcorep" then
    some ⟨_, RVCorePCore.methods B.rvcorepMain,
      CoreWrapper.new B.verilatedInstif B.verilatedMemif B.newRvcorepMain⟩
  else none

/-- The instantiation. There is nothing to simulate when the first pointer stays null. -/
def cores (args : Args) : Option Cores :=
  match args.procOnly, B.core args.coreType with
  | false, none => some .functional
  | false, some V => some (.concurrent V)
  | true, some V => some (.verilated V)
  | true, none => none

end Build

/-- What a main loop leaves: the number of instructions of the first core, the lines that it has
printed, and the lines of the log. -/
structure LoopResult where
  cntInst : Counter
  out : List String
  log : List String

/-- The initialization of the memory and a main loop of at most so many iterations. -/
def Cores.simulate {τ υ ρ : Type} (B : Build τ υ ρ) (args : SimArgs) (host : Host)
    (sections : List Section) (brkAddr : Word) (fuel : ℕ) : Cores → Option LoopResult
  | .functional =>
    ((singleLoop args host FunctionalCore.methods).run fuel (singleStart FunctionalCore.methods
      (boot B.functionalInstif B.functionalMemif Fin.elim0 B.ifPrim Fin.elim0 sections
        brkAddr))).map fun t => ⟨t.machine.prim.cntInst, [], t.log⟩
  | .verilated V =>
    ((singleLoop args host fun _ => V.methods).run fuel (singleStart (fun _ => V.methods)
      (bootAlone V.new B.ifPrim sections brkAddr))).map fun t =>
        ⟨t.machine.prim.cntInst, [], t.log⟩
  | .concurrent V =>
    ((concurrentLoop args host V.methods).run fuel (concurrentStart V.methods
      (boot B.functionalInstif B.functionalMemif (fun _ => V.new) B.ifPrim (fun _ => B.ifRep)
        sections brkAddr))).bind fun s =>
          if s.overflow then none
          else some ⟨s.machine.prim.cntInst, (concurrentFinish s).map Line.text, s.log⟩

/-- What `main` finds outside: the files of a base directory and three names, whether a log file can
be opened, the text of the exception when a directory cannot be entered, and the host that answers
the system calls. -/
structure Environment where
  files : String → String → String → String → LoaderFiles
  fopen : String → Bool
  chdir : String → Option String
  host : Host

/-- The exit status, the two output streams and the log file of a run of the program. -/
structure Outcome where
  status : ℕ
  out : List String
  err : List String
  logFile : Option (List String)
  deriving DecidableEq

/-- Print the usage. -/
def usage (name : String) : List String :=
  [s!"Usage: {name} [options] basedir binary stack",
    "  - options:",
    "    - -p                    : simulate processor core only",
    "    - -c core / --core core : processor core model (see --list-core)",
    "    - --list-core           : list available core models and exit",
    "    - -l                    : print the instruction trace to stdout",
    "    - --logfile file        : print the instruction trace to the specified file",
    "    - -icount               : alias of --instruction",
    "    - --instruction count   : maximum instructions before halt (default: 10m)",
    "                              count supports a suffix of k, m, or g",
    "    - -m N / --mismatch N   : show last N instructions on mismatch",
    "  - basedir: directory name where the files are stored",
    "  - binary : file name of binary file without '.bin'",
    "  - stack  : file name of stack image without '_sp.txt'"]

/-- The loader of `main`. -/
def Environment.loader (env : Environment) (args : Args) : Option Loader :=
  Loader.new args.binFile args.dumpFile args.spFile
    (env.files args.baseDir args.binFile args.dumpFile args.spFile)

/-- The errors after the image was read. -/
def Environment.refuses (env : Environment) (args : Args) : Option String :=
  if args.logFile ≠ "" ∧ env.fopen args.logFile = false then
    some s!"!! Failed to open log file({args.logFile}). Stop."
  else (env.chdir args.baseDir).map fun what => s!"!! failed to change working directory ({what})"

/-- The report at the end, after the lines of the trace if they go to the standard output. -/
def LoopResult.outcome (r : LoopResult) (args : Args) : Outcome where
  status := 0
  out := (if args.logFile = "" then r.log else []) ++ r.out ++
    [s!"## Processor stopped after executing {r.cntInst.toNat} insts."]
  err := []
  logFile := if args.logFile = "" then none else some r.log

/-- The last line of the output, before the two lines about the time that are left out here, has the
number of instructions. -/
theorem LoopResult.getLast?_out (r : LoopResult) (args : Args) :
    (r.outcome args).out.getLast? =
      some s!"## Processor stopped after executing {r.cntInst.toNat} insts." :=
  List.getLast?_append_cons ..

section Run

variable {τ υ ρ : Type} (B : Build τ υ ρ) (env : Environment)

/-- The part of `main` after the command line was accepted. -/
def runSimulation (fuel : ℕ) (args : Args) : Option Outcome :=
  (B.cores args).bind fun cores =>
    (env.loader args).bind fun ld =>
      if ld.valid = false then some ⟨1, [], [s!"!! {ld.message}. Stop."], none⟩
      else
        match env.refuses args with
        | some line =>
          some ⟨1, [], [line], if env.fopen args.logFile ∧ args.logFile ≠ "" then some [] else none⟩
        | none =>
          (cores.simulate B args.simArgs env.host ld.sections ld.brkAddr fuel).map
            (LoopResult.outcome · args)

/-- `main`, with at most so many iterations of the main loop. There is no outcome when the loop has
not ended by then, and where the program goes wrong. -/
def main (fuel : ℕ) (name : String) (options : List GetoptResult) (operands : List String) :
    Option Outcome :=
  (checkarg options operands).bind fun (s, result) =>
    match result with
    | .failed => some ⟨1, s.out ++ usage name, s.err, none⟩
    | .infoPrinted => some ⟨0, s.out, s.err, none⟩
    | .success => runSimulation B env fuel s.args

end Run

end VeriCross
