import VeriCross.FunctionalCore
import VeriCross.RiscV.Log
import VeriCross.SysCall.Model

/-!
# The cycles of the main loops

The steps that both main loops are made of: one cycle of the first core and one of a replica,
each with the memory it is bound to, and the setup that `main` performs before a loop starts.
The memory pointers of the source make a cycle a function of the whole machine; the methods of
a core only see the core itself, apart from the functional core's public read.
-/

namespace VeriCross

/-- A class of cores: its methods, given the public read of the memory. -/
abbrev CoreClass (σ : Type) := PublicRead → CoreMethods σ

/-- What a cycle leaves: whether `drive` and `update` succeeded, and the machine. -/
structure Cycle (n : ℕ) (α β : Type) where
  driven : Bool
  updated : Bool
  machine : Machine n α β

/-- Neither `drive` nor `update` failed. -/
def Cycle.ok {n : ℕ} {α β : Type} (c : Cycle n α β) : Bool := c.driven && c.updated

/-- The arguments of a simulation: the instruction limit, the length of the mismatch history, which
is an `int` (zero for none), and whether there is a log. -/
structure SimArgs where
  maxInsts : Counter
  mismatchInsts : Word
  log : Bool

namespace Machine

variable {n : ℕ} {α β : Type}

/-- Replace the first core. -/
def setPrim (M : Machine n α β) (core : Core α) : Machine n α β := { M with prim := core }

/-- Replace a replica. -/
def setRep (M : Machine n α β) (i : Fin n) (core : Core β) : Machine n α β :=
  { M with reps := Function.update M.reps i core }

/-- `mem->drive()`. -/
def memDrive (M : Machine n α β) : Machine n α β := { M with mem := M.mem.drive M.prim.memif }

/-- `mem->update()`. -/
def memUpdate (M : Machine n α β) : Machine n α β :=
  let (mem, memif) := M.mem.update M.prim.memif
  { M with mem := mem, prim := { M.prim with memif := memif } }

/-- `mem->drive_replica()`. -/
def memDriveReplica (M : Machine n α β) : Machine n α β :=
  { M with mem := M.mem.driveReplica fun i => (M.reps i).memif }

/-- `mem->update_replica()`. -/
def memUpdateReplica (M : Machine n α β) : Machine n α β :=
  let (mem, memifs) := M.mem.updateReplica fun i => (M.reps i).memif
  { M with mem := mem, reps := fun i => { M.reps i with memif := memifs i } }

/-- One cycle of the first core: `update` is skipped when `drive` fails. -/
def primCycle (C : CoreClass α) (M : Machine n α β) : Cycle n α β :=
  let (driven, core) := (C M.mem.read).drive M.prim
  let M := (M.setPrim core).memDrive
  let (updated, core) := if driven then (C M.mem.read).update M.prim else (false, M.prim)
  { driven := driven, updated := updated, machine := (M.setPrim core).memUpdate }

/-- One cycle of a replica: `update` is skipped when `drive` fails. -/
def repCycle (V : CoreMethods β) (i : Fin n) (M : Machine n α β) : Cycle n α β :=
  let (driven, core) := V.drive (M.reps i)
  let M := (M.setRep i core).memDriveReplica
  let (updated, core) := if driven then V.update (M.reps i) else (false, M.reps i)
  { driven := driven, updated := updated, machine := (M.setRep i core).memUpdateReplica }

/-- Stop the first core. -/
def haltPrim (M : Machine n α β) : Machine n α β :=
  M.setPrim { M.prim with halt := true }

/-- Stopping the first core on a condition sets its halt flag. -/
theorem ite_haltPrim (M : Machine n α β) (c : Prop) [Decidable c] :
    (if c then M.haltPrim else M) =
      M.setPrim { M.prim with halt := decide c || M.prim.halt } := by
  by_cases hc : c
  · rw [if_pos hc, decide_eq_true hc]
    rfl
  · rw [if_neg hc, decide_eq_false hc]
    rfl

/-- Stop a replica. -/
def haltRep (M : Machine n α β) (i : Fin n) : Machine n α β :=
  M.setRep i { M.reps i with halt := true }

end Machine

/-- A section of the image made by the loader; the length is in bytes. -/
structure Section where
  addr : Word
  length : Word
  data : List Word

/-- Write a section word by word. -/
def Memory.loadSection {n : ℕ} (m : Memory n) (s : Section) : Memory n :=
  (List.range (s.length.toNat / 4)).foldl
    (fun m i => m.write (s.addr + BitVec.ofNat 32 (i * 4)) (wordBytes (s.data.getD i 0))) m

/-- Write all the sections. -/
def Memory.loadSections {n : ℕ} (m : Memory n) (sections : List Section) : Memory n :=
  sections.foldl Memory.loadSection m

/-- The machine at the start of a main loop: a functional core bound to a memory that holds the
image. The interfaces of the functional core and of the memory are uninitialised. -/
def boot {n : ℕ} {β : Type} (instif : CoreInstructionIF) (memif : CoreMemoryIF)
    (reps : Fin n → Core β) (ifPrim : CoreMemoryIF) (ifReps : Fin n → CoreMemoryIF)
    (sections : List Section) (brkAddr : Word) : Machine n FunctionalState β :=
  { prim := FunctionalCore.bindMemory (FunctionalCore.new instif memif)
    reps := reps
    mem := (Memory.new ifPrim ifReps memWords).loadSections sections
    sys := SysCall.new 0 1 2 brkAddr
    calls := [] }

end VeriCross
