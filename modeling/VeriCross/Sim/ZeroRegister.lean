import VeriCross.RiscV.Execution
import VeriCross.Sim.Lockstep
import VeriCross.Sim.Single

/-!
# Integer computations and register zero

An integer computation follows the manual when register zero holds zero. Every executed
instruction clears that register, and emulation writes `a0` only, so it holds zero at every head
of both main loops.
-/

namespace VeriCross

open RiscV

namespace FunctionalCore

/-- One call of `drive` executes an integer computation or a fence as the manual says: the result
is written back, nothing else changes, and no data is accessed. -/
structure ComputesInteger (read : PublicRead) (c : Core FunctionalState) (i : Instr) : Prop where
  driven : (drive read c).1 = true
  reg : (drive read c).2.self.reg = writeBack c.self.reg (i.result? c.self.reg c.self.pc)
  zero : (drive read c).2.self.reg regZero = 0
  noLoad : (drive read c).2.memif.dRe = 0
  noStore : (drive read c).2.memif.dWe = 0
  pc : (drive read c).2.self.pc = c.self.pc + 4

/-- A call of `drive` leaves zero in register zero. -/
theorem drive_regZero (read : PublicRead) {c : Core FunctionalState}
    (hzero : c.self.reg regZero = 0) : (drive read c).2.self.reg regZero = 0 := by
  rcases drive_cases read c with ⟨-, hd⟩ | ⟨-, -, hd⟩ | ⟨-, -, x, -, hd⟩ <;> rw [hd]
  · exact hzero
  · exact hzero
  · exact Function.update_self regZero 0 x.reg

/-- Every integer computation and every fence follows the manual. -/
theorem computesInteger {read : PublicRead} {c : Core FunctionalState} {i : Instr}
    (hready : ready c = true) (hzero : c.self.reg regZero = 0) (hi : i.isInteger = true)
    (hfetch : i.Encodes (fetch read c)) : ComputesInteger read c i := by
  have hx := execute_integer read c.self.pc c.self.reg (start c).memif hi hfetch
  have hd := drive_of_execute hready hx
  exact
    { driven := congrArg Prod.fst hd
      reg := by
        rw [hd]
        exact clear_putBack hzero _
      zero := drive_regZero read hzero
      noLoad := by
        rw [hd]
        rfl
      noStore := by
        rw [hd]
        rfl
      pc := by rw [hd]; rfl }

end FunctionalCore

namespace Machine

variable {n : ℕ} {β : Type}

/-- Register zero of the first core holds zero. -/
def HoldsZero (M : Machine n FunctionalState β) : Prop := M.prim.self.reg regZero = 0

/-- A cycle of the functional core keeps zero in register zero. -/
theorem HoldsZero.primCycle {M : Machine n FunctionalState β} (h : M.HoldsZero) :
    (M.primCycle FunctionalCore.methods).machine.HoldsZero := by
  rw [primCycle_functional]
  exact FunctionalCore.drive_regZero M.mem.read h

/-- Emulation keeps zero in register zero. -/
theorem HoldsZero.emulate {M : Machine n FunctionalState β} (h : M.HoldsZero) (host : Host)
    (R : RegisterMethods β) : (M.emulate host FunctionalCore.registers R).HoldsZero := by
  refine emulate_invariant (I := HoldsZero) ?_ (fun _ h _ _ => h) (fun _ h _ => h)
    (fun _ h _ => h) host h fun _ => h
  intro M h data
  have hne : regZero ≠ regA0 := by decide
  exact (Function.update_of_ne hne data M.prim.self.reg).trans h

end Machine

section Loops

variable {β : Type} {args : SimArgs} {host : Host} {V : CoreMethods β}

/-- An iteration of the concurrent loop keeps zero in register zero. -/
theorem holdsZero_concurrentBody {s : ConcurrentState β} (h : s.machine.HoldsZero) :
    (concurrentBody args host V s).machine.HoldsZero := by
  have hfunctional : (functionalStep args s.machine).machine.HoldsZero := by
    rw [functionalStep]
    split <;> exact h.primCycle
  have hrun : (nextRun args V s).machine.HoldsZero := by
    rw [nextRun, Machine.HoldsZero, (samePrimary_verilatedStep ..).prim]
    exact hfunctional
  rw [machine_concurrentBody]
  split
  · exact hrun
  · split
    · exact hrun.emulate host _
    · exact hrun

/-- An iteration of the single loop keeps zero in register zero. -/
theorem holdsZero_singleBody {t : SingleState FunctionalState} (h : t.machine.HoldsZero) :
    (singleBody args host FunctionalCore.methods t).machine.HoldsZero := by
  have hcycle : (t.machine.memDrive.primCycle FunctionalCore.methods).machine.HoldsZero :=
    Machine.HoldsZero.primCycle (M := t.machine.memDrive) h
  rw [singleBody]
  dsimp only
  split
  · split <;> exact hcycle.emulate host _
  · split <;> exact hcycle

variable (args host V) in
/-- Integer computations and fences follow the manual whenever register zero holds zero, and it
does at every head of both main loops, whatever the replica and the host do. -/
theorem integer_follows_manual (instif : CoreInstructionIF) (memif : CoreMemoryIF)
    (rep : Core β) (ifPrim ifRep : CoreMemoryIF) (sections : List Section) (brkAddr : Word) :
    (∀ (read : PublicRead) (c : Core FunctionalState) (i : Instr), FunctionalCore.ready c = true →
      c.self.reg regZero = 0 → i.isInteger = true → i.Encodes (FunctionalCore.fetch read c) →
      FunctionalCore.ComputesInteger read c i) ∧
    (∀ k s, (concurrentLoop args host V).Reaches (concurrentStart V
      (boot instif memif (fun _ => rep) ifPrim (fun _ => ifRep) sections brkAddr)) k s →
      s.machine.HoldsZero) ∧
    ∀ k t, (singleLoop args host FunctionalCore.methods).Reaches (singleStart FunctionalCore.methods
      (boot instif memif Fin.elim0 ifPrim Fin.elim0 sections brkAddr)) k t →
      t.machine.HoldsZero := by
  refine ⟨?_, fun k s hreach => ?_, fun k t hreach => ?_⟩
  · intro read c i hready hzero hi hfetch
    exact FunctionalCore.computesInteger hready hzero hi hfetch
  · exact hreach.invariant (I := fun _ s => s.machine.HoldsZero) rfl
      fun _ _ _ _ h => holdsZero_concurrentBody h
  · exact hreach.invariant (I := fun _ t => t.machine.HoldsZero) rfl
      fun _ _ _ _ h => holdsZero_singleBody h

end Loops

/-- After a reset an `addi` puts minus one into `x1`, and register zero holds zero at the next
head. -/
theorem addi_follows_manual :
    let V := RVCorePCore.methods Playback.top
    let host : Host := fun _ => default
    let zero : CoreInstructionIF := ⟨0, 0, 0, 0, 0, 0, 0, 0, 0⟩
    let memif : CoreMemoryIF := ⟨0, 0, 0, 0, 0, 0, 0, 0, 0⟩
    let rep := CoreWrapper.new zero memif
      { rest := [⟨1, 0x00010000, 0xfff00093, 1, 0, 0, 0, 0, 0⟩], shown := zero, reg := fun _ => 0 }
    let image : List Section := [{ addr := initialPc, length := 4, data := [0xfff00093] }]
    let L := concurrentLoop ⟨10, 0, false⟩ host V
    let start :=
      concurrentStart V (boot zero memif (fun _ => rep) memif (fun _ => memif) image 0)
    FunctionalCore.ComputesInteger (fun _ _ => wordBytes 0xfff00093)
        (FunctionalCore.bindMemory (FunctionalCore.new zero memif)) (.opImm .addi 1 0 0xfff) ∧
      (L.body start).machine.HoldsZero := by
  intro V host zero memif rep image L start
  have hgoing : L.guard start = true := by
    decide +kernel
  obtain ⟨hinteger, hconcurrent, -⟩ :=
    integer_follows_manual ⟨10, 0, false⟩ host V zero memif rep memif memif image 0
  exact ⟨hinteger _ _ _ rfl rfl rfl rfl, hconcurrent 1 _ (WhileLoop.Reaches.start.next hgoing)⟩

end VeriCross
