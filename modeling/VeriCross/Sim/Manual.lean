import VeriCross.Loader.Image
import VeriCross.RiscV.Control
import VeriCross.RiscV.Hart
import VeriCross.Sim.DataAccess
import VeriCross.Sim.Undisturbed
import VeriCross.SysCall.Transfer

/-!
# The simulator runs programs as the manual says

The registers, the program counter and the bytes that the functional core sees are those of a
hart. An iteration of either main loop is one step of the hart, as long as the program keeps to
the instructions and the operands on which the functional core follows the manual.
-/

namespace VeriCross

open RiscV PrivateMemory

variable {n : ℕ} {β : Type} {k : ℕ}

/-- No user instruction is an `ecall`. -/
theorem Instr.id_of_isUser {i : Instr} (huser : i.isUser = true) : i.id ≠ .ecall := by
  cases i with
  | env | csrReg | csrImm => cases huser
  | load o | store o | branch o | opImm o | shift o | op o => cases o <;> simp [id]
  | _ => simp [id]

/-- No word of a user instruction is that of an `ecall`. -/
theorem Instr.word_of_isUser {i : Instr} {ir : Word} (hir : i.Encodes ir)
    (huser : i.isUser = true) : ir ≠ 0x00000073 := by
  rintro rfl
  cases i with
  | fence => exact absurd hir.1 (by decide)
  | fencei => exact absurd hir.1 (by decide)
  | _ =>
    have hid := congrArg (fun ir => (RiscVInstruction.decode 0 ir).instrId) hir
    rw [Instr.instrId_decode] at hid
    exact id_of_isUser huser hid.symm

namespace Machine

/-- The first core is in the state of a hart. -/
structure Models (k : ℕ) (M : Machine n FunctionalState β) (h : Hart) : Prop where
  reg : M.prim.self.reg = h.reg
  pc : M.prim.self.pc = h.pc
  nwords : M.mem.nwords.toNat = 2 ^ k
  bytes : Agree k M.mem.nwords (M.mem.view none) h.bytes
  zero : h.reg regZero = 0
  memory : M.prim.self.memory = true

variable {M : Machine n FunctionalState β} {h h' : Hart}

/-- The functional core fetches the word of the hart. -/
theorem Models.fetch (hM : M.Models k h) :
    FunctionalCore.fetch M.mem.read M.prim = h.wordAt k h.pc := by
  rw [FunctionalCore.fetch, Memory.read_of_agree hM.bytes, hM.pc]
  exact bytesWord_four ..

/-- A cycle of the functional core, from the outcome of its instruction. -/
theorem Models.of_execute (hM : M.Models k h) (hready : FunctionalCore.ready M.prim = true)
    {x : Execution}
    (hx : execute M.mem.read M.prim.self.pc (FunctionalCore.instruction M.mem.read M.prim)
      M.prim.self.reg (FunctionalCore.start M.prim).memif = some x)
    (hreg : Function.update x.reg regZero 0 = h'.reg) (hpc : x.npc = h'.pc)
    (hbytes : Agree k M.mem.nwords (WordMap.request M.mem.nwords x.memif (M.mem.view none))
      h'.bytes) :
    (M.primCycle FunctionalCore.methods).driven = true ∧
      (M.primCycle FunctionalCore.methods).machine.Models k h' := by
  have hnwords := fun core : Core FunctionalState => M.nwords_memUpdate core
  have hview := fun core : Core FunctionalState => M.view_memUpdate core
  rw [primCycle_of_execute hready hx]
  refine ⟨rfl, hreg, hpc, ?_, ?_, ?_, hM.memory⟩
  · rw [hnwords]
    exact hM.nwords
  · rw [hnwords, hview]
    exact hbytes
  · rw [← hreg]
    exact Function.update_self ..

/-- A cycle whose instruction only computes: the result is written back. -/
theorem Models.of_result (hM : M.Models k h) (hready : FunctionalCore.ready M.prim = true)
    {i : Instr} {baddr : Byte} (hexec : i.exec k h =
      { h with reg := writeBack h.reg (i.result? h.reg h.pc), pc := i.nextPc h.reg h.pc })
    (hx : execute M.mem.read M.prim.self.pc (FunctionalCore.instruction M.mem.read M.prim)
      M.prim.self.reg (FunctionalCore.start M.prim).memif =
      some ⟨putBack M.prim.self.reg (i.result? M.prim.self.reg M.prim.self.pc),
        i.nextPc M.prim.self.reg M.prim.self.pc, (FunctionalCore.start M.prim).memif, baddr⟩) :
    (M.primCycle FunctionalCore.methods).driven = true ∧
      (M.primCycle FunctionalCore.methods).machine.Models k (i.exec k h) := by
  have hidle : (FunctionalCore.start M.prim).memif.dWe = 0 := rfl
  rw [hexec]
  refine hM.of_execute hready hx ?_ ?_ ?_
  · rw [hM.reg, hM.pc]
    exact clear_putBack hM.zero _
  · rw [hM.reg, hM.pc]
  · rw [WordMap.request_of_dWe hidle]
    exact hM.bytes

/-- The decoded instruction is the one at the program counter of the hart. -/
theorem Models.instruction (hM : M.Models k h) :
    FunctionalCore.instruction M.mem.read M.prim =
      RiscVInstruction.decode M.prim.self.pc (h.wordAt k h.pc) := by
  rw [FunctionalCore.instruction, hM.fetch]

/-- A cycle with a jump or a branch. -/
theorem Models.exec_control (hM : M.Models k h) (hready : FunctionalCore.ready M.prim = true)
    {i : Instr} (hfetch : h.wordAt k h.pc = i.encode) (hi : i.isControl = true)
    (hright : FunctionalCore.JumpsRight h.reg h.pc i) :
    (M.primCycle FunctionalCore.methods).driven = true ∧
      (M.primCycle FunctionalCore.methods).machine.Models k (i.exec k h) := by
  have hinst := hM.instruction
  rw [hfetch] at hinst
  cases i with
  | jalr rd rs1 offset =>
    have hx := execute_jalr M.mem.read M.prim.self.pc M.prim.self.reg
      (FunctionalCore.start M.prim).memif rd rs1 offset
    have htarget := (FunctionalCore.jumpsRight_iff h.reg h.pc rd rs1 offset).mpr hright
    rw [← hM.reg, ← hM.pc] at htarget
    rw [← hinst] at hx
    dsimp only at hx
    rw [htarget] at hx
    exact hM.of_result hready rfl hx
  | jal | branch =>
    have hx := execute_control M.mem.read M.prim.self.pc M.prim.self.reg
      (FunctionalCore.start M.prim).memif hi (by simp)
    rw [← hinst] at hx
    exact hM.of_result hready rfl hx
  | _ => cases hi

/-- A cycle with an integer computation or a fence. -/
theorem Models.exec_integer (hM : M.Models k h) (hready : FunctionalCore.ready M.prim = true)
    {i : Instr} (hfetch : i.Encodes (h.wordAt k h.pc)) (hi : i.isInteger = true) :
    (M.primCycle FunctionalCore.methods).driven = true ∧
      (M.primCycle FunctionalCore.methods).machine.Models k (i.exec k h) := by
  have hx := execute_integer M.mem.read M.prim.self.pc M.prim.self.reg
    (FunctionalCore.start M.prim).memif hi hfetch
  rw [← hM.instruction] at hx
  cases i with
  | lui | auipc | opImm | shift | op | fence | fencei => exact hM.of_result hready rfl hx
  | _ => cases hi

/-- A cycle with a load from a naturally aligned address. -/
theorem Models.exec_load (hM : M.Models k h) (hready : FunctionalCore.ready M.prim = true)
    {o : LoadOp} {rd rs1 : BitVec 5} {offset : BitVec 12}
    (hfetch : h.wordAt k h.pc = (Instr.load o rd rs1 offset).encode)
    (haligned : (h.address rs1 offset).toNat % o.size = 0) :
    (M.primCycle FunctionalCore.methods).driven = true ∧
      (M.primCycle FunctionalCore.methods).machine.Models k
        ((Instr.load o rd rs1 offset).exec k h) := by
  obtain ⟨baddr, hx⟩ := execute_load M.mem M.prim.self.pc M.prim.self.reg
    (FunctionalCore.start M.prim).memif o rd rs1 offset
  have hinst := hM.instruction
  have haddr : M.prim.self.reg (regNum rs1) + offset.signExtend 32 = h.address rs1 offset := by
    rw [hM.reg]
    rfl
  have hbytes : M.mem.bytesFrom (h.address rs1 offset) = h.bytesFrom k (h.address rs1 offset) := by
    funext d
    rw [Memory.bytesFrom, Memory.read1b_primary, hM.bytes.getByte]
    rfl
  rw [hfetch] at hinst
  rw [← hinst, haddr, o.readAddr_of_aligned haligned, hbytes] at hx
  refine hM.of_execute hready hx ?_ (congrArg (· + 4) hM.pc) ?_
  · rw [hM.reg]
    exact clear_putBack hM.zero (some (rd, _))
  · rw [WordMap.request_load]
    exact hM.bytes

/-- A cycle with a store to a naturally aligned address. -/
theorem Models.exec_store (hM : M.Models k h) (hready : FunctionalCore.ready M.prim = true)
    {o : StoreOp} {rs1 rs2 : BitVec 5} {offset : BitVec 12}
    (hfetch : h.wordAt k h.pc = (Instr.store o rs1 rs2 offset).encode)
    (haligned : (h.address rs1 offset).toNat % o.size = 0) :
    (M.primCycle FunctionalCore.methods).driven = true ∧
      (M.primCycle FunctionalCore.methods).machine.Models k
        ((Instr.store o rs1 rs2 offset).exec k h) := by
  have hx := execute_store M.mem.read M.prim.self.pc M.prim.self.reg
    (FunctionalCore.start M.prim).memif o rs1 rs2 offset
  have hinst := hM.instruction
  have haddr : M.prim.self.reg (regNum rs1) + offset.signExtend 32 = h.address rs1 offset := by
    rw [hM.reg]
    rfl
  have hlanes := storeLanes_eq_storeBytes (k := k) h.bytes (h.address rs1 offset)
    (h.reg (regNum rs2)) o
  dsimp only at hx hlanes
  rw [hfetch] at hinst
  rw [← hinst, haddr, o.writeAddr_of_aligned haligned] at hx
  rw [o.writeAddr_of_aligned haligned] at hlanes
  refine hM.of_execute hready hx ?_ (congrArg (· + 4) hM.pc) ?_
  · rw [hM.reg]
    exact clear_putBack hM.zero none
  · have hstored := hM.bytes.storeLanes hM.nwords (h.address rs1 offset &&& ~~~0x3)
      (h.reg (regNum rs2) <<< ((h.address rs1 offset).toNat % 4 * 8))
      (BitVec.ofNat 32 (2 ^ o.size - 1) <<< ((h.address rs1 offset).toNat % 4))
    have hone : (1 : Word) ≠ 0 := by decide
    rw [hlanes] at hstored
    rw [hM.reg, WordMap.request, if_pos ⟨hone, rfl, hone⟩]
    exact hstored

/-- A cycle of the functional core executes an instruction of the hart. -/
theorem Models.exec (hM : M.Models k h) (hready : FunctionalCore.ready M.prim = true) {i : Instr}
    (hfetch : i.Encodes (h.wordAt k h.pc)) (huser : i.isUser = true)
    (hdomain : i.InDomain h.reg h.pc) :
    (M.primCycle FunctionalCore.methods).driven = true ∧
      (M.primCycle FunctionalCore.methods).machine.Models k (i.exec k h) := by
  cases i with
  | load o rd rs1 offset => exact hM.exec_load hready hfetch hdomain
  | store o rs1 rs2 offset => exact hM.exec_store hready hfetch hdomain
  | jal | jalr | branch => exact hM.exec_control hready hfetch rfl hdomain
  | lui | auipc | opImm | shift | op | fence | fencei => exact hM.exec_integer hready hfetch rfl
  | _ => cases huser

/-- A cycle with an `ecall` only moves on to the next instruction. -/
theorem Models.exec_ecall (hM : M.Models k h) (hready : FunctionalCore.ready M.prim = true)
    (hfetch : h.wordAt k h.pc = (Instr.env .ecall).encode) :
    (M.primCycle FunctionalCore.methods).driven = true ∧
      (M.primCycle FunctionalCore.methods).machine.Models k { h with pc := h.pc + 4 } := by
  have hid : (FunctionalCore.instruction M.mem.read M.prim).instrId = .ecall := by
    rw [hM.instruction, hfetch]
    exact (Instr.env .ecall).instrId_decode M.prim.self.pc
  have hx : execute M.mem.read M.prim.self.pc (FunctionalCore.instruction M.mem.read M.prim)
      M.prim.self.reg (FunctionalCore.start M.prim).memif =
      some ⟨M.prim.self.reg, M.prim.self.pc + 4, (FunctionalCore.start M.prim).memif, 0⟩ := by
    rw [execute]
    rw [hid]
  refine hM.of_execute hready hx ?_ (congrArg (· + 4) hM.pc) ?_
  · rw [hM.reg]
    exact clear_putBack hM.zero none
  · rw [WordMap.request_of_dWe rfl]
    exact hM.bytes

variable (host : Host) (R : RegisterMethods β)

/-- An emulated call is serviced as the environment of the hart may do. -/
theorem Models.emulate (hM : M.Models k { h with pc := h.pc + 4 }) :
    ∃ h', h.Serviced k h' ∧ (M.emulate host FunctionalCore.registers R).Models k h' := by
  obtain ⟨addr, data, haddr, hmem⟩ :=
    fillsBuffer_emulate host R FunctionalCore.registers_lawful M
  have hreg : ∀ r, r ≠ regA0 →
      (M.emulate host FunctionalCore.registers R).prim.self.reg r = M.prim.self.reg r :=
    fun r => readReg_emulate host R FunctionalCore.registers_lawful M
  have hpc : (M.emulate host FunctionalCore.registers R).prim.self.pc = M.prim.self.pc :=
    emulate_invariant (P := FunctionalCore.registers) (R := R)
      (I := fun M' => M'.prim.self.pc = M.prim.self.pc) (fun _ h _ => h) (fun _ h _ _ => h)
      (fun _ h _ => h) (fun _ h _ => h) host rfl fun _ => rfl
  have hmemory : (M.emulate host FunctionalCore.registers R).prim.self.memory = true :=
    emulate_invariant (P := FunctionalCore.registers) (R := R)
      (I := fun M' => M'.prim.self.memory = true) (fun _ h _ => h) (fun _ h _ _ => h)
      (fun _ h _ => h) (fun _ h _ => h) host hM.memory fun _ => hM.memory
  have hargument : ∀ r, M.readReg FunctionalCore.registers r = h.reg r := congrFun hM.reg
  rw [hargument, hargument] at haddr
  refine ⟨⟨_, _, storeBytes k h.bytes addr data⟩, ⟨hpc.trans hM.pc, fun r hr => ?_, addr, data,
    haddr, rfl⟩, rfl, rfl, ?_, ?_, ?_, hmemory⟩
  · exact (hreg r hr).trans (congrFun hM.reg r)
  · rw [hmem, Memory.nwords_write]
    exact hM.nwords
  · rw [hmem, Memory.nwords_write, Memory.view_write _ _ _ _ rfl]
    exact hM.bytes.put hM.nwords addr data
  · exact (hreg regZero (by decide)).trans ((congrFun hM.reg regZero).trans hM.zero)

/-- The instruction at the program counter is one on which the functional core follows the
manual, or a call of the environment. -/
def Covered (M : Machine n FunctionalState β) : Prop :=
  ∃ i : Instr, i.Encodes (FunctionalCore.fetch M.mem.read M.prim) ∧
    (i = .env .ecall ∨ i.isUser = true ∧ i.InDomain M.prim.self.reg M.prim.self.pc)

/-- A cycle of the functional core, with the emulation that follows it on any machine in the same
state, is one step of the hart. -/
theorem Models.step (hM : M.Models k h) (hready : FunctionalCore.ready M.prim = true)
    (hcovered : M.Covered) :
    (M.primCycle FunctionalCore.methods).driven = true ∧
      ∃ h₁, (M.primCycle FunctionalCore.methods).machine.Models k h₁ ∧
        ∀ N : Machine n FunctionalState β, N.Models k h₁ → ∃ i h', Hart.Step k h i h' ∧
          (N.afterInst host R (FunctionalCore.fetch M.mem.read M.prim)).Models k h' := by
  obtain ⟨i, hfetch, hcase⟩ := hcovered
  rw [hM.fetch] at hfetch ⊢
  rcases hcase with rfl | ⟨huser, hdomain⟩
  · have hword : h.wordAt k h.pc = 0x00000073 := hfetch
    obtain ⟨hdriven, hnext⟩ := hM.exec_ecall hready hfetch
    refine ⟨hdriven, _, hnext, fun N hN => ?_⟩
    obtain ⟨h', hserviced, hN'⟩ := Models.emulate host R hN
    rw [afterInst, if_pos hword]
    exact ⟨_, h', .ecall hfetch hserviced, hN'⟩
  · rw [hM.reg, hM.pc] at hdomain
    obtain ⟨hdriven, hnext⟩ := hM.exec hready hfetch huser hdomain
    refine ⟨hdriven, _, hnext, fun N hN => ?_⟩
    rw [afterInst, if_neg (Instr.word_of_isUser hfetch huser)]
    exact ⟨i, _, .user hfetch huser, hN⟩

/-- The state of a hart does not depend on the halt flag of the core. -/
theorem Models.setHalt (hM : M.Models k h) (halt : Bool) :
    (M.setPrim { M.prim with halt := halt }).Models k h :=
  ⟨hM.reg, hM.pc, hM.nwords, hM.bytes, hM.zero, hM.memory⟩

/-- A running core that is in the state of a hart is ready. -/
theorem Models.ready (hM : M.Models k h) (hhalt : M.prim.halt = false) :
    FunctionalCore.ready M.prim = true := by
  simp [FunctionalCore.ready, hhalt, hM.memory]

end Machine

/-- The hart at the start of a program: the image is in a memory of zeros, and the stack pointer
is set. -/
def Hart.booted (sections : List Section) : Hart where
  reg := Function.update (fun _ => 0) regSp initialSp
  pc := initialPc
  bytes := loadBytes 19 (fun _ => 0) sections

/-- The machine at the start of a main loop is in the state of the hart that has booted. -/
theorem models_boot (instif : CoreInstructionIF) (memif : CoreMemoryIF) (reps : Fin n → Core β)
    (ifPrim : CoreMemoryIF) (ifReps : Fin n → CoreMemoryIF) (sections : List Section)
    (brkAddr : Word) :
    (boot instif memif reps ifPrim ifReps sections brkAddr).Models 19 (Hart.booted sections) := by
  obtain ⟨hwords, hagree⟩ := agree_boot instif memif reps ifPrim ifReps sections brkAddr
  exact ⟨rfl, rfl, by rw [hwords]; rfl, hagree, rfl, rfl⟩

section Loops

variable {args : SimArgs} {host : Host} {V : CoreMethods β} {h : Hart}

variable (args host) in
/-- An iteration of the single loop is one step of the hart. -/
theorem Machine.Models.singleBody {t : SingleState FunctionalState} (hM : t.machine.Models k h)
    (hgoing : t.machine.prim.halt = false) (hcovered : t.machine.Covered) :
    ∃ i h', Hart.Step k h i h' ∧
      (singleBody args host FunctionalCore.methods t).machine.Models k h' := by
  have hM' : t.machine.memDrive.Models k h :=
    ⟨hM.reg, hM.pc, hM.nwords, hM.bytes, hM.zero, hM.memory⟩
  obtain ⟨hdriven, h₁, hcycle, hafter⟩ :=
    hM'.step host FunctionalCore.registers (hM.ready hgoing) hcovered
  obtain ⟨i, h', hstep, hnext⟩ := hafter _ hcycle
  refine ⟨i, h', hstep, ?_⟩
  rw [machine_singleBody args host hdriven]
  exact hnext.setHalt _

variable (args V) in
/-- After the verilated core's step the first core is in the state that its cycle left. -/
theorem Machine.Models.nextRun {s : ConcurrentState β} (hgoing : s.machine.prim.halt = false)
    (hcycle : (s.machine.primCycle FunctionalCore.methods).machine.Models k h) :
    (nextRun args V s).machine.Models k h := by
  have hsame : (functionalStep args s.machine).machine.SamePrimary
      (VeriCross.nextRun args V s).machine := samePrimary_verilatedStep ..
  have hfunctional : (functionalStep args s.machine).machine.Models k h := by
    rw [functionalStep_eq hgoing]
    exact hcycle.setHalt _
  refine ⟨?_, ?_, ?_, ?_, hfunctional.zero, ?_⟩
  · exact (congrArg (·.self.reg) hsame.prim).trans hfunctional.reg
  · exact (congrArg (·.self.pc) hsame.prim).trans hfunctional.pc
  · exact (congrArg BitVec.toNat hsame.nwords).trans hfunctional.nwords
  · rw [hsame.nwords, hsame.view]
    exact hfunctional.bytes
  · exact (congrArg (·.self.memory) hsame.prim).trans hfunctional.memory

variable (args host V) in
/-- An iteration of the concurrent loop that is regular is one step of the hart. -/
theorem Machine.Models.concurrentBody {s : ConcurrentState β} (hM : s.machine.Models k h)
    (hgoing : s.machine.prim.halt = false) (hcovered : s.machine.Covered)
    (haccepted : (nextRound args V s).accepted = true)
    (hretired : (nextRound args V s).functional ≠ none) :
    ∃ i h', Hart.Step k h i h' ∧ (concurrentBody args host V s).machine.Models k h' := by
  obtain ⟨-, h₁, hcycle, hafter⟩ :=
    hM.step host V.toRegisterMethods (hM.ready hgoing) hcovered
  rw [machine_of_regular args host V hgoing hM.memory haccepted hretired]
  exact hafter _ (hcycle.nextRun args V hgoing)

variable (args host V) in
/-- Both loops run a program as the manual says, whatever the replica does and the host answers:
as long as every instruction is covered and, in concurrent execution, every pair is accepted, the
functional core goes through the states of a hart that has booted with the image, one step in each
iteration. -/
theorem simulation_follows_manual (instif : CoreInstructionIF) (memif : CoreMemoryIF)
    (rep : Core β) (ifPrim ifRep : CoreMemoryIF) (sections : List Section) (brkAddr : Word) :
    (∀ n t, (singleLoop args host FunctionalCore.methods).Reaches
        (singleStart FunctionalCore.methods
          (boot instif memif Fin.elim0 ifPrim Fin.elim0 sections brkAddr)) n t →
      (∀ m u, m < n → (singleLoop args host FunctionalCore.methods).Reaches
        (singleStart FunctionalCore.methods
          (boot instif memif Fin.elim0 ifPrim Fin.elim0 sections brkAddr)) m u →
        u.machine.Covered) →
      ∃ trace h, trace.length = n ∧ Hart.Run 19 (Hart.booted sections) trace h ∧
        t.machine.Models 19 h) ∧
    ∀ n s, (concurrentLoop args host V).Reaches (concurrentStart V
        (boot instif memif (fun _ => rep) ifPrim (fun _ => ifRep) sections brkAddr)) n s →
      Regular s →
      (∀ m u, m < n → (concurrentLoop args host V).Reaches (concurrentStart V
        (boot instif memif (fun _ => rep) ifPrim (fun _ => ifRep) sections brkAddr)) m u →
        u.machine.Covered) →
      ∃ trace h, trace.length = n ∧ Hart.Run 19 (Hart.booted sections) trace h ∧
        s.machine.Models 19 h := by
  constructor
  · intro n t hreach hcovered
    have hstart := models_boot instif memif (Fin.elim0 : Fin 0 → Core FunctionalState) ifPrim
      Fin.elim0 sections brkAddr
    refine hreach.labelledRun (P := fun _ => True) (C := fun u => u.machine.Covered)
      (R := fun u h => u.machine.Models 19 h) trivial (fun _ _ => trivial) hcovered hstart ?_
    intro u h hguard _ hc hM
    exact hM.singleBody args host ((singleLoop_guard ..).mp hguard) hc
  · intro n s hreach hregular hcovered
    have hstart := models_boot instif memif (fun _ : Fin 1 => rep) ifPrim (fun _ => ifRep)
      sections brkAddr
    refine hreach.labelledRun (P := Regular) (C := fun u => u.machine.Covered)
      (R := fun u h => u.machine.Models 19 h) hregular regular_of_concurrentBody hcovered
      ⟨hstart.reg, hstart.pc, hstart.nwords, hstart.bytes, hstart.zero, hstart.memory⟩ ?_
    intro u h hguard hu hc hM
    obtain ⟨hgoing, -⟩ := concurrentLoop_guard.mp hguard
    obtain ⟨-, haccepted, hretired⟩ := forall_rounds_concurrentBody.mp hu
    exact hM.concurrentBody args host V hgoing hc haccepted hretired

end Loops

/-- One instruction that does nothing is one step of the hart in both loops. -/
theorem nop_follows_manual :
    let V := RVCorePCore.methods Playback.top
    let host : Host := fun _ => default
    let args : SimArgs := ⟨10, 0, false⟩
    let zero : CoreInstructionIF := ⟨0, 0, 0, 0, 0, 0, 0, 0, 0⟩
    let memif : CoreMemoryIF := ⟨0, 0, 0, 0, 0, 0, 0, 0, 0⟩
    let rep := CoreWrapper.new zero memif
      { rest := [⟨1, 0x00010000, 0x00000013, 0, 0, 0, 0, 0, 0⟩], shown := zero, reg := fun _ => 0 }
    let image : List Section := [{ addr := initialPc, length := 4, data := [0x00000013] }]
    let L := singleLoop args host FunctionalCore.methods
    let L' := concurrentLoop args host V
    let start := singleStart FunctionalCore.methods
      (boot zero memif Fin.elim0 memif Fin.elim0 image 0)
    let start' := concurrentStart V (boot zero memif (fun _ => rep) memif (fun _ => memif) image 0)
    (∃ trace h, trace.length = 1 ∧ Hart.Run 19 (Hart.booted image) trace h ∧
      (L.body start).machine.Models 19 h) ∧
    ∃ trace h, trace.length = 1 ∧ Hart.Run 19 (Hart.booted image) trace h ∧
      (L'.body start').machine.Models 19 h := by
  intro V host args zero memif rep image L L' start start'
  obtain ⟨hsingle, hconcurrent⟩ := simulation_follows_manual args host V
    zero memif rep memif memif image 0
  have hgoing : L.guard start = true := by
    decide +kernel
  have hgoing' : L'.guard start' = true := by
    decide +kernel
  have hregular : ∀ r ∈ (L'.body start').rounds, r.accepted = true ∧ r.functional ≠ none := by
    decide +kernel
  have hnop : (Instr.opImm .addi 0 0 0).Encodes 0x00000013 := rfl
  have hcovered : start.machine.Covered := by
    have hfetch : FunctionalCore.fetch start.machine.mem.read start.machine.prim = 0x00000013 := by
      decide +kernel
    exact ⟨.opImm .addi 0 0 0, hfetch ▸ hnop, .inr ⟨rfl, trivial⟩⟩
  have hcovered' : start'.machine.Covered := by
    have hfetch : FunctionalCore.fetch start'.machine.mem.read start'.machine.prim =
        0x00000013 := by
      decide +kernel
    exact ⟨.opImm .addi 0 0 0, hfetch ▸ hnop, .inr ⟨rfl, trivial⟩⟩
  constructor
  · refine hsingle 1 _ (WhileLoop.Reaches.start.next hgoing) fun m u hm hu => ?_
    obtain rfl : m = 0 := by omega
    cases hu
    exact hcovered
  · refine hconcurrent 1 _ (WhileLoop.Reaches.start.next hgoing') hregular fun m u hm hu => ?_
    obtain rfl : m = 0 := by omega
    cases hu
    exact hcovered'

end VeriCross
