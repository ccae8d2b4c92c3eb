import VeriCross.RiscV.DataAccess
import VeriCross.Sim.Lockstep
import VeriCross.Sim.SameRun

/-!
# Loads and stores in a cycle of the functional core

A cycle of the functional core and the memory carries out a load or a store on the bytes that the
core sees, through the write buffers or without them. At naturally aligned addresses this is what
the manual says. At other addresses the load and the store of one width agree on the address they
use, except for half-words.
-/

namespace VeriCross

open RiscV

variable {n : ℕ} {β : Type} {k : ℕ}

namespace Machine

/-- A cycle of the functional core loads from an address: the value is written back, and nothing
is stored. -/
structure Loads (k : ℕ) (M : Machine n FunctionalState β) (o : LoadOp) (rd : BitVec 5)
    (addr : Word) : Prop where
  driven : (M.primCycle FunctionalCore.methods).driven = true
  reg : (M.primCycle FunctionalCore.methods).machine.prim.self.reg =
    writeBack M.prim.self.reg (some (rd, o.value fun d =>
      M.mem.bytes none (byteCell k (addr + BitVec.ofNat 32 d))))
  pc : (M.primCycle FunctionalCore.methods).machine.prim.self.pc = M.prim.self.pc + 4
  memory : ∀ x, (M.primCycle FunctionalCore.methods).machine.mem.read1b .primary x =
    M.mem.read1b .primary x

/-- A cycle of the functional core stores to an address: the bytes there are replaced, and no
register changes. -/
structure Stores (k : ℕ) (M : Machine n FunctionalState β) (o : StoreOp) (addr data : Word) :
    Prop where
  driven : (M.primCycle FunctionalCore.methods).driven = true
  reg : (M.primCycle FunctionalCore.methods).machine.prim.self.reg = M.prim.self.reg
  pc : (M.primCycle FunctionalCore.methods).machine.prim.self.pc = M.prim.self.pc + 4
  memory : ∀ x, (M.primCycle FunctionalCore.methods).machine.mem.read1b .primary x =
    PrivateMemory.storeBytes k (M.mem.bytes none) addr (o.bytes data) (byteCell k x)

variable {M : Machine n FunctionalState β}

/-- A cycle in which the fetched instruction has an execution. -/
theorem primCycle_of_execute (hready : FunctionalCore.ready M.prim = true) {x : Execution}
    (hx : execute M.mem.read M.prim.self.pc (FunctionalCore.instruction M.mem.read M.prim)
      M.prim.self.reg (FunctionalCore.start M.prim).memif = some x) :
    M.primCycle FunctionalCore.methods =
      let core := FunctionalCore.retire (FunctionalCore.start M.prim)
        (FunctionalCore.fetch M.mem.read M.prim) (FunctionalCore.instruction M.mem.read M.prim) x
      { driven := true, updated := true, machine := (M.setPrim core).memDrive.memUpdate } := by
  rw [primCycle_functional, FunctionalCore.drive_of_execute hready hx]

/-- What a cycle with a load does, at any address. -/
theorem primCycle_load (hready : FunctionalCore.ready M.prim = true) {o : LoadOp}
    {rd rs1 : BitVec 5} {offset : BitVec 12}
    (hfetch : FunctionalCore.fetch M.mem.read M.prim = (Instr.load o rd rs1 offset).encode) :
    let addr := M.prim.self.reg (regNum rs1) + offset.signExtend 32
    let c := M.primCycle FunctionalCore.methods
    let data := o.value (M.mem.bytesFrom (o.readAddr addr))
    c.driven = true ∧
      c.machine.prim.self.reg =
        Function.update (Function.update M.prim.self.reg (regNum rd) data) regZero 0 ∧
      c.machine.prim.self.pc = M.prim.self.pc + 4 ∧
      c.machine.prim.instif.result = data ∧
      ∀ x, c.machine.mem.read1b .primary x = M.mem.read1b .primary x := by
  intro addr c data
  have hinst : FunctionalCore.instruction M.mem.read M.prim =
      RiscVInstruction.decode M.prim.self.pc (Instr.load o rd rs1 offset).encode := by
    rw [FunctionalCore.instruction, hfetch]
  obtain ⟨baddr, hx⟩ := execute_load M.mem M.prim.self.pc M.prim.self.reg
    (FunctionalCore.start M.prim).memif o rd rs1 offset
  have hrd : (FunctionalCore.instruction M.mem.read M.prim).rd = rd.setWidth 32 := by
    rw [hinst]
    exact ((Instr.load o rd rs1 offset).operandsOf_decode M.prim.self.pc).1
  rw [← hinst] at hx
  have hc : c = _ := primCycle_of_execute hready hx
  rw [hc]
  refine ⟨rfl, rfl, rfl, ?_, fun x => Memory.read1b_congr ?_ ?_ x⟩
  · change putBack M.prim.self.reg (some (rd, data))
      (regIndex (FunctionalCore.instruction M.mem.read M.prim).rd) = data
    rw [hrd, regIndex_setWidth]
    exact Function.update_self ..
  · dsimp only
    rw [view_memUpdate]
    exact WordMap.request_load ..
  · exact nwords_memUpdate ..

/-- What a cycle with a store does, at any address. -/
theorem primCycle_store (hready : FunctionalCore.ready M.prim = true) {o : StoreOp}
    {rs1 rs2 : BitVec 5} {offset : BitVec 12}
    (hfetch : FunctionalCore.fetch M.mem.read M.prim = (Instr.store o rs1 rs2 offset).encode) :
    let addr := M.prim.self.reg (regNum rs1) + offset.signExtend 32
    let lane := (o.writeAddr addr).toNat % 4
    let c := M.primCycle FunctionalCore.methods
    c.driven = true ∧
      c.machine.prim.self.reg = Function.update M.prim.self.reg regZero 0 ∧
      c.machine.prim.self.pc = M.prim.self.pc + 4 ∧
      FunctionalCore.ready c.machine.prim = true ∧
      c.machine.mem.nwords = M.mem.nwords ∧
      c.machine.mem.view none = WordMap.putWord M.mem.nwords (M.mem.view none) (addr &&& ~~~0x3)
        (WordMap.mergeMask (M.mem.view none (WordMap.index M.mem.nwords (addr &&& ~~~0x3)))
          (M.prim.self.reg (regNum rs2) <<< (lane * 8))
          (BitVec.ofNat 32 (2 ^ o.size - 1) <<< lane)) := by
  intro addr lane c
  have hinst : FunctionalCore.instruction M.mem.read M.prim =
      RiscVInstruction.decode M.prim.self.pc (Instr.store o rs1 rs2 offset).encode := by
    rw [FunctionalCore.instruction, hfetch]
  have hx := execute_store M.mem.read M.prim.self.pc M.prim.self.reg
    (FunctionalCore.start M.prim).memif o rs1 rs2 offset
  rw [← hinst] at hx
  have hc : c = _ := primCycle_of_execute hready hx
  rw [hc]
  refine ⟨rfl, rfl, rfl, hready, nwords_memUpdate .., ?_⟩
  dsimp only
  rw [view_memUpdate]
  exact if_pos ⟨(by decide : (1 : Word) ≠ 0), rfl, (by decide : (1 : Word) ≠ 0)⟩

/-- A cycle with a load loads from the address that the core uses. -/
theorem loads (hready : FunctionalCore.ready M.prim = true) (hzero : M.prim.self.reg regZero = 0)
    (hnw : M.mem.nwords.toNat = 2 ^ k) {o : LoadOp} {rd rs1 : BitVec 5} {offset : BitVec 12}
    (hfetch : FunctionalCore.fetch M.mem.read M.prim = (Instr.load o rd rs1 offset).encode) :
    M.Loads k o rd (o.readAddr (M.prim.self.reg (regNum rs1) + offset.signExtend 32)) := by
  obtain ⟨hdriven, hreg, hpc, -, hmemory⟩ := primCycle_load hready hfetch
  refine ⟨hdriven, ?_, hpc, hmemory⟩
  have hbytes : ∀ a, M.mem.bytesFrom a =
      fun d => M.mem.bytes none (byteCell k (a + BitVec.ofNat 32 d)) := by
    intro a
    funext d
    exact M.mem.read1b_eq_bytes hnw none _
  rw [hreg, hbytes]
  exact clear_putBack hzero (some (rd, _))

/-- A cycle with a store stores to the address that the core uses. -/
theorem stores (hready : FunctionalCore.ready M.prim = true) (hzero : M.prim.self.reg regZero = 0)
    (hnw : M.mem.nwords.toNat = 2 ^ k) {o : StoreOp} {rs1 rs2 : BitVec 5} {offset : BitVec 12}
    (hfetch : FunctionalCore.fetch M.mem.read M.prim = (Instr.store o rs1 rs2 offset).encode) :
    M.Stores k o (o.writeAddr (M.prim.self.reg (regNum rs1) + offset.signExtend 32))
      (M.prim.self.reg (regNum rs2)) := by
  obtain ⟨hdriven, hreg, hpc, -, hnwords, hview⟩ := primCycle_store hready hfetch
  have hagree := (M.mem.agree_bytes hnw none).storeLanes hnw
    ((M.prim.self.reg (regNum rs1) + offset.signExtend 32) &&& ~~~0x3)
  have hlanes := storeLanes_eq_storeBytes (k := k) (M.mem.bytes none)
    (M.prim.self.reg (regNum rs1) + offset.signExtend 32) (M.prim.self.reg (regNum rs2)) o
  dsimp only at hview hlanes
  refine ⟨hdriven, ?_, hpc, fun x => ?_⟩
  · rw [hreg]
    exact clear_putBack hzero none
  · rw [← hlanes, ← (hagree _ _).getByte, ← hview, ← hnwords]
    exact Memory.read1b_primary _ x

end Machine

/-! Aligned addresses. -/

/-- The core uses a naturally aligned address of a load as it is. -/
theorem LoadOp.readAddr_of_aligned (o : LoadOp) {addr : Word} (h : addr.toNat % o.size = 0) :
    o.readAddr addr = addr := by
  cases o with
  | lb | lbu | lh | lhu => rfl
  | lw => exact BitFields.and_not_low_of_aligned addr 2 h

/-- The core uses a naturally aligned address of a store as it is. -/
theorem StoreOp.writeAddr_of_aligned (o : StoreOp) {addr : Word} (h : addr.toNat % o.size = 0) :
    o.writeAddr addr = addr := by
  cases o with
  | sb => rfl
  | sh => exact BitFields.and_not_low_of_aligned addr 1 h
  | sw => exact BitFields.and_not_low_of_aligned addr 2 h

/-- With any write buffers, a load or a store at a naturally aligned address follows the
manual. -/
theorem dataAccess_follows_manual (M : Machine n FunctionalState β)
    (hready : FunctionalCore.ready M.prim = true) (hzero : M.prim.self.reg regZero = 0)
    (hnw : M.mem.nwords.toNat = 2 ^ k) :
    (∀ (o : LoadOp) (rd rs1 : BitVec 5) (offset : BitVec 12),
      FunctionalCore.fetch M.mem.read M.prim = (Instr.load o rd rs1 offset).encode →
      let addr := M.prim.self.reg (regNum rs1) + offset.signExtend 32
      addr.toNat % o.size = 0 → M.Loads k o rd addr) ∧
    ∀ (o : StoreOp) (rs1 rs2 : BitVec 5) (offset : BitVec 12),
      FunctionalCore.fetch M.mem.read M.prim = (Instr.store o rs1 rs2 offset).encode →
      let addr := M.prim.self.reg (regNum rs1) + offset.signExtend 32
      addr.toNat % o.size = 0 → M.Stores k o addr (M.prim.self.reg (regNum rs2)) := by
  constructor
  · intro o rd rs1 offset hfetch addr haligned
    have hloads := M.loads hready hzero hnw hfetch
    rwa [o.readAddr_of_aligned haligned] at hloads
  · intro o rs1 rs2 offset hfetch addr haligned
    have hstores := M.stores hready hzero hnw hfetch
    rwa [o.writeAddr_of_aligned haligned] at hstores

/-- With one replica, a word and a byte are loaded and stored on the stack. -/
theorem stack_follows_manual :
    let M := playbackMachine [0x00012083] []
    let M' := playbackMachine [0x002100a3] []
    M.Loads 19 .lw 1 0x001e6400 ∧ M'.Stores 19 .sb 0x001e6401 0x001e6400 := by
  intro M M'
  have hfetch : FunctionalCore.fetch M.mem.read M.prim = 0x00012083 := by
    decide +kernel
  have hfetch' : FunctionalCore.fetch M'.mem.read M'.prim = 0x002100a3 := by
    decide +kernel
  constructor
  · exact (dataAccess_follows_manual M rfl rfl rfl).1 .lw 1 2 0 hfetch (by decide +kernel)
  · exact (dataAccess_follows_manual M' rfl rfl rfl).2 .sb 2 2 1 hfetch' (by decide +kernel)

end VeriCross
