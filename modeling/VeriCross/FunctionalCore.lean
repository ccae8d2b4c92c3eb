import VeriCross.Memory.Access
import VeriCross.RiscV.Fields

/-!
# The functional core

One call of `drive` fetches, decodes and executes one instruction. Fetches and loads go through
the public read of the bound memory; stores are only put on the memory interface. A word that
the decoder does not know is refused after the interface has been prepared, so the record of the
previous instruction stays in place with its valid bit cleared.
-/

namespace VeriCross

open RiscV

/-- The members of `FunctionalCore`. The memory pointer is a flag: bound or null. -/
structure FunctionalState where
  memory : Bool
  reg : RegIndex → Word
  pc : Word

/-- What the `switch` on the instruction leaves: the registers, the next program counter, the
memory interface and the byte offset of a load. -/
structure Execution where
  reg : RegIndex → Word
  npc : Word
  memif : CoreMemoryIF
  baddr : Byte

/-- The public read of the bound memory. -/
abbrev PublicRead := Word → ℤ → List Byte

/-- Put a load on the memory interface. -/
def CoreMemoryIF.load (memif : CoreMemoryIF) (addr : Word) : CoreMemoryIF :=
  { memif with dRe := 1, dAddr := addr &&& ~~~0x3 }

/-- Put a store on the memory interface. -/
def CoreMemoryIF.store (memif : CoreMemoryIF) (addr data mask : Word) : CoreMemoryIF :=
  { memif with dWe := 1, dAddr := addr &&& ~~~0x3, dWdata := data, dWmask := mask }

/-- The `switch` of `drive`; `none` is the default branch. A shift by a register field or an
immediate keeps the low five bits of the amount. -/
def execute (read : PublicRead) (pc : Word) (inst : RiscVInstruction) (reg : RegIndex → Word)
    (memif : CoreMemoryIF) : Option Execution :=
  let rs1 := reg (regIndex inst.rs1)
  let rs2 := reg (regIndex inst.rs2)
  let rd := regIndex inst.rd
  let npc := pc + 4
  let addr := rs1 + inst.imm
  let result (data : Word) : Option Execution := some ⟨Function.update reg rd data, npc, memif, 0⟩
  let branch (taken : Bool) : Option Execution :=
    some ⟨reg, if taken then inst.npc else npc, memif, 0⟩
  let load (baddr data : Word) : Option Execution :=
    some ⟨Function.update reg rd data, npc, memif.load addr, baddr.setWidth 8⟩
  let store (data mask : Word) : Option Execution :=
    some ⟨reg, npc, memif.store addr data mask, 0⟩
  let system : Option Execution := some ⟨reg, npc, memif, 0⟩
  match inst.instrId with
  | .lui => result inst.imm
  | .auipc => result inst.npc
  | .jal => some ⟨Function.update reg rd (pc + 4), inst.npc, memif, 0⟩
  | .jalr =>
    -- the link register is written before the base register is read
    let reg := Function.update reg rd (pc + 4)
    some ⟨reg, reg (regIndex inst.rs1) + inst.imm, memif, 0⟩
  | .beq => branch (rs1 = rs2)
  | .bne => branch (rs1 ≠ rs2)
  | .blt => branch (rs1.slt rs2)
  | .bge => branch (rs2.sle rs1)
  | .bltu => branch (rs1 < rs2)
  | .bgeu => branch (rs2 ≤ rs1)
  | .lb =>
    let buf := bytesWord (read addr 1)
    load (addr &&& 0x3) (buf ||| if buf &&& 0x80 ≠ 0 then 0xffffff00 else 0)
  | .lh =>
    let buf := bytesWord (read addr 2)
    load (addr &&& 0x2) (buf ||| if buf &&& 0x8000 ≠ 0 then 0xffff0000 else 0)
  | .lw => load 0 (bytesWord (read (addr &&& ~~~0x3) 4))
  | .lbu => load (addr &&& 0x3) (bytesWord (read addr 1))
  | .lhu => load (addr &&& 0x2) (bytesWord (read addr 2))
  | .sb => store (rs2 <<< ((addr &&& 0x3).toNat * 8)) ((0x1 : Word) <<< (addr &&& 0x3).toNat)
  | .sh => store (rs2 <<< ((addr &&& 0x2).toNat * 8)) ((0x3 : Word) <<< (addr &&& 0x2).toNat)
  | .sw => store rs2 0xf
  | .addi => result (rs1 + inst.imm)
  | .slli => result (rs1 <<< (inst.imm &&& 0x1f).toNat)
  | .slti => result (if rs1.slt inst.imm then 1 else 0)
  | .sltiu => result (if rs1 < inst.imm then 1 else 0)
  | .xori => result (rs1 ^^^ inst.imm)
  | .srli => result (rs1 >>> inst.shamt.toNat)
  | .srai => result (rs1.sshiftRight inst.shamt.toNat)
  | .ori => result (rs1 ||| inst.imm)
  | .andi => result (rs1 &&& inst.imm)
  | .add => result (rs1 + rs2)
  | .sub => result (rs1 - rs2)
  | .sll => result (rs1 <<< (rs2 &&& 0x1f).toNat)
  | .slt => result (if rs1.slt rs2 then 1 else 0)
  | .sltu => result (if rs1 < rs2 then 1 else 0)
  | .xor => result (rs1 ^^^ rs2)
  | .srl => result (rs1 >>> (rs2 &&& 0x1f).toNat)
  | .sra => result (rs1.sshiftRight (rs2 &&& 0x1f).toNat)
  | .or => result (rs1 ||| rs2)
  | .and => result (rs1 &&& rs2)
  | .fence | .fencei | .ecall | .ebreak | .mret | .wfi
  | .csrrw | .csrrs | .csrrc | .csrrwi | .csrrsi | .csrrci => system
  | .unknown => none

namespace FunctionalCore

/-- The constructor. The interfaces are left uninitialised. -/
def new (instif : CoreInstructionIF) (memif : CoreMemoryIF) : Core FunctionalState where
  halt := false
  cntInst := 0
  cntCycle := 0
  instif := instif
  memif := memif
  self := { memory := false, reg := Function.update (fun _ => 0) regSp initialSp, pc := initialPc }

/-- Bind the memory. -/
def bindMemory (c : Core FunctionalState) : Core FunctionalState :=
  { c with self := { c.self with memory := true } }

/-- Read a register of the array. -/
def readReg (c : Core FunctionalState) (addr : RegIndex) : Word := c.self.reg addr

/-- Write a register of the array, `x0` too. -/
def writeReg (c : Core FunctionalState) (addr : RegIndex) (data : Word) : Core FunctionalState :=
  { c with self := { c.self with reg := Function.update c.self.reg addr data } }

/-- The core can run: not halted and bound to a memory. -/
def ready (c : Core FunctionalState) : Bool := !c.halt && c.self.memory

/-- Prepare the interfaces for an instruction. -/
def start (c : Core FunctionalState) : Core FunctionalState :=
  { c with
    memif := { c.memif with en := 1, dRe := 0, dWe := 0 }
    instif := { c.instif with valid := 0 } }

/-- Log an executed instruction and move on to the next one. -/
def retire (c : Core FunctionalState) (ir : Word) (inst : RiscVInstruction) (x : Execution) :
    Core FunctionalState :=
  { c with
    cntInst := c.cntInst + 1
    cntCycle := c.cntCycle + 1
    instif :=
      { valid := 1
        pc := c.self.pc
        ir := ir
        rd := inst.rd
        result := x.reg (regIndex inst.rd)
        dAddr := x.memif.dAddr
        dWdata := x.memif.dWdata
        dWmask := x.memif.dWmask
        dBaddr := x.baddr }
    memif := x.memif
    self := { c.self with reg := Function.update x.reg regZero 0, pc := x.npc } }

/-- The instruction word at the program counter. -/
def fetch (read : PublicRead) (c : Core FunctionalState) : Word := bytesWord (read c.self.pc 4)

/-- The decoded instruction at the program counter. -/
def instruction (read : PublicRead) (c : Core FunctionalState) : RiscVInstruction :=
  RiscVInstruction.decode c.self.pc (fetch read c)

/-- Fetch, decode and execute one instruction. -/
def drive (read : PublicRead) (c : Core FunctionalState) : Bool × Core FunctionalState :=
  if c.halt || !c.self.memory then (false, c)
  else
    let c := start c
    match execute read c.self.pc (instruction read c) c.self.reg c.memif with
    | none => (false, c)
    | some x => (true, retire c (fetch read c) (instruction read c) x)

/-- Nothing is left to do after `drive`. -/
def update (c : Core FunctionalState) : Bool × Core FunctionalState :=
  if c.halt || !c.self.memory then (false, c) else (true, c)

/-- The access to the register file. -/
def registers : RegisterMethods FunctionalState where
  readReg := readReg
  writeReg := writeReg

/-- The virtual methods, on a core bound to a memory with the given public read. -/
def methods (read : PublicRead) : CoreMethods FunctionalState where
  toRegisterMethods := registers
  reset := id
  drive := drive read
  update := update

end FunctionalCore

/-- Exactly the unknown instructions have no execution. -/
theorem execute_eq_none_iff (read : PublicRead) (pc : Word) (inst : RiscVInstruction)
    (reg : RegIndex → Word) (memif : CoreMemoryIF) :
    execute read pc inst reg memif = none ↔ inst.instrId = .unknown := by
  rw [execute]
  cases inst.instrId <;> simp

namespace FunctionalCore

/-- What one call of `drive` can do: nothing when the core is not ready, refuse an unknown word,
or retire the fetched instruction. -/
theorem drive_cases (read : PublicRead) (c : Core FunctionalState) :
    (ready c = false ∧ drive read c = (false, c)) ∨
    (ready c = true ∧ (instruction read c).instrId = .unknown ∧
      drive read c = (false, start c)) ∨
    (ready c = true ∧ (instruction read c).instrId ≠ .unknown ∧
      ∃ x, execute read c.self.pc (instruction read c) c.self.reg (start c).memif = some x ∧
        drive read c = (true, retire (start c) (fetch read c) (instruction read c) x)) := by
  have hready : (c.halt || !c.self.memory) = !ready c := by simp [ready]
  have hdrive : drive read c =
      if ready c then
        match execute read c.self.pc (instruction read c) c.self.reg (start c).memif with
        | none => (false, start c)
        | some x => (true, retire (start c) (fetch read c) (instruction read c) x)
      else (false, c) := by
    rw [drive]
    rw [hready]
    cases ready c <;> rfl
  rw [hdrive]
  cases ready c with
  | false => exact .inl ⟨rfl, rfl⟩
  | true =>
    right
    have hnone := execute_eq_none_iff read c.self.pc (instruction read c) c.self.reg (start c).memif
    cases hx : execute read c.self.pc (instruction read c) c.self.reg (start c).memif with
    | none => exact .inl ⟨rfl, hnone.mp hx, rfl⟩
    | some x =>
      refine .inr ⟨rfl, fun hunknown => ?_, x, rfl, rfl⟩
      rw [hnone.mpr hunknown] at hx
      cases hx

/-- A ready core retires a fetched instruction that has an execution. -/
theorem drive_of_execute {read : PublicRead} {c : Core FunctionalState} (hready : ready c = true)
    {x : Execution}
    (hx : execute read c.self.pc (instruction read c) c.self.reg (start c).memif = some x) :
    drive read c = (true, retire (start c) (fetch read c) (instruction read c) x) := by
  rcases drive_cases read c with ⟨hnot, -⟩ | ⟨-, hunknown, -⟩ | ⟨-, -, x', hx', hd⟩
  · rw [hready] at hnot
    cases hnot
  · rw [(execute_eq_none_iff ..).mpr hunknown] at hx
    cases hx
  · rw [hx] at hx'
    cases hx'
    exact hd

/-- The register file of the functional core is an array. -/
theorem registers_lawful : registers.Lawful where
  read_write := fun c a data b => Function.update_apply c.self.reg a data b
  read_halt := fun _ _ => rfl
  halt_write := fun _ _ _ => rfl
  cntInst_write := fun _ _ _ => rfl

/-- `drive` succeeds exactly on a ready core whose next word is a known instruction. -/
theorem drive_fst (read : PublicRead) (c : Core FunctionalState) :
    (drive read c).1 = true ↔
      ready c = true ∧ (instruction read c).instrId ≠ .unknown := by
  rcases drive_cases read c with ⟨h, hd⟩ | ⟨h, hu, hd⟩ | ⟨h, hu, x, -, hd⟩
  · simp [hd, h]
  · simp [hd, hu]
  · simp [hd, h, hu]

/-- `drive` never changes the halt flag. -/
@[simp] theorem drive_halt (read : PublicRead) (c : Core FunctionalState) :
    (drive read c).2.halt = c.halt := by
  rcases drive_cases read c with ⟨-, hd⟩ | ⟨-, -, hd⟩ | ⟨-, -, x, -, hd⟩ <;> rw [hd] <;> rfl

/-- `drive` keeps the memory bound. -/
@[simp] theorem drive_memory (read : PublicRead) (c : Core FunctionalState) :
    (drive read c).2.self.memory = c.self.memory := by
  rcases drive_cases read c with ⟨-, hd⟩ | ⟨-, -, hd⟩ | ⟨-, -, x, -, hd⟩ <;> rw [hd] <;> rfl

/-- After a successful `drive`, `update` succeeds and changes nothing. -/
theorem update_of_drive (read : PublicRead) (c : Core FunctionalState)
    (h : (drive read c).1 = true) : update (drive read c).2 = (true, (drive read c).2) := by
  have hready : (c.halt || !c.self.memory) = false := by
    simpa [ready] using ((drive_fst read c).mp h).1
  rw [update, drive_halt, drive_memory, hready, if_neg Bool.false_ne_true]

/-- `drive` counts an instruction exactly when it succeeds. -/
theorem drive_cntInst (read : PublicRead) (c : Core FunctionalState) :
    (drive read c).2.cntInst = if (drive read c).1 then c.cntInst + 1 else c.cntInst := by
  rcases drive_cases read c with ⟨-, hd⟩ | ⟨-, -, hd⟩ | ⟨-, -, x, -, hd⟩ <;> rw [hd] <;> rfl

/-- A successful `drive` logs a valid record of the fetched word. -/
theorem drive_instif (read : PublicRead) (c : Core FunctionalState)
    (h : (drive read c).1 = true) :
    (drive read c).2.instif.valid = 1 ∧ (drive read c).2.instif.pc = c.self.pc ∧
      (drive read c).2.instif.ir = fetch read c := by
  rcases drive_cases read c with ⟨-, hd⟩ | ⟨-, -, hd⟩ | ⟨-, -, x, -, hd⟩
  · simp [hd] at h
  · simp [hd] at h
  · rw [hd]
    exact ⟨rfl, rfl, rfl⟩

/-- A ready core that refuses a word only prepares the interfaces: the record keeps its old
contents with the valid bit cleared. -/
theorem drive_refused (read : PublicRead) (c : Core FunctionalState) (hready : ready c = true)
    (h : (drive read c).1 = false) : (drive read c).2 = start c := by
  rcases drive_cases read c with ⟨hnot, -⟩ | ⟨-, -, hd⟩ | ⟨-, -, x, -, hd⟩
  · rw [hready] at hnot
    cases hnot
  · rw [hd]
  · rw [hd] at h
    cases h

end FunctionalCore

end VeriCross
