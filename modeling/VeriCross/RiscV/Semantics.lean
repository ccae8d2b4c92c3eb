import VeriCross.Memory.PrivateMemory
import VeriCross.RiscV.Encoding

/-!
# The meaning of RV32I instructions

The instruction set manual gives each instruction a meaning on registers that hold 32-bit
numbers, a program counter and an array of bytes. Comparisons, shifts and extensions are stated
on the numbers that the words stand for, and register zero is never written. Nothing here refers
to the simulator.
-/

namespace VeriCross

/-- The register that a field of an instruction names. -/
def regNum (r : BitVec 5) : RegIndex := ⟨r.toNat, r.isLt⟩

/-- A branch is taken. -/
def BranchOp.taken (a b : Word) : BranchOp → Bool
  | beq => a = b
  | bne => a ≠ b
  | blt => a.toInt < b.toInt
  | bge => b.toInt ≤ a.toInt
  | bltu => a.toNat < b.toNat
  | bgeu => b.toNat ≤ a.toNat

/-- The result of an operation with an immediate. -/
def ImmOp.eval (a imm : Word) : ImmOp → Word
  | addi => a + imm
  | slti => if a.toInt < imm.toInt then 1 else 0
  | sltiu => if a.toNat < imm.toNat then 1 else 0
  | xori => a ^^^ imm
  | ori => a ||| imm
  | andi => a &&& imm

/-- The result of a shift by a constant. -/
def ShiftOp.eval (a : Word) (amount : ℕ) : ShiftOp → Word
  | slli => BitVec.ofNat 32 (a.toNat * 2 ^ amount)
  | srli => BitVec.ofNat 32 (a.toNat / 2 ^ amount)
  | srai => BitVec.ofInt 32 (a.toInt / 2 ^ amount)

/-- The result of an operation on two registers. -/
def RegOp.eval (a b : Word) : RegOp → Word
  | add => a + b
  | sub => a - b
  | sll => ShiftOp.slli.eval a (b.toNat % 32)
  | slt => if a.toInt < b.toInt then 1 else 0
  | sltu => if a.toNat < b.toNat then 1 else 0
  | xor => a ^^^ b
  | srl => ShiftOp.srli.eval a (b.toNat % 32)
  | sra => ShiftOp.srai.eval a (b.toNat % 32)
  | or => a ||| b
  | and => a &&& b

/-- The number of bytes that a load reads. -/
def LoadOp.size : LoadOp → ℕ
  | lb => 1 | lbu => 1 | lh => 2 | lhu => 2 | lw => 4

/-- The result of a load, from the bytes at its address and after it. -/
def LoadOp.value (byte : ℕ → Byte) : LoadOp → Word
  | lb => (byte 0).signExtend 32
  | lbu => (byte 0).setWidth 32
  | lh => (byte 1 ++ byte 0).signExtend 32
  | lhu => (byte 1 ++ byte 0).setWidth 32
  | lw => byte 3 ++ byte 2 ++ byte 1 ++ byte 0

/-- The number of bytes that a store writes. -/
def StoreOp.size : StoreOp → ℕ
  | sb => 1 | sh => 2 | sw => 4

/-- The bytes that a store writes. -/
def StoreOp.bytes (op : StoreOp) (data : Word) : List Byte :=
  (List.range op.size).map fun i => data.extractLsb' (8 * i) 8

/-- The register that an instruction other than a load writes, and the result. -/
def Instr.result? (reg : RegIndex → Word) (pc : Word) : Instr → Option (BitVec 5 × Word)
  | lui rd imm => some (rd, imm ++ 0#12)
  | auipc rd imm => some (rd, pc + (imm ++ 0#12))
  | jal rd _ => some (rd, pc + 4)
  | jalr rd _ _ => some (rd, pc + 4)
  | opImm o rd rs1 imm => some (rd, o.eval (reg (regNum rs1)) (imm.signExtend 32))
  | shift o rd rs1 shamt => some (rd, o.eval (reg (regNum rs1)) shamt.toNat)
  | op o rd rs1 rs2 => some (rd, o.eval (reg (regNum rs1)) (reg (regNum rs2)))
  | branch .. | load .. | store .. | fence .. | fencei | env .. | csrReg .. | csrImm .. => none

/-- The address of the next instruction. -/
def Instr.nextPc (reg : RegIndex → Word) (pc : Word) : Instr → Word
  | jal _ offset => pc + (offset ++ 0#1).signExtend 32
  | jalr _ rs1 offset => (reg (regNum rs1) + offset.signExtend 32) &&& ~~~1
  | branch o rs1 rs2 offset =>
    if o.taken (reg (regNum rs1)) (reg (regNum rs2)) then pc + (offset ++ 0#1).signExtend 32
    else pc + 4
  | _ => pc + 4

/-- The registers after a result was written; register zero stays as it is. -/
def writeBack (reg : RegIndex → Word) : Option (BitVec 5 × Word) → RegIndex → Word
  | none => reg
  | some (rd, data) => if rd = 0 then reg else Function.update reg (regNum rd) data

/-- The jumps and branches. -/
def Instr.isControl : Instr → Bool
  | jal .. | jalr .. | branch .. => true
  | _ => false

/-- The integer computations and the fences. -/
def Instr.isInteger : Instr → Bool
  | lui .. | auipc .. | opImm .. | shift .. | op .. | fence .. | fencei => true
  | _ => false

/-- The words that encode an instruction. The unused fields of the fences are ignored. -/
def Instr.Encodes (ir : Word) : Instr → Prop
  | fence pred succ =>
    opcodeField ir = 0b0001111#7 ∧ funct3Field ir = 0b000#3 ∧ ir.extractLsb' 24 4 = pred ∧
      ir.extractLsb' 20 4 = succ
  | fencei => opcodeField ir = 0b0001111#7 ∧ funct3Field ir = 0b001#3
  | i => ir = i.encode

end VeriCross
