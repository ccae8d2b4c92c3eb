import VeriCross.RiscV.Fields

/-!
# The standard encoding of RV32I, Zifencei, Zicsr and the privileged returns

Abstract instructions carry exactly their operands: register numbers, immediates with the
bits the format represents, shift amounts, CSR numbers and fence sets. `Instr.encode` is the
layout of the instruction set manual, written as concatenations of fields. Decoding it gives
the operation and every operand back.
-/

namespace VeriCross

open RiscV

/-- The conditional branches. -/
inductive BranchOp
  | beq | bne | blt | bge | bltu | bgeu
  deriving DecidableEq

/-- The loads. -/
inductive LoadOp
  | lb | lh | lw | lbu | lhu
  deriving DecidableEq

/-- The stores. -/
inductive StoreOp
  | sb | sh | sw
  deriving DecidableEq

/-- The operations with a twelve-bit immediate. -/
inductive ImmOp
  | addi | slti | sltiu | xori | ori | andi
  deriving DecidableEq

/-- The shifts by a constant. -/
inductive ShiftOp
  | slli | srli | srai
  deriving DecidableEq

/-- The operations on two registers. -/
inductive RegOp
  | add | sub | sll | slt | sltu | xor | srl | sra | or | and
  deriving DecidableEq

/-- The system instructions without operands. -/
inductive EnvOp
  | ecall | ebreak | mret | wfi
  deriving DecidableEq

/-- The three ways of updating a control and status register. -/
inductive CsrOp
  | rw | rs | rc
  deriving DecidableEq

/-- Abstract instructions. Branch and jump offsets are even and are given without bit 0. -/
inductive Instr
  | lui (rd : BitVec 5) (imm : BitVec 20)
  | auipc (rd : BitVec 5) (imm : BitVec 20)
  | jal (rd : BitVec 5) (imm : BitVec 20)
  | jalr (rd rs1 : BitVec 5) (imm : BitVec 12)
  | branch (op : BranchOp) (rs1 rs2 : BitVec 5) (imm : BitVec 12)
  | load (op : LoadOp) (rd rs1 : BitVec 5) (imm : BitVec 12)
  | store (op : StoreOp) (rs1 rs2 : BitVec 5) (imm : BitVec 12)
  | opImm (op : ImmOp) (rd rs1 : BitVec 5) (imm : BitVec 12)
  | shift (op : ShiftOp) (rd rs1 shamt : BitVec 5)
  | op (op : RegOp) (rd rs1 rs2 : BitVec 5)
  | fence (pred succ : BitVec 4)
  | fencei
  | env (op : EnvOp)
  | csrReg (op : CsrOp) (rd rs1 : BitVec 5) (csr : BitVec 12)
  | csrImm (op : CsrOp) (rd zimm : BitVec 5) (csr : BitVec 12)

/-- The operation of an abstract instruction. -/
def Instr.id : Instr → InstrId
  | lui .. => .lui
  | auipc .. => .auipc
  | jal .. => .jal
  | jalr .. => .jalr
  | branch o .. =>
    match o with
    | .beq => .beq | .bne => .bne | .blt => .blt | .bge => .bge | .bltu => .bltu | .bgeu => .bgeu
  | load o .. => match o with | .lb => .lb | .lh => .lh | .lw => .lw | .lbu => .lbu | .lhu => .lhu
  | store o .. => match o with | .sb => .sb | .sh => .sh | .sw => .sw
  | opImm o .. =>
    match o with
    | .addi => .addi | .slti => .slti | .sltiu => .sltiu | .xori => .xori | .ori => .ori
    | .andi => .andi
  | shift o .. => match o with | .slli => .slli | .srli => .srli | .srai => .srai
  | op o .. =>
    match o with
    | .add => .add | .sub => .sub | .sll => .sll | .slt => .slt | .sltu => .sltu | .xor => .xor
    | .srl => .srl | .sra => .sra | .or => .or | .and => .and
  | fence .. => .fence
  | fencei => .fencei
  | env o => match o with | .ecall => .ecall | .ebreak => .ebreak | .mret => .mret | .wfi => .wfi
  | csrReg o .. => match o with | .rw => .csrrw | .rs => .csrrs | .rc => .csrrc
  | csrImm o .. => match o with | .rw => .csrrwi | .rs => .csrrsi | .rc => .csrrci

/-- Six consecutive fields from bit 31 down to bit 0. -/
def layout (f7 : BitVec 7) (rs2 rs1 : BitVec 5) (f3 : BitVec 3) (rd : BitVec 5) (op : BitVec 7) :
    Word :=
  f7 ++ rs2 ++ rs1 ++ f3 ++ rd ++ op

/-- An upper twenty-bit field, a destination and the opcode. -/
def layoutUpper (upper : BitVec 20) (rd : BitVec 5) (op : BitVec 7) : Word :=
  upper ++ rd ++ op

/-- A twelve-bit upper field, as in the I format. -/
def layoutI (imm : BitVec 12) (rs1 : BitVec 5) (f3 : BitVec 3) (rd : BitVec 5) (op : BitVec 7) :
    Word :=
  layout (imm.extractLsb' 5 7) (imm.extractLsb' 0 5) rs1 f3 rd op

/-- The minor opcode of a branch. -/
def BranchOp.funct3 : BranchOp → BitVec 3
  | beq => 0b000 | bne => 0b001 | blt => 0b100 | bge => 0b101 | bltu => 0b110 | bgeu => 0b111

/-- The minor opcode of a load. -/
def LoadOp.funct3 : LoadOp → BitVec 3
  | lb => 0b000 | lh => 0b001 | lw => 0b010 | lbu => 0b100 | lhu => 0b101

/-- The minor opcode of a store. -/
def StoreOp.funct3 : StoreOp → BitVec 3
  | sb => 0b000 | sh => 0b001 | sw => 0b010

/-- The minor opcode of an operation with an immediate. -/
def ImmOp.funct3 : ImmOp → BitVec 3
  | addi => 0b000 | slti => 0b010 | sltiu => 0b011 | xori => 0b100 | ori => 0b110 | andi => 0b111

/-- The minor opcode of a constant shift. -/
def ShiftOp.funct3 : ShiftOp → BitVec 3
  | slli => 0b001 | srli => 0b101 | srai => 0b101

/-- The upper seven bits of a constant shift. -/
def ShiftOp.funct7 : ShiftOp → BitVec 7
  | slli => 0b0000000 | srli => 0b0000000 | srai => 0b0100000

/-- The minor opcode of a register operation. -/
def RegOp.funct3 : RegOp → BitVec 3
  | add => 0b000 | sub => 0b000 | sll => 0b001 | slt => 0b010 | sltu => 0b011 | xor => 0b100
  | srl => 0b101 | sra => 0b101 | or => 0b110 | and => 0b111

/-- The upper seven bits of a register operation. -/
def RegOp.funct7 : RegOp → BitVec 7
  | sub => 0b0100000 | sra => 0b0100000
  | _ => 0b0000000

/-- The upper twelve bits of a system instruction. -/
def EnvOp.funct12 : EnvOp → BitVec 12
  | ecall => 0x000 | ebreak => 0x001 | mret => 0x302 | wfi => 0x105

/-- The minor opcode of a CSR instruction reading a register. -/
def CsrOp.funct3 : CsrOp → BitVec 3
  | rw => 0b001 | rs => 0b010 | rc => 0b011

/-- The minor opcode of a CSR instruction with an immediate. -/
def CsrOp.funct3Imm : CsrOp → BitVec 3
  | rw => 0b101 | rs => 0b110 | rc => 0b111

/-- The standard encoding. -/
def Instr.encode : Instr → Word
  | lui rd imm => layoutUpper imm rd 0b0110111
  | auipc rd imm => layoutUpper imm rd 0b0010111
  | jal rd imm =>
    layoutUpper (imm.extractLsb' 19 1 ++ imm.extractLsb' 0 10 ++ imm.extractLsb' 10 1 ++
      imm.extractLsb' 11 8) rd 0b1101111
  | jalr rd rs1 imm => layoutI imm rs1 0b000 rd 0b1100111
  | branch o rs1 rs2 imm =>
    layout (imm.extractLsb' 11 1 ++ imm.extractLsb' 4 6) rs2 rs1 o.funct3
      (imm.extractLsb' 0 4 ++ imm.extractLsb' 10 1) 0b1100011
  | load o rd rs1 imm => layoutI imm rs1 o.funct3 rd 0b0000011
  | store o rs1 rs2 imm =>
    layout (imm.extractLsb' 5 7) rs2 rs1 o.funct3 (imm.extractLsb' 0 5) 0b0100011
  | opImm o rd rs1 imm => layoutI imm rs1 o.funct3 rd 0b0010011
  | shift o rd rs1 shamt => layout o.funct7 shamt rs1 o.funct3 rd 0b0010011
  | op o rd rs1 rs2 => layout o.funct7 rs2 rs1 o.funct3 rd 0b0110011
  | fence pred succ => layoutI (0#4 ++ pred ++ succ) 0 0b000 0 0b0001111
  | fencei => layoutI 0 0 0b001 0 0b0001111
  | env o => layoutI o.funct12 0 0b000 0 0b1110011
  | csrReg o rd rs1 csr => layoutI csr rs1 o.funct3 rd 0b1110011
  | csrImm o rd zimm csr => layoutI csr zimm o.funct3Imm rd 0b1110011

/-- The sign-extended immediate of the formats that carry one. A constant shift is an I-format
instruction whose immediate holds the shift amount below its upper seven bits. -/
def Instr.immediate? : Instr → Option Word
  | lui _ imm | auipc _ imm => some (imm ++ 0#12)
  | jal _ imm => some ((imm ++ 0#1).signExtend 32)
  | branch _ _ _ imm => some ((imm ++ 0#1).signExtend 32)
  | jalr _ _ imm | load _ _ _ imm | store _ _ _ imm | opImm _ _ _ imm => some (imm.signExtend 32)
  | shift o _ _ shamt => some ((o.funct7 ++ shamt).signExtend 32)
  | op .. | fence .. | fencei | env .. | csrReg .. | csrImm .. => none

/-- The decoded operand fields are those of the instruction. -/
def Instr.OperandsOf (i : Instr) (d : RiscVInstruction) : Prop :=
  match i with
  | lui rd _ | auipc rd _ | jal rd _ => d.rd = rd.setWidth 32
  | jalr rd rs1 _ | load _ rd rs1 _ | opImm _ rd rs1 _ =>
    d.rd = rd.setWidth 32 ∧ d.rs1 = rs1.setWidth 32
  | branch _ rs1 rs2 _ | store _ rs1 rs2 _ =>
    d.rs1 = rs1.setWidth 32 ∧ d.rs2 = rs2.setWidth 32
  | shift _ rd rs1 shamt =>
    d.rd = rd.setWidth 32 ∧ d.rs1 = rs1.setWidth 32 ∧ d.shamt = shamt.setWidth 32
  | op _ rd rs1 rs2 =>
    d.rd = rd.setWidth 32 ∧ d.rs1 = rs1.setWidth 32 ∧ d.rs2 = rs2.setWidth 32
  | fence pred succ => d.pred = pred.setWidth 32 ∧ d.succ = succ.setWidth 32
  | fencei | env _ => True
  | csrReg _ rd rs1 csr =>
    d.rd = rd.setWidth 32 ∧ d.rs1 = rs1.setWidth 32 ∧ d.csr = csr.setWidth 32
  | csrImm _ rd zimm csr =>
    d.rd = rd.setWidth 32 ∧ d.zimm = zimm.setWidth 32 ∧ d.csr = csr.setWidth 32

section Layout

variable (f7 : BitVec 7) (rs2 rs1 : BitVec 5) (f3 : BitVec 3) (rd : BitVec 5) (op : BitVec 7)

/-- The bits of the six-field layout. -/
theorem getLsbD_layout (i : ℕ) :
    (layout f7 rs2 rs1 f3 rd op).getLsbD i =
      if i < 7 then op.getLsbD i
      else if i < 12 then rd.getLsbD (i - 7)
      else if i < 15 then f3.getLsbD (i - 12)
      else if i < 20 then rs1.getLsbD (i - 15)
      else if i < 25 then rs2.getLsbD (i - 20)
      else f7.getLsbD (i - 25) := by
  change BitVec.getLsbD (w := 7 + 5 + 5 + 3 + 5 + 7) (f7 ++ rs2 ++ rs1 ++ f3 ++ rd ++ op) i = _
  simp only [BitVec.getLsbD_append]
  grind

/-- The opcode field of the six-field layout. -/
@[simp] theorem opcodeField_layout : opcodeField (layout f7 rs2 rs1 f3 rd op) = op := by
  ext i hi
  simp only [opcodeField, BitVec.getElem_extractLsb', getLsbD_layout]
  grind

/-- The destination field of the six-field layout. -/
@[simp] theorem rdField_layout : rdField (layout f7 rs2 rs1 f3 rd op) = rd := by
  ext i hi
  simp only [rdField, BitVec.getElem_extractLsb', getLsbD_layout]
  grind

/-- The minor opcode field of the six-field layout. -/
@[simp] theorem funct3Field_layout : funct3Field (layout f7 rs2 rs1 f3 rd op) = f3 := by
  ext i hi
  simp only [funct3Field, BitVec.getElem_extractLsb', getLsbD_layout]
  grind

/-- The first source field of the six-field layout. -/
@[simp] theorem rs1Field_layout : rs1Field (layout f7 rs2 rs1 f3 rd op) = rs1 := by
  ext i hi
  simp only [rs1Field, BitVec.getElem_extractLsb', getLsbD_layout]
  grind

/-- The second source field of the six-field layout. -/
@[simp] theorem rs2Field_layout : rs2Field (layout f7 rs2 rs1 f3 rd op) = rs2 := by
  ext i hi
  simp only [rs2Field, BitVec.getElem_extractLsb', getLsbD_layout]
  grind

/-- The upper seven bits of the six-field layout. -/
@[simp] theorem funct7Field_layout : funct7Field (layout f7 rs2 rs1 f3 rd op) = f7 := by
  ext i hi
  simp only [funct7Field, BitVec.getElem_extractLsb', getLsbD_layout]
  grind

/-- The upper twelve bits of the six-field layout. -/
@[simp] theorem imm12Field_layout : imm12Field (layout f7 rs2 rs1 f3 rd op) = f7 ++ rs2 := by
  ext i hi
  simp only [imm12Field, BitVec.getElem_extractLsb', getLsbD_layout]
  grind

/-- The upper layout is the six-field layout of the pieces of its upper field. -/
theorem layoutUpper_eq_layout (upper : BitVec 20) :
    layoutUpper upper rd op = layout (upper.extractLsb' 13 7) (upper.extractLsb' 8 5)
      (upper.extractLsb' 3 5) (upper.extractLsb' 0 3) rd op := by
  apply BitVec.eq_of_getLsbD_eq
  intro i hi
  rw [getLsbD_layout]
  change BitVec.getLsbD (w := 20 + 5 + 7) (upper ++ rd ++ op) i = _
  simp only [BitVec.getLsbD_append, BitVec.getLsbD_extractLsb']
  grind

/-- A twelve-bit field is the concatenation of its upper seven and lower five bits. -/
theorem imm12_split (imm : BitVec 12) : imm.extractLsb' 5 7 ++ imm.extractLsb' 0 5 = imm := by
  rw [BitVec.extractLsb'_append_extractLsb'_eq_extractLsb' (by decide)]
  simp

/-- A complete opcode makes the word a 32-bit encoding. -/
theorem layout_low (hop : op.extractLsb' 0 2 = 0b11#2) :
    layout f7 rs2 rs1 f3 rd op &&& 0x3 = 0x3 := by
  rw [low_bits_eq_field, opcodeField_layout, hop]

end Layout

/-- The format bits of the attribute of an encoded instruction. -/
def Instr.format : Instr → Word
  | lui .. | auipc .. => fmtU
  | jal .. => fmtJ
  | branch .. => fmtB
  | store .. => fmtS
  | op .. => fmtR
  | _ => fmtI

/-- Every encoding has a complete opcode. -/
theorem Instr.encode_low (i : Instr) : i.encode &&& 0x3 = 0x3 := by
  cases i <;> simp only [encode, layoutI, layoutUpper_eq_layout] <;>
    exact layout_low _ _ _ _ _ _ rfl

/-- The attributes the decoder gives to an encoded instruction. -/
def Instr.attr : Instr → Word
  | lui .. | auipc .. => fmtU ||| logRd ||| oprRdImm
  | jal .. => fmtJ ||| logRd ||| oprRdNpc
  | jalr .. => fmtI ||| logRd ||| oprRdOffRs1
  | branch .. => fmtB ||| logNone ||| oprRs1Rs2Npc
  | load o .. =>
    (match o with
      | .lb => logLd1b ||| logLdsgn | .lh => logLd2b ||| logLdsgn | .lw => logLd4b
      | .lbu => logLd1b | .lhu => logLd2b) ||| fmtI ||| logRd ||| oprRdOffRs1
  | store o .. =>
    (match o with | .sb => logSt1b | .sh => logSt2b | .sw => logSt4b) ||| fmtS ||| oprRs2OffRs1
  | opImm .. => fmtI ||| logRd ||| oprRdRs1Imm
  | shift .. => fmtI ||| logRd ||| oprRdRs1Shamt
  | op .. => fmtR ||| logRd ||| oprRdRs1Rs2
  | fence .. => fmtI ||| logNone ||| oprPredSucc
  | fencei | env _ => fmtI ||| logNone ||| oprNone
  | csrReg .. => fmtI ||| logRd ||| oprRdCsrRs1
  | csrImm .. => fmtI ||| logRd ||| oprRdCsrZimm

/-- The attributes of an instruction select its own format. -/
theorem Instr.attr_format (i : Instr) : i.attr &&& fmtMask = i.format := by
  cases i with
  | load o | store o => cases o <;> simp only [attr, format] <;> decide
  | _ =>
    simp only [attr, format]
    decide

/-- The dispatch on an encoded instruction finds its operation and its attributes. -/
theorem Instr.entryOf_encode (i : Instr) : entryOf i.encode = (i.id, i.attr) := by
  cases i with
  | lui | auipc | jal =>
    simp only [encode, layoutUpper_eq_layout, entryOf, opcodeField_layout]
    rfl
  | jalr =>
    simp only [encode, layoutI, entryOf, opcodeField_layout]
    rfl
  | fence =>
    simp only [encode, layoutI, entryOf, opcodeField_layout, funct3Field_layout]
    rfl
  | fencei => rfl
  | env o => cases o <;> rfl
  | branch o | store o =>
    simp only [encode, entryOf, opcodeField_layout, funct3Field_layout]
    cases o <;> rfl
  | load o | opImm o | csrReg o | csrImm o =>
    simp only [encode, layoutI, entryOf, opcodeField_layout, funct3Field_layout]
    cases o <;> rfl
  | shift o | op o =>
    simp only [encode, entryOf, opcodeField_layout, funct3Field_layout, funct7Field_layout]
    cases o <;> rfl

section Immediates

variable {attr : Word}

/-- The U-format decoder reads the upper field in place. -/
theorem getImm_layoutUpper (h : attr &&& fmtMask = fmtU) (upper : BitVec 20) (rd : BitVec 5)
    (op : BitVec 7) : getImm attr (layoutUpper upper rd op) = upper ++ 0#12 := by
  rw [getImm_fmtU h, layoutUpper_eq_layout]
  apply BitVec.eq_of_getLsbD_eq
  intro i hi
  simp only [BitVec.getLsbD_append, BitVec.getLsbD_extractLsb', getLsbD_layout]
  grind

/-- The I-format decoder reads the sign-extended upper twelve bits. -/
theorem getImm_layoutI (h : attr &&& fmtMask = fmtI) (imm : BitVec 12) (rs1 : BitVec 5)
    (f3 : BitVec 3) (rd : BitVec 5) (op : BitVec 7) :
    getImm attr (layoutI imm rs1 f3 rd op) = imm.signExtend 32 := by
  rw [getImm_fmtI h, layoutI, imm12Field_layout, imm12_split]

/-- The S-format decoder joins the two halves of the immediate. -/
theorem getImm_layoutS (h : attr &&& fmtMask = fmtS) (imm : BitVec 12) (rs2 rs1 : BitVec 5)
    (f3 : BitVec 3) (op : BitVec 7) :
    getImm attr (layout (imm.extractLsb' 5 7) rs2 rs1 f3 (imm.extractLsb' 0 5) op) =
      imm.signExtend 32 := by
  rw [getImm_fmtS h]
  change (funct7Field _ ++ rdField _).signExtend 32 = _
  rw [funct7Field_layout, rdField_layout, imm12_split]

/-- The B-format decoder undoes the scattering of an even branch offset. -/
theorem getImm_layoutB (h : attr &&& fmtMask = fmtB) (imm : BitVec 12) (rs2 rs1 : BitVec 5)
    (f3 : BitVec 3) (op : BitVec 7) :
    getImm attr (layout (imm.extractLsb' 11 1 ++ imm.extractLsb' 4 6) rs2 rs1 f3
      (imm.extractLsb' 0 4 ++ imm.extractLsb' 10 1) op) = (imm ++ 0#1).signExtend 32 := by
  rw [getImm_fmtB h]
  congr 1
  apply BitVec.eq_of_getLsbD_eq
  intro i hi
  simp only [BitVec.getLsbD_append, BitVec.getLsbD_extractLsb', getLsbD_layout]
  interval_cases i <;> simp

/-- The J-format decoder undoes the scattering of an even jump offset. -/
theorem getImm_layoutJ (h : attr &&& fmtMask = fmtJ) (imm : BitVec 20) (rd : BitVec 5)
    (op : BitVec 7) :
    getImm attr (layoutUpper (imm.extractLsb' 19 1 ++ imm.extractLsb' 0 10 ++
      imm.extractLsb' 10 1 ++ imm.extractLsb' 11 8) rd op) = (imm ++ 0#1).signExtend 32 := by
  rw [getImm_fmtJ h, layoutUpper_eq_layout]
  congr 1
  apply BitVec.eq_of_getLsbD_eq
  intro i hi
  simp only [BitVec.getLsbD_append, BitVec.getLsbD_extractLsb', getLsbD_layout]
  interval_cases i <;> simp

end Immediates

/-- The immediate of every encoded instruction that carries one is decoded exactly. -/
theorem Instr.getImm_encode (i : Instr) (imm : Word) (himm : i.immediate? = some imm) :
    getImm (entryOf i.encode).2 i.encode = imm := by
  have hformat := i.attr_format
  rw [i.entryOf_encode]
  generalize i.attr = attr at hformat
  cases i with
  | lui rd upper => exact (getImm_layoutUpper hformat _ _ _).trans (Option.some.inj himm)
  | auipc rd upper => exact (getImm_layoutUpper hformat _ _ _).trans (Option.some.inj himm)
  | jal rd offset => exact (getImm_layoutJ hformat _ _ _).trans (Option.some.inj himm)
  | jalr rd rs1 offset => exact (getImm_layoutI hformat _ _ _ _ _).trans (Option.some.inj himm)
  | branch o rs1 rs2 offset =>
    exact (getImm_layoutB hformat _ _ _ _ _).trans (Option.some.inj himm)
  | load o rd rs1 offset => exact (getImm_layoutI hformat _ _ _ _ _).trans (Option.some.inj himm)
  | store o rs1 rs2 offset =>
    exact (getImm_layoutS hformat _ _ _ _ _).trans (Option.some.inj himm)
  | opImm o rd rs1 value => exact (getImm_layoutI hformat _ _ _ _ _).trans (Option.some.inj himm)
  | shift o rd rs1 shamt =>
    rw [getImm_fmtI hformat, encode, imm12Field_layout]
    exact Option.some.inj himm
  | op | fence | fencei | env | csrReg | csrImm => cases himm

/-- The two fence sets are the two lower quarters of the upper twelve bits. -/
theorem fence_sets (pred succ : BitVec 4) :
    BitVec.extractLsb' 4 4 (0#4 ++ pred ++ succ) = pred ∧
      BitVec.extractLsb' 0 4 (0#4 ++ pred ++ succ) = succ :=
  ⟨by rw [BitVec.extractLsb'_append_eq_of_le (by decide),
      BitVec.extractLsb'_append_eq_right],
    BitVec.extractLsb'_append_eq_right⟩

/-- The operand fields of every encoded instruction are decoded exactly. -/
theorem Instr.operandsOf_decode (i : Instr) (pc : Word) :
    i.OperandsOf (RiscVInstruction.decode pc i.encode) := by
  rw [decode_of_full pc _ i.encode_low]
  cases i with
  | lui | auipc | jal => simp only [OperandsOf, encode, layoutUpper_eq_layout, rdField_layout]
  | jalr | load | opImm => simp only [OperandsOf, encode, layoutI, rdField_layout, rs1Field_layout,
      and_self]
  | branch | store => simp only [OperandsOf, encode, rs1Field_layout, rs2Field_layout, and_self]
  | shift | op =>
    simp only [OperandsOf, encode, rdField_layout, rs1Field_layout, rs2Field_layout, and_self]
  | fence pred succ =>
    have hfield : imm12Field (Instr.fence pred succ).encode = 0#4 ++ pred ++ succ := by
      rw [encode, layoutI, imm12Field_layout, imm12_split]
    have hsets := fence_sets pred succ
    rw [← hfield, imm12Field, BitFields.extractLsb'_extractLsb' _ _ _ _ _ (by decide),
      BitFields.extractLsb'_extractLsb' _ _ _ _ _ (by decide)] at hsets
    exact ⟨congrArg (BitVec.setWidth 32) hsets.1, congrArg (BitVec.setWidth 32) hsets.2⟩
  | fencei | env => trivial
  | csrReg | csrImm => simp only [OperandsOf, encode, layoutI, rdField_layout, rs1Field_layout,
      imm12Field_layout, imm12_split, and_self]

/-- The operation of every encoded instruction is found. -/
theorem Instr.instrId_decode (i : Instr) (pc : Word) :
    (RiscVInstruction.decode pc i.encode).instrId = i.id := by
  rw [decode_of_full pc _ i.encode_low]
  exact congrArg Prod.fst i.entryOf_encode

/-- The immediate of an encoded instruction that carries one is found. -/
theorem Instr.imm_decode (i : Instr) (pc : Word) {imm : Word} (himm : i.immediate? = some imm) :
    (RiscVInstruction.decode pc i.encode).imm = imm := by
  rw [decode_of_full pc _ i.encode_low]
  exact i.getImm_encode imm himm

/-- The target is relative to the address of the instruction. -/
theorem Instr.npc_decode (i : Instr) (pc : Word) :
    (RiscVInstruction.decode pc i.encode).npc =
      pc + (RiscVInstruction.decode pc i.encode).imm := by
  rw [decode_of_full pc _ i.encode_low]

/-- Decoding undoes the standard encoding, for every operation, operand and address: the
operation, the operand fields, the sign-extended immediate and the target `pc + imm`. -/
theorem decode_encode (i : Instr) (pc : Word) :
    (RiscVInstruction.decode pc i.encode).instrId = i.id ∧
      i.OperandsOf (RiscVInstruction.decode pc i.encode) ∧
      (∀ imm, i.immediate? = some imm → (RiscVInstruction.decode pc i.encode).imm = imm) ∧
      (RiscVInstruction.decode pc i.encode).npc =
        pc + (RiscVInstruction.decode pc i.encode).imm :=
  ⟨i.instrId_decode pc, i.operandsOf_decode pc, fun _ => i.imm_decode pc, i.npc_decode pc⟩

end VeriCross
