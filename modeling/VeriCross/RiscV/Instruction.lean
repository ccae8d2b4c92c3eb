import VeriCross.Common

/-!
# The instruction decoder

`RiscVInstruction.decode` is the constructor of the class: it classifies a word by opcode,
`funct3`, `funct7` and the upper twelve bits, and then extracts every operand field. The
format bits of the attribute select the immediate decoder.
-/

namespace VeriCross

/-- The instruction identifiers `INST_*`. -/
inductive InstrId
  | unknown
  | lui | auipc | jal | jalr
  | beq | bne | blt | bge | bltu | bgeu
  | lb | lh | lw | lbu | lhu
  | sb | sh | sw
  | addi | slli | slti | sltiu | xori | srli | srai | ori | andi
  | add | sub | sll | slt | sltu | xor | srl | sra | or | and
  | fence | fencei | ecall | ebreak | mret | wfi
  | csrrw | csrrs | csrrc | csrrwi | csrrsi | csrrci
  deriving DecidableEq, Repr

/-- The instruction names of `instr_table`. -/
def InstrId.name : InstrId → String
  | unknown => "???"
  | lui => "lui" | auipc => "auipc" | jal => "jal" | jalr => "jalr"
  | beq => "beq" | bne => "bne" | blt => "blt" | bge => "bge" | bltu => "bltu" | bgeu => "bgeu"
  | lb => "lb" | lh => "lh" | lw => "lw" | lbu => "lbu" | lhu => "lhu"
  | sb => "sb" | sh => "sh" | sw => "sw"
  | addi => "addi" | slli => "slli" | slti => "slti" | sltiu => "sltiu" | xori => "xori"
  | srli => "srli" | srai => "srai" | ori => "ori" | andi => "andi"
  | add => "add" | sub => "sub" | sll => "sll" | slt => "slt" | sltu => "sltu" | xor => "xor"
  | srl => "srl" | sra => "sra" | or => "or" | and => "and"
  | fence => "fence" | fencei => "fencei" | ecall => "ecall" | ebreak => "ebreak"
  | mret => "mret" | wfi => "wfi"
  | csrrw => "csrrw" | csrrs => "csrrs" | csrrc => "csrrc"
  | csrrwi => "csrrwi" | csrrsi => "csrrsi" | csrrci => "csrrci"

namespace RiscV

/-! The instruction attributes: format, logged effect and operand syntax. -/

/-- The bits of the format, `INST_FMT_MASK`. -/
def fmtMask : Word := 0x0007
/-- Format R. -/
def fmtR : Word := 0x0000
/-- Format I. -/
def fmtI : Word := 0x0001
/-- Format S. -/
def fmtS : Word := 0x0002
/-- Format B. -/
def fmtB : Word := 0x0003
/-- Format U. -/
def fmtU : Word := 0x0004
/-- Format J. -/
def fmtJ : Word := 0x0005
/-- Nothing is logged. -/
def logNone : Word := 0x0000
/-- The destination register is logged. -/
def logRd : Word := 0x0008
/-- The bits of a load. -/
def logLoad : Word := 0x0030
/-- A load of a byte. -/
def logLd1b : Word := 0x0010
/-- A load of a half word. -/
def logLd2b : Word := 0x0020
/-- A load of a word. -/
def logLd4b : Word := 0x0030
/-- A load that extends the sign. -/
def logLdsgn : Word := 0x0040
/-- The bits of a store. -/
def logStore : Word := 0x0180
/-- A store of a byte. -/
def logSt1b : Word := 0x0080
/-- A store of a half word. -/
def logSt2b : Word := 0x0100
/-- A store of a word. -/
def logSt4b : Word := 0x0180
/-- The bits of the operand syntax. -/
def oprMask : Word := 0x1e00
/-- No operands. -/
def oprNone : Word := 0x0000
/-- Operands `rd, rs1, rs2`. -/
def oprRdRs1Rs2 : Word := 0x0200
/-- Operands `rd, rs1, imm`. -/
def oprRdRs1Imm : Word := 0x0400
/-- Operands `rd, rs1, shamt`. -/
def oprRdRs1Shamt : Word := 0x0600
/-- Operands `rd, imm`. -/
def oprRdImm : Word := 0x0800
/-- Operands `rd, offset(rs1)`. -/
def oprRdOffRs1 : Word := 0x0a00
/-- Operands `rs2, offset(rs1)`. -/
def oprRs2OffRs1 : Word := 0x0c00
/-- Operands `rs1, rs2, target`. -/
def oprRs1Rs2Npc : Word := 0x0e00
/-- Operands `rd, target`. -/
def oprRdNpc : Word := 0x1000
/-- Operands `pred, succ`. -/
def oprPredSucc : Word := 0x1200
/-- Operands `rd, csr, rs1`. -/
def oprRdCsrRs1 : Word := 0x1400
/-- Operands `rd, csr, zimm`. -/
def oprRdCsrZimm : Word := 0x1600

/-! The registers the simulator names. -/

/-- The register that is always zero. -/
def regZero : RegIndex := 0
/-- The stack pointer. -/
def regSp : RegIndex := 2
/-- The first argument of a call, and its result. -/
def regA0 : RegIndex := 10
/-- The second argument of a call. -/
def regA1 : RegIndex := 11
/-- The third argument of a call. -/
def regA2 : RegIndex := 12
/-- The number of a system call. -/
def regA7 : RegIndex := 17

end RiscV

open RiscV

/-- The branch selected by `funct3`. -/
def decodeBranch (funct3 : Word) : InstrId :=
  if funct3 = 0b000 then .beq
  else if funct3 = 0b001 then .bne
  else if funct3 = 0b100 then .blt
  else if funct3 = 0b101 then .bge
  else if funct3 = 0b110 then .bltu
  else if funct3 = 0b111 then .bgeu
  else .unknown

/-- The load selected by `funct3`, with the attribute bits for its width and sign. -/
def decodeLoad (funct3 : Word) : InstrId × Word :=
  if funct3 = 0b000 then (.lb, logLd1b ||| logLdsgn)
  else if funct3 = 0b001 then (.lh, logLd2b ||| logLdsgn)
  else if funct3 = 0b010 then (.lw, logLd4b)
  else if funct3 = 0b100 then (.lbu, logLd1b)
  else if funct3 = 0b101 then (.lhu, logLd2b)
  else (.unknown, 0)

/-- The store selected by `funct3`, with the attribute bits for its width. -/
def decodeStore (funct3 : Word) : InstrId × Word :=
  if funct3 = 0b000 then (.sb, logSt1b)
  else if funct3 = 0b001 then (.sh, logSt2b)
  else if funct3 = 0b010 then (.sw, logSt4b)
  else (.unknown, 0)

/-- The operation with an immediate selected by `funct3`; right shifts also look at bit 5 of
`funct7`. -/
def decodeOpImm (funct3 funct7 : Word) : InstrId × Word :=
  if funct3 = 0b000 then (.addi, fmtI ||| logRd ||| oprRdRs1Imm)
  else if funct3 = 0b001 then (.slli, fmtI ||| logRd ||| oprRdRs1Shamt)
  else if funct3 = 0b010 then (.slti, fmtI ||| logRd ||| oprRdRs1Imm)
  else if funct3 = 0b011 then (.sltiu, fmtI ||| logRd ||| oprRdRs1Imm)
  else if funct3 = 0b100 then (.xori, fmtI ||| logRd ||| oprRdRs1Imm)
  else if funct3 = 0b101 then
    (if funct7 &&& 0b0100000 ≠ 0 then .srai else .srli, fmtI ||| logRd ||| oprRdRs1Shamt)
  else if funct3 = 0b110 then (.ori, fmtI ||| logRd ||| oprRdRs1Imm)
  else if funct3 = 0b111 then (.andi, fmtI ||| logRd ||| oprRdRs1Imm)
  else (.unknown, 0)

/-- The register operation selected by `funct3` and, for two of them, bit 5 of `funct7`. -/
def decodeOp (funct3 funct7 : Word) : InstrId :=
  if funct3 = 0b000 then (if funct7 &&& 0b0100000 ≠ 0 then .sub else .add)
  else if funct3 = 0b001 then .sll
  else if funct3 = 0b010 then .slt
  else if funct3 = 0b011 then .sltu
  else if funct3 = 0b100 then .xor
  else if funct3 = 0b101 then (if funct7 &&& 0b0100000 ≠ 0 then .sra else .srl)
  else if funct3 = 0b110 then .or
  else if funct3 = 0b111 then .and
  else .unknown

/-- The fences. -/
def decodeMisc (funct3 : Word) : InstrId × Word :=
  if funct3 = 0b000 then (.fence, fmtI ||| logNone ||| oprPredSucc)
  else if funct3 = 0b001 then (.fencei, fmtI ||| logNone ||| oprNone)
  else (.unknown, 0)

/-- The system instructions; those with `funct3 = 0` are told apart by the upper twelve bits. -/
def decodeSystem (funct3 immI : Word) : InstrId × Word :=
  if funct3 = 0b000 then
    (if immI = 0x000 then .ecall
      else if immI = 0x001 then .ebreak
      else if immI = 0x302 then .mret
      else if immI = 0x105 then .wfi
      else .unknown, fmtI ||| logNone ||| oprNone)
  else if funct3 = 0b001 then (.csrrw, fmtI ||| logRd ||| oprRdCsrRs1)
  else if funct3 = 0b010 then (.csrrs, fmtI ||| logRd ||| oprRdCsrRs1)
  else if funct3 = 0b011 then (.csrrc, fmtI ||| logRd ||| oprRdCsrRs1)
  else if funct3 = 0b101 then (.csrrwi, fmtI ||| logRd ||| oprRdCsrZimm)
  else if funct3 = 0b110 then (.csrrsi, fmtI ||| logRd ||| oprRdCsrZimm)
  else if funct3 = 0b111 then (.csrrci, fmtI ||| logRd ||| oprRdCsrZimm)
  else (.unknown, 0)

/-- The dispatch on the opcode: the instruction identifier and its attributes. -/
def classify (op funct3 funct7 immI : Word) : InstrId × Word :=
  if op = 0b01101 then (.lui, fmtU ||| logRd ||| oprRdImm)
  else if op = 0b00101 then (.auipc, fmtU ||| logRd ||| oprRdImm)
  else if op = 0b11011 then (.jal, fmtJ ||| logRd ||| oprRdNpc)
  else if op = 0b11001 then (.jalr, fmtI ||| logRd ||| oprRdOffRs1)
  else if op = 0b11000 then (decodeBranch funct3, fmtB ||| logNone ||| oprRs1Rs2Npc)
  else if op = 0b00000 then
    ((decodeLoad funct3).1, (decodeLoad funct3).2 ||| fmtI ||| logRd ||| oprRdOffRs1)
  else if op = 0b01000 then
    ((decodeStore funct3).1, (decodeStore funct3).2 ||| fmtS ||| oprRs2OffRs1)
  else if op = 0b00100 then decodeOpImm funct3 funct7
  else if op = 0b01100 then (decodeOp funct3 funct7, fmtR ||| logRd ||| oprRdRs1Rs2)
  else if op = 0b00011 then decodeMisc funct3
  else if op = 0b11100 then decodeSystem funct3 immI
  else (.unknown, 0)

/-- The sign-extension term of the immediate decoders: the mask when bit 31 is set. -/
def signFill (ir mask : Word) : Word := if ir &&& 0x80000000 ≠ 0 then mask else 0

/-- Decode the immediate value field of the format given by the attribute. -/
def getImm (attr ir : Word) : Word :=
  if attr &&& fmtMask = fmtI then signFill ir 0xfffff000 ||| ((ir >>> 20) &&& 0x00000fff)
  else if attr &&& fmtMask = fmtS then
    signFill ir 0xfffff000 ||| ((ir >>> 20) &&& 0x00000fe0) ||| ((ir >>> 7) &&& 0x0000001f)
  else if attr &&& fmtMask = fmtB then
    signFill ir 0xfffff000 ||| ((ir <<< 4) &&& 0x00000800) |||
      ((ir >>> 20) &&& 0x000007e0) ||| ((ir >>> 7) &&& 0x0000001e)
  else if attr &&& fmtMask = fmtU then ir &&& 0xfffff000
  else if attr &&& fmtMask = fmtJ then
    signFill ir 0xfff00000 ||| (ir &&& 0x000ff000) |||
      ((ir >>> 9) &&& 0x00000800) ||| ((ir >>> 20) &&& 0x000007fe)
  else 0

/-- The information of an individual instruction. -/
structure RiscVInstruction where
  instrId : InstrId
  instr : String
  attr : Word
  pc : Word
  ir : Word
  imm : Word
  rs1 : Word
  rs2 : Word
  rd : Word
  shamt : Word
  pred : Word
  succ : Word
  zimm : Word
  csr : Word
  npc : Word
  deriving DecidableEq, Repr

/-- The constructor: a word that is not a 32-bit encoding keeps every operand zero. -/
def RiscVInstruction.decode (pc ir : Word) : RiscVInstruction :=
  if ir &&& 0x3 ≠ 0x3 then
    { instrId := .unknown, instr := InstrId.unknown.name, attr := 0, pc := pc, ir := ir, imm := 0,
      rs1 := 0, rs2 := 0, rd := 0, shamt := 0, pred := 0, succ := 0, zimm := 0, csr := 0, npc := 0 }
  else
    let op := (ir >>> 2) &&& 0x1f
    let funct3 := (ir >>> 12) &&& 0x07
    let funct7 := (ir >>> 25) &&& 0x7f
    let immI := (ir >>> 20) &&& 0xfff
    let entry := classify op funct3 funct7 immI
    let imm := getImm entry.2 ir
    { instrId := entry.1
      instr := entry.1.name
      attr := entry.2
      pc := pc
      ir := ir
      imm := imm
      rs1 := (ir >>> 15) &&& 0x1f
      rs2 := (ir >>> 20) &&& 0x1f
      rd := (ir >>> 7) &&& 0x1f
      shamt := (ir >>> 20) &&& 0x1f
      pred := (ir >>> 24) &&& 0x0f
      succ := (ir >>> 20) &&& 0x0f
      zimm := (ir >>> 15) &&& 0x1f
      csr := (ir >>> 20) &&& 0xfff
      npc := pc + imm }

/-- The decoded instruction is a load. -/
def RiscVInstruction.isLoad (info : RiscVInstruction) : Bool := info.attr &&& logLoad ≠ 0

/-- The decoded instruction is a store. -/
def RiscVInstruction.isStore (info : RiscVInstruction) : Bool := info.attr &&& logStore ≠ 0

/-- The decoded instruction writes a register. -/
def RiscVInstruction.writesRd (info : RiscVInstruction) : Bool := info.attr &&& logRd ≠ 0

end VeriCross
