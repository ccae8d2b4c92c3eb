import VeriCross.Library.BitFields
import VeriCross.RiscV.Instruction
import Mathlib.Tactic.IntervalCases

/-!
# Fields of an instruction word

The decoder reads every operand with a shift and a mask. Here each of these reads becomes a
contiguous field of the word, each scattered immediate becomes a concatenation of fields, and
the dispatch is stated on the fields alone.
-/

namespace VeriCross

open RiscV BitFields

/-- Bits 6..0, the opcode with its two low bits. -/
def opcodeField (ir : Word) : BitVec 7 := ir.extractLsb' 0 7

/-- Bits 11..7. -/
def rdField (ir : Word) : BitVec 5 := ir.extractLsb' 7 5

/-- Bits 14..12. -/
def funct3Field (ir : Word) : BitVec 3 := ir.extractLsb' 12 3

/-- Bits 19..15. -/
def rs1Field (ir : Word) : BitVec 5 := ir.extractLsb' 15 5

/-- Bits 24..20. -/
def rs2Field (ir : Word) : BitVec 5 := ir.extractLsb' 20 5

/-- Bits 31..25. -/
def funct7Field (ir : Word) : BitVec 7 := ir.extractLsb' 25 7

/-- Bits 31..20. -/
def imm12Field (ir : Word) : BitVec 12 := ir.extractLsb' 20 12

/-- What holds of each row of the dispatch holds of the selected entry. -/
theorem classify_induction {P : InstrId × Word → Prop} (funct3 funct7 immI : Word)
    (hlui : P (.lui, fmtU ||| logRd ||| oprRdImm))
    (hauipc : P (.auipc, fmtU ||| logRd ||| oprRdImm))
    (hjal : P (.jal, fmtJ ||| logRd ||| oprRdNpc))
    (hjalr : P (.jalr, fmtI ||| logRd ||| oprRdOffRs1))
    (hbranch : P (decodeBranch funct3, fmtB ||| logNone ||| oprRs1Rs2Npc))
    (hload : P ((decodeLoad funct3).1, (decodeLoad funct3).2 ||| fmtI ||| logRd ||| oprRdOffRs1))
    (hstore : P ((decodeStore funct3).1, (decodeStore funct3).2 ||| fmtS ||| oprRs2OffRs1))
    (hopImm : P (decodeOpImm funct3 funct7))
    (hop : P (decodeOp funct3 funct7, fmtR ||| logRd ||| oprRdRs1Rs2))
    (hmisc : P (decodeMisc funct3)) (hsystem : P (decodeSystem funct3 immI))
    (hunknown : P (.unknown, 0)) (op : Word) : P (classify op funct3 funct7 immI) := by
  rw [classify]
  refine iteInduction (fun _ => hlui) fun _ => ?_
  refine iteInduction (fun _ => hauipc) fun _ => ?_
  refine iteInduction (fun _ => hjal) fun _ => ?_
  refine iteInduction (fun _ => hjalr) fun _ => ?_
  refine iteInduction (fun _ => hbranch) fun _ => ?_
  refine iteInduction (fun _ => hload) fun _ => ?_
  refine iteInduction (fun _ => hstore) fun _ => ?_
  refine iteInduction (fun _ => hopImm) fun _ => ?_
  refine iteInduction (fun _ => hop) fun _ => ?_
  refine iteInduction (fun _ => hmisc) fun _ => ?_
  exact iteInduction (fun _ => hsystem) fun _ => hunknown

/-- The entries of the dispatch, row by row. -/
def dispatchEntries : List (InstrId × Word) :=
  List.flatten [[(.lui, fmtU ||| logRd ||| oprRdImm), (.auipc, fmtU ||| logRd ||| oprRdImm),
      (.jal, fmtJ ||| logRd ||| oprRdNpc), (.jalr, fmtI ||| logRd ||| oprRdOffRs1)],
    [.beq, .bne, .blt, .bge, .bltu, .bgeu, .unknown].map fun i =>
      (i, fmtB ||| logNone ||| oprRs1Rs2Npc),
    [(.lb, logLd1b ||| logLdsgn), (.lh, logLd2b ||| logLdsgn), (.lw, logLd4b), (.lbu, logLd1b),
      (.lhu, logLd2b), (.unknown, 0)].map fun e : InstrId × Word =>
        (e.1, e.2 ||| fmtI ||| logRd ||| oprRdOffRs1),
    [(.sb, logSt1b), (.sh, logSt2b), (.sw, logSt4b), (.unknown, 0)].map fun e : InstrId × Word =>
      (e.1, e.2 ||| fmtS ||| oprRs2OffRs1),
    [.addi, .slti, .sltiu, .xori, .ori, .andi].map fun i => (i, fmtI ||| logRd ||| oprRdRs1Imm),
    [.slli, .srli, .srai].map fun i => (i, fmtI ||| logRd ||| oprRdRs1Shamt),
    [.add, .sub, .sll, .slt, .sltu, .xor, .srl, .sra, .or, .and, .unknown].map fun i =>
      (i, fmtR ||| logRd ||| oprRdRs1Rs2),
    [(.fence, fmtI ||| logNone ||| oprPredSucc), (.fencei, fmtI ||| logNone ||| oprNone)],
    [.ecall, .ebreak, .mret, .wfi, .unknown].map fun i => (i, fmtI ||| logNone ||| oprNone),
    [.csrrw, .csrrs, .csrrc].map fun i => (i, fmtI ||| logRd ||| oprRdCsrRs1),
    [.csrrwi, .csrrsi, .csrrci].map fun i => (i, fmtI ||| logRd ||| oprRdCsrZimm),
    [(.unknown, 0)]]

/-- The dispatch selects one of its entries. -/
theorem classify_mem (op funct3 funct7 immI : Word) :
    classify op funct3 funct7 immI ∈ dispatchEntries := by
  apply classify_induction (P := (· ∈ dispatchEntries))
  case hbranch =>
    unfold decodeBranch
    repeat' refine iteInduction (motive := fun i =>
      (i, fmtB ||| logNone ||| oprRs1Rs2Npc) ∈ dispatchEntries) (fun _ => ?_) fun _ => ?_
    all_goals decide
  case hload =>
    unfold decodeLoad
    repeat' refine iteInduction (motive := fun e : InstrId × Word =>
      (e.1, e.2 ||| fmtI ||| logRd ||| oprRdOffRs1) ∈ dispatchEntries) (fun _ => ?_) fun _ => ?_
    all_goals decide
  case hstore =>
    unfold decodeStore
    repeat' refine iteInduction (motive := fun e : InstrId × Word =>
      (e.1, e.2 ||| fmtS ||| oprRs2OffRs1) ∈ dispatchEntries) (fun _ => ?_) fun _ => ?_
    all_goals decide
  case hopImm =>
    unfold decodeOpImm
    repeat' refine iteInduction (fun _ => ?_) fun _ => ?_
    all_goals first | decide | split <;> decide
  case hop =>
    unfold decodeOp
    repeat' refine iteInduction (motive := fun i =>
      (i, fmtR ||| logRd ||| oprRdRs1Rs2) ∈ dispatchEntries) (fun _ => ?_) fun _ => ?_
    all_goals decide
  case hmisc =>
    unfold decodeMisc
    repeat' refine iteInduction (fun _ => ?_) fun _ => ?_
    all_goals decide
  case hsystem =>
    unfold decodeSystem
    repeat' refine iteInduction (fun _ => ?_) fun _ => ?_
    all_goals first | decide | split_ifs <;> decide
  all_goals decide

/-- The entry of the dispatch table selected by the fields of a word. -/
def entryOf (ir : Word) : InstrId × Word :=
  classify (((opcodeField ir).extractLsb' 2 5).setWidth 32) ((funct3Field ir).setWidth 32)
    ((funct7Field ir).setWidth 32) ((imm12Field ir).setWidth 32)

/-- The opcode bits above the two low ones, as the decoder extracts them. -/
theorem op_eq_field (ir : Word) :
    (ir >>> 2) &&& 0x1f = ((opcodeField ir).extractLsb' 2 5).setWidth 32 := by
  refine (ushiftRight_and_low ir 2 5).trans ?_
  rw [opcodeField, BitVec.extractLsb'_extractLsb'_of_le (by decide)]

/-- The check that a word is a 32-bit encoding looks at the two low opcode bits. -/
theorem low_bits_eq_field (ir : Word) :
    ir &&& 0x3 = 0x3 ↔ (opcodeField ir).extractLsb' 0 2 = 0b11#2 := by
  have hfield : ir &&& 0x3 = ((opcodeField ir).extractLsb' 0 2).setWidth 32 := by
    refine (and_low ir 2).trans ?_
    rw [opcodeField, BitVec.extractLsb'_extractLsb'_of_le (by decide)]
  rw [hfield, show (0x3 : Word) = (0b11#2).setWidth 32 from rfl,
    setWidth_inj (by decide)]

/-- The opcode of a 32-bit encoding is determined by the bits the dispatch looks at. -/
theorem opcodeField_eq (ir : Word) (hlow : ir &&& 0x3 = 0x3) (op : BitVec 5) :
    ((opcodeField ir).extractLsb' 2 5).setWidth 32 = op.setWidth 32 ↔
      opcodeField ir = op ++ 0b11#2 := by
  rw [setWidth_inj (by decide)]
  have hlow := (low_bits_eq_field ir).mp hlow
  constructor
  · intro hop
    rw [← hop, ← hlow, BitVec.extractLsb'_append_extractLsb'_eq_extractLsb' (by decide)]
    simp
  · intro hop
    rw [hop]
    exact BitVec.extractLsb'_append_eq_left

/-- Decoding a word that is not a 32-bit encoding. -/
theorem decode_of_short (pc ir : Word) (hlow : ir &&& 0x3 ≠ 0x3) :
    (RiscVInstruction.decode pc ir).instrId = .unknown := by
  rw [RiscVInstruction.decode, if_pos hlow]

/-- Decoding a 32-bit encoding is a lookup on its fields. -/
theorem decode_of_full (pc ir : Word) (hlow : ir &&& 0x3 = 0x3) :
    RiscVInstruction.decode pc ir =
      { instrId := (entryOf ir).1
        instr := (entryOf ir).1.name
        attr := (entryOf ir).2
        pc := pc
        ir := ir
        imm := getImm (entryOf ir).2 ir
        rs1 := (rs1Field ir).setWidth 32
        rs2 := (rs2Field ir).setWidth 32
        rd := (rdField ir).setWidth 32
        shamt := (rs2Field ir).setWidth 32
        pred := (ir.extractLsb' 24 4).setWidth 32
        succ := (ir.extractLsb' 20 4).setWidth 32
        zimm := (rs1Field ir).setWidth 32
        csr := (imm12Field ir).setWidth 32
        npc := pc + getImm (entryOf ir).2 ir } := by
  have h3 : (ir >>> 12) &&& 0x07 = (funct3Field ir).setWidth 32 := ushiftRight_and_low ir 12 3
  have h7 : (ir >>> 25) &&& 0x7f = (funct7Field ir).setWidth 32 := ushiftRight_and_low ir 25 7
  have h12 : (ir >>> 20) &&& 0xfff = (imm12Field ir).setWidth 32 := ushiftRight_and_low ir 20 12
  have hrs1 : (ir >>> 15) &&& 0x1f = (rs1Field ir).setWidth 32 := ushiftRight_and_low ir 15 5
  have hrs2 : (ir >>> 20) &&& 0x1f = (rs2Field ir).setWidth 32 := ushiftRight_and_low ir 20 5
  have hrd : (ir >>> 7) &&& 0x1f = (rdField ir).setWidth 32 := ushiftRight_and_low ir 7 5
  have hpred : (ir >>> 24) &&& 0x0f = (ir.extractLsb' 24 4).setWidth 32 :=
    ushiftRight_and_low ir 24 4
  have hsucc : (ir >>> 20) &&& 0x0f = (ir.extractLsb' 20 4).setWidth 32 :=
    ushiftRight_and_low ir 20 4
  rw [RiscVInstruction.decode, if_neg (not_not_intro hlow)]
  simp only [op_eq_field, h3, h7, h12, hrs1, hrs2, hrd, hpred, hsucc]
  rfl

/-- The sign-extension term copies bit 31 to the bits of its mask. -/
theorem getLsbD_signFill (ir mask : Word) (i : ℕ) :
    (signFill ir mask).getLsbD i = (ir.getLsbD 31 && mask.getLsbD i) := by
  have hsign : ir &&& 0x80000000 ≠ 0 ↔ ir.getLsbD 31 = true := and_twoPow_ne_zero ir 31
  rw [signFill]
  cases h : ir.getLsbD 31 with
  | true => rw [if_pos (hsign.mpr h), Bool.true_and]
  | false =>
    rw [if_neg (hsign.not.mpr (ne_true_of_eq_false h)), Bool.false_and]
    exact BitVec.getLsbD_zero

/-- The I-format immediate is the sign-extended upper twelve bits. -/
theorem getImm_fmtI {attr : Word} (h : attr &&& fmtMask = fmtI) (ir : Word) :
    getImm attr ir = (imm12Field ir).signExtend 32 := by
  rw [getImm, if_pos h]
  apply BitVec.eq_of_getLsbD_eq
  intro i hi
  simp only [imm12Field, BitVec.getLsbD_or, BitVec.getLsbD_and, BitVec.getLsbD_ushiftRight,
    getLsbD_signFill, BitVec.getLsbD_signExtend, BitVec.getLsbD_extractLsb']
  interval_cases i <;> simp [BitVec.msb_eq_getLsbD_last]

/-- The S-format immediate is the sign-extended concatenation of two fields. -/
theorem getImm_fmtS {attr : Word} (h : attr &&& fmtMask = fmtS) (ir : Word) :
    getImm attr ir = (ir.extractLsb' 25 7 ++ ir.extractLsb' 7 5).signExtend 32 := by
  rw [getImm, if_neg (by rw [h]; decide), if_pos h]
  apply BitVec.eq_of_getLsbD_eq
  intro i hi
  simp only [BitVec.getLsbD_or, BitVec.getLsbD_and, BitVec.getLsbD_ushiftRight,
    getLsbD_signFill, BitVec.getLsbD_signExtend, BitVec.getLsbD_append,
    BitVec.getLsbD_extractLsb', BitVec.msb_append]
  interval_cases i <;> simp [BitVec.msb_eq_getLsbD_last]

/-- The B-format immediate: bits 31, 7, 30..25 and 11..8, then a zero bit, sign-extended. -/
theorem getImm_fmtB {attr : Word} (h : attr &&& fmtMask = fmtB) (ir : Word) :
    getImm attr ir = (ir.extractLsb' 31 1 ++ ir.extractLsb' 7 1 ++ ir.extractLsb' 25 6 ++
      ir.extractLsb' 8 4 ++ 0#1).signExtend 32 := by
  rw [getImm, if_neg (by rw [h]; decide), if_neg (by rw [h]; decide), if_pos h]
  apply BitVec.eq_of_getLsbD_eq
  intro i hi
  simp only [BitVec.getLsbD_or, BitVec.getLsbD_and, BitVec.getLsbD_ushiftRight,
    BitVec.getLsbD_shiftLeft, getLsbD_signFill, BitVec.getLsbD_signExtend, BitVec.getLsbD_append,
    BitVec.getLsbD_extractLsb', BitVec.msb_append]
  interval_cases i <;> simp [BitVec.msb_eq_getLsbD_last]

/-- The U-format immediate keeps the upper twenty bits in place. -/
theorem getImm_fmtU {attr : Word} (h : attr &&& fmtMask = fmtU) (ir : Word) :
    getImm attr ir = ir.extractLsb' 12 20 ++ 0#12 := by
  rw [getImm, if_neg (by rw [h]; decide), if_neg (by rw [h]; decide),
    if_neg (by rw [h]; decide), if_pos h]
  apply BitVec.eq_of_getLsbD_eq
  intro i hi
  simp only [BitVec.getLsbD_and, BitVec.getLsbD_append, BitVec.getLsbD_extractLsb']
  interval_cases i <;> simp

/-- The J-format immediate: bits 31, 19..12, 20 and 30..21, then a zero bit, sign-extended. -/
theorem getImm_fmtJ {attr : Word} (h : attr &&& fmtMask = fmtJ) (ir : Word) :
    getImm attr ir = (ir.extractLsb' 31 1 ++ ir.extractLsb' 12 8 ++ ir.extractLsb' 20 1 ++
      ir.extractLsb' 21 10 ++ 0#1).signExtend 32 := by
  rw [getImm, if_neg (by rw [h]; decide), if_neg (by rw [h]; decide),
    if_neg (by rw [h]; decide), if_neg (by rw [h]; decide), if_pos h]
  apply BitVec.eq_of_getLsbD_eq
  intro i hi
  simp only [BitVec.getLsbD_or, BitVec.getLsbD_and, BitVec.getLsbD_ushiftRight,
    getLsbD_signFill, BitVec.getLsbD_signExtend, BitVec.getLsbD_append,
    BitVec.getLsbD_extractLsb', BitVec.msb_append]
  interval_cases i <;> simp [BitVec.msb_eq_getLsbD_last]

end VeriCross
