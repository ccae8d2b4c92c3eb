import VeriCross.FunctionalCore
import VeriCross.RiscV.Semantics

/-!
# The functional core against the manual

Each branch of the `switch` computes on words what the manual says about numbers. An instruction
that accesses no memory leaves the registers and the program counter that the manual gives, with
one exception: `jalr` reads its base register after the link register was written, and keeps
bit 0 of the target.
-/

namespace VeriCross

open RiscV

/-! Words and numbers. -/

/-- A decoded register field selects the register that it names. -/
theorem regIndex_setWidth (r : BitVec 5) : regIndex (r.setWidth 32) = regNum r := by
  apply Fin.ext
  have hlt := r.isLt
  simp only [regIndex, regNum, Fin.ofNat, BitVec.toNat_setWidth]
  omega

/-- The low five bits of a word. -/
theorem toNat_and_31 (a : Word) : (a &&& 0x1f).toNat = a.toNat % 32 :=
  BitFields.toNat_and_low a 5 (by decide)

/-- Shifting left multiplies by a power of two. -/
theorem shiftLeft_eq_eval (a : Word) (n : ℕ) : a <<< n = ShiftOp.slli.eval a n := by
  apply BitVec.eq_of_toNat_eq
  rw [BitVec.toNat_shiftLeft, Nat.shiftLeft_eq, ShiftOp.eval, BitVec.toNat_ofNat]

/-- A logical shift to the right divides the unsigned number. -/
theorem ushiftRight_eq_eval (a : Word) (n : ℕ) : a >>> n = ShiftOp.srli.eval a n := by
  apply BitVec.eq_of_toNat_eq
  have hlt : a.toNat / 2 ^ n < 2 ^ 32 := (Nat.div_le_self ..).trans_lt a.isLt
  rw [BitVec.toNat_ushiftRight, Nat.shiftRight_eq_div_pow, ShiftOp.eval, BitVec.toNat_ofNat,
    Nat.mod_eq_of_lt hlt]

/-- An arithmetic shift to the right divides the signed number, rounding down. -/
theorem sshiftRight_eq_eval (a : Word) (n : ℕ) : a.sshiftRight n = ShiftOp.srai.eval a n := by
  rw [BitVec.sshiftRight, Int.shiftRight_eq_div_pow, ShiftOp.eval]
  norm_cast

/-- A signed comparison of words compares their signed numbers. -/
theorem ite_slt (a b x y : Word) :
    (if a.slt b then x else y) = if a.toInt < b.toInt then x else y := by
  simp only [BitVec.slt_iff_toInt_lt]

/-- The amount of a constant left shift is the low part of its immediate. -/
theorem shamt_of_imm (shamt : BitVec 5) :
    (((ShiftOp.slli.funct7 ++ shamt).signExtend 32 : Word) &&& 0x1f).toNat = shamt.toNat := by
  revert shamt
  decide

/-- A word with a complete opcode is looked up by its fields. -/
theorem instrId_decode_fields (pc : Word) {ir : Word}
    (hop : (opcodeField ir).extractLsb' 0 2 = 0b11#2) :
    (RiscVInstruction.decode pc ir).instrId = (entryOf ir).1 := by
  rw [decode_of_full pc ir ((low_bits_eq_field ir).mpr hop)]

/-! The `switch` on instructions that access no memory. -/

/-- The registers that the `switch` leaves, before register zero is cleared. -/
def putBack (reg : RegIndex → Word) (result : Option (BitVec 5 × Word)) : RegIndex → Word :=
  result.elim reg fun r => Function.update reg (regNum r.1) r.2

/-- Clearing register zero after a result was put back is writing the result back. -/
theorem clear_putBack {reg : RegIndex → Word} (hzero : reg regZero = 0)
    (result : Option (BitVec 5 × Word)) :
    Function.update (putBack reg result) regZero 0 = writeBack reg result := by
  have hsame : Function.update reg regZero 0 = reg := by
    rw [← hzero]
    exact Function.update_eq_self ..
  cases result with
  | none => exact hsame
  | some r =>
    obtain ⟨rd, data⟩ := r
    rw [putBack, writeBack, Option.elim_some]
    by_cases hrd : rd = 0
    · subst hrd
      rw [if_pos rfl]
      exact (Function.update_idem ..).trans hsame
    · have hne : regNum rd ≠ regZero := fun h => hrd (BitVec.eq_of_toNat_eq (congrArg Fin.val h))
      rw [if_neg hrd, Function.update_comm hne, hsame]

section Switch

variable (read : PublicRead) (pc : Word) (reg : RegIndex → Word) (memif : CoreMemoryIF)

/-- A jump or branch other than `jalr` goes where the manual says. -/
theorem execute_control {i : Instr} (hi : i.isControl = true)
    (hjalr : ∀ rd rs1 offset, i ≠ .jalr rd rs1 offset) :
    execute read pc (RiscVInstruction.decode pc i.encode) reg memif =
      some ⟨putBack reg (i.result? reg pc), i.nextPc reg pc, memif, 0⟩ := by
  have hid := i.instrId_decode pc
  have hops := i.operandsOf_decode pc
  have hnpc := i.npc_decode pc
  cases i with
  | jal rd offset =>
    rw [Instr.imm_decode _ pc rfl] at hnpc
    rw [execute]
    rw [hid, hnpc, hops]
    simp only [Instr.id, regIndex_setWidth]
    rfl
  | jalr rd rs1 offset => exact absurd rfl (hjalr rd rs1 offset)
  | branch o rs1 rs2 offset =>
    obtain ⟨hrs1, hrs2⟩ := hops
    rw [Instr.imm_decode _ pc rfl] at hnpc
    rw [execute]
    rw [hid, hnpc, hrs1, hrs2]
    simp only [regIndex_setWidth]
    cases o with
    | beq | bne | blt | bge | bltu | bgeu => rfl
  | _ => cases hi

/-- `jalr` reads its base register after the link was written, and keeps bit 0 of the target. -/
theorem execute_jalr (rd rs1 : BitVec 5) (offset : BitVec 12) :
    execute read pc (RiscVInstruction.decode pc (Instr.jalr rd rs1 offset).encode) reg memif =
      let linked := Function.update reg (regNum rd) (pc + 4)
      some ⟨linked, linked (regNum rs1) + offset.signExtend 32, memif, 0⟩ := by
  obtain ⟨hrd, hrs1⟩ := (Instr.jalr rd rs1 offset).operandsOf_decode pc
  rw [execute]
  rw [Instr.instrId_decode, Instr.imm_decode _ pc rfl, hrd, hrs1]
  simp only [Instr.id, regIndex_setWidth]

/-- An operation with an immediate writes its result. -/
theorem execute_opImm (o : ImmOp) (rd rs1 : BitVec 5) (imm : BitVec 12) :
    let i := Instr.opImm o rd rs1 imm
    execute read pc (RiscVInstruction.decode pc i.encode) reg memif =
      some ⟨putBack reg (i.result? reg pc), pc + 4, memif, 0⟩ := by
  intro i
  obtain ⟨hrd, hrs1⟩ := i.operandsOf_decode pc
  rw [execute]
  rw [Instr.instrId_decode, Instr.imm_decode _ pc rfl, hrd, hrs1]
  simp only [regIndex_setWidth]
  cases o with
  | addi | sltiu | xori | ori | andi => rfl
  | slti =>
    simp only [i, Instr.id, ite_slt]
    rfl

/-- A shift by a constant writes its result. -/
theorem execute_shift (o : ShiftOp) (rd rs1 shamt : BitVec 5) :
    let i := Instr.shift o rd rs1 shamt
    execute read pc (RiscVInstruction.decode pc i.encode) reg memif =
      some ⟨putBack reg (i.result? reg pc), pc + 4, memif, 0⟩ := by
  intro i
  obtain ⟨hrd, hrs1, hshamt⟩ := i.operandsOf_decode pc
  rw [execute]
  rw [Instr.instrId_decode, Instr.imm_decode _ pc rfl, hrd, hrs1, hshamt]
  simp only [regIndex_setWidth]
  have hamount : (shamt.setWidth 32).toNat = shamt.toNat :=
    BitVec.toNat_setWidth_of_le (by decide)
  cases o with
  | slli =>
    simp only [i, Instr.id, shamt_of_imm, shiftLeft_eq_eval]
    rfl
  | srli =>
    simp only [i, Instr.id, hamount, ushiftRight_eq_eval]
    rfl
  | srai =>
    simp only [i, Instr.id, hamount, sshiftRight_eq_eval]
    rfl

/-- An operation on two registers writes its result. -/
theorem execute_op (o : RegOp) (rd rs1 rs2 : BitVec 5) :
    let i := Instr.op o rd rs1 rs2
    execute read pc (RiscVInstruction.decode pc i.encode) reg memif =
      some ⟨putBack reg (i.result? reg pc), pc + 4, memif, 0⟩ := by
  intro i
  obtain ⟨hrd, hrs1, hrs2⟩ := i.operandsOf_decode pc
  rw [execute]
  rw [Instr.instrId_decode, hrd, hrs1, hrs2]
  simp only [regIndex_setWidth]
  cases o with
  | add | sub | sltu | xor | or | and => rfl
  | slt =>
    simp only [i, Instr.id, ite_slt]
    rfl
  | sll =>
    simp only [i, Instr.id, toNat_and_31, shiftLeft_eq_eval]
    rfl
  | srl =>
    simp only [i, Instr.id, toNat_and_31, ushiftRight_eq_eval]
    rfl
  | sra =>
    simp only [i, Instr.id, toNat_and_31, sshiftRight_eq_eval]
    rfl

/-- An integer computation or a fence leaves what the manual says. -/
theorem execute_integer {i : Instr} {ir : Word} (hi : i.isInteger = true) (hir : i.Encodes ir) :
    execute read pc (RiscVInstruction.decode pc ir) reg memif =
      some ⟨putBack reg (i.result? reg pc), pc + 4, memif, 0⟩ := by
  cases i with
  | lui rd imm =>
    subst hir
    have hrd : _ = rd.setWidth 32 := (Instr.lui rd imm).operandsOf_decode pc
    rw [execute]
    rw [Instr.instrId_decode, Instr.imm_decode _ pc rfl, hrd]
    simp only [Instr.id, regIndex_setWidth]
    rfl
  | auipc rd imm =>
    subst hir
    have hrd : _ = rd.setWidth 32 := (Instr.auipc rd imm).operandsOf_decode pc
    rw [execute]
    rw [Instr.instrId_decode, Instr.npc_decode, Instr.imm_decode _ pc rfl, hrd]
    simp only [Instr.id, regIndex_setWidth]
    rfl
  | opImm o rd rs1 imm =>
    subst hir
    exact execute_opImm ..
  | shift o rd rs1 shamt =>
    subst hir
    exact execute_shift ..
  | op o rd rs1 rs2 =>
    subst hir
    exact execute_op ..
  | fence pred succ =>
    obtain ⟨hop, hf3, -, -⟩ := hir
    rw [execute]
    rw [instrId_decode_fields pc (hop ▸ rfl)]
    rw [entryOf, hop, hf3]
    rfl
  | fencei =>
    obtain ⟨hop, hf3⟩ := hir
    rw [execute]
    rw [instrId_decode_fields pc (hop ▸ rfl)]
    rw [entryOf, hop, hf3]
    rfl
  | _ => cases hi

end Switch

end VeriCross
