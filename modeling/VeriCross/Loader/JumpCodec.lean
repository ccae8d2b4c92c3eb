import VeriCross.Loader.Boot
import VeriCross.RiscV.Assigned

/-!
# The jump encoder against the decoder

The loader builds the word of the boot jump and the decoder takes it apart, with two bit
permutations written independently. On the offsets that a jump represents, the even ones of
21 bits, each undoes the other.
-/

namespace VeriCross

open RiscV

/-- A word that the decoder takes for a jump has the opcode of one. -/
theorem opcodeField_of_jal {pc ir : Word} (h : (RiscVInstruction.decode pc ir).instrId = .jal) :
    ir &&& 0x3 = 0x3 ∧ opcodeField ir = 0b1101111#7 := by
  by_cases hlow : ir &&& 0x3 = 0x3
  · refine ⟨hlow, ?_⟩
    rw [decode_of_full pc ir hlow] at h
    change (entryOf ir).1 = .jal at h
    have hknown : (entryOf ir).1 ≠ .unknown := by
      rw [h]
      decide
    by_cases hreserved : ReservedDecoded ir
    · -- no reserved word has the opcode of a jump
      rw [entryOf_of_full ir hlow] at h
      rcases hreserved with ⟨hop, -⟩ | ⟨hop, hf, -⟩ | ⟨hop, hf, -⟩ | ⟨hop, -⟩ | ⟨hop, hf, -⟩
      · simp [hop] at h
      · simp [hop, hf, decodeOpImm] at h
      · simp only [hop, hf, decodeOpImm, BitVec.reduceEq, BitVec.reduceSetWidth, if_false,
          if_true] at h
        split at h <;> cases h
      · simp only [hop, BitVec.reduceEq, if_false, if_true] at h
        unfold decodeOp at h
        split_ifs at h
      · simp only [hop, hf, decodeSystem, BitVec.reduceEq, BitVec.reduceSetWidth, if_false,
          if_true] at h
        split_ifs at h
    · have hassigned := (assigned_entryOf_iff ir hlow hknown).mpr hreserved
      rwa [h] at hassigned
  · rw [decode_of_short pc ir hlow] at h
    cases h

/-- The immediate of a jump made by the loader: the low 21 bits without bit 0, sign-extended. -/
theorem imm_decode_makeJal (imm pc : Word) :
    (RiscVInstruction.decode pc (Loader.makeJal imm)).imm =
      (imm.setWidth 21 &&& 0x1ffffe).signExtend 32 := by
  have hlow : imm.extractLsb' 1 20 ++ 0#1 = imm.setWidth 21 &&& 0x1ffffe := by
    apply BitVec.eq_of_getLsbD_eq
    intro i hi
    rw [BitVec.getLsbD_append, BitVec.getLsbD_extractLsb', BitVec.getLsbD_and,
      BitVec.getLsbD_setWidth]
    interval_cases i <;> simp
  rw [Loader.makeJal_eq_encode, Instr.imm_decode (.jal 0 (imm.extractLsb' 1 20)) pc rfl, hlow]

/-- Encoding the decoded offset of a jump that links nothing gives the word back. -/
theorem makeJal_imm {pc ir : Word} (hjal : (RiscVInstruction.decode pc ir).instrId = .jal)
    (hrd : (RiscVInstruction.decode pc ir).rd = 0) :
    Loader.makeJal (RiscVInstruction.decode pc ir).imm = ir := by
  obtain ⟨hlow, hop⟩ := opcodeField_of_jal hjal
  rw [decode_of_full pc ir hlow] at hrd ⊢
  have hrd : rdField ir = 0#5 := (BitFields.setWidth_inj (by decide)).mp hrd
  have hattr : (entryOf ir).2 &&& fmtMask = fmtJ := by
    rw [entryOf_of_full ir hlow, if_neg (by rw [hop]; decide), if_neg (by rw [hop]; decide),
      if_pos hop]
    rfl
  dsimp only
  rw [getImm_fmtJ hattr, Loader.makeJal_eq_encode, Instr.encode, layoutUpper]
  apply BitVec.eq_of_getLsbD_eq
  intro i hi
  have hopBit : i < 7 → ir.getLsbD i = (0b1101111#7).getLsbD i := by
    intro hlt
    rw [← hop, opcodeField, BitVec.getLsbD_extractLsb', Nat.zero_add]
    simp [hlt]
  have hrdBit : 7 ≤ i → i < 12 → ir.getLsbD i = false := by
    intro hge hlt
    have hbit : (rdField ir).getLsbD (i - 7) = false := by rw [hrd]; simp
    rw [rdField, BitVec.getLsbD_extractLsb', show 7 + (i - 7) = i by omega] at hbit
    simpa [show i - 7 < 5 by omega] using hbit
  simp only [BitVec.getLsbD_append, BitVec.getLsbD_extractLsb', BitVec.getLsbD_signExtend]
  interval_cases i <;> simp_all

/-- The target of a jump made by the loader is at the given distance exactly when this is even and
in the range of the offset. -/
theorem npc_makeJal_iff (imm pc : Word) :
    (RiscVInstruction.decode pc (Loader.makeJal imm)).npc = pc + imm ↔
      imm.toNat % 2 = 0 ∧ -2 ^ 20 ≤ imm.toInt ∧ imm.toInt ≤ 2 ^ 20 - 2 := by
  have hreach := jumpReaches_iff (initialPc + imm)
  have hoffset : initialPc + imm - initialPc = imm := by
    rw [BitVec.add_comm, BitVec.add_sub_cancel]
  rw [JumpReaches, hoffset, BitVec.add_right_inj] at hreach
  rw [Loader.makeJal_eq_encode, Instr.npc_decode, Instr.imm_decode _ pc rfl, BitVec.add_right_inj,
    hreach]
  have hint := BitVec.toInt_eq_toNat_cond imm
  split at hint <;> omega

/-- For every offset and address, the decoder takes the word made by the loader for a jump that
links nothing, with the low 21 bits of the offset, without bit 0 and sign-extended; it goes to the
given distance exactly when a jump can represent it. Every jump that links nothing is made from its
decoded offset. -/
theorem makeJal_decode_inverse (imm pc : Word) :
    let inst := RiscVInstruction.decode pc (Loader.makeJal imm)
    inst.instrId = .jal ∧ inst.rd = 0 ∧
      inst.imm = (imm.setWidth 21 &&& 0x1ffffe).signExtend 32 ∧
      (inst.npc = pc + imm ↔
        imm.toNat % 2 = 0 ∧ -2 ^ 20 ≤ imm.toInt ∧ imm.toInt ≤ 2 ^ 20 - 2) ∧
      ∀ ir, (RiscVInstruction.decode pc ir).instrId = .jal →
        (RiscVInstruction.decode pc ir).rd = 0 →
          Loader.makeJal (RiscVInstruction.decode pc ir).imm = ir := by
  intro inst
  have hid : inst.instrId = .jal := by
    change (RiscVInstruction.decode pc (Loader.makeJal imm)).instrId = .jal
    rw [Loader.makeJal_eq_encode]
    exact Instr.instrId_decode _ pc
  have hrd : inst.rd = 0 := by
    change (RiscVInstruction.decode pc (Loader.makeJal imm)).rd = 0
    rw [Loader.makeJal_eq_encode]
    exact Instr.operandsOf_decode (.jal 0 (imm.extractLsb' 1 20)) pc
  exact ⟨hid, hrd, imm_decode_makeJal imm pc, npc_makeJal_iff imm pc, fun _ => makeJal_imm⟩

/-- The boot jump of a program at the next word, taken apart and built again. -/
theorem makeJal_four :
    Loader.makeJal (RiscVInstruction.decode 0 0x0040006f).imm = 0x0040006f :=
  (makeJal_decode_inverse 4 0).2.2.2.2 0x0040006f (by decide) (by decide)

end VeriCross
