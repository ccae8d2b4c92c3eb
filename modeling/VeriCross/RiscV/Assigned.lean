import VeriCross.FunctionalCore

/-!
# Assigned encodings

The base instruction set assigns to each operation the words with given fields. The decoder
tests fewer fields than the assignment fixes, so it also accepts reserved words. Here are both
sets, and the exact set of reserved words that the decoder takes for an operation.
-/

namespace VeriCross

open RiscV BitFields

/-- The words assigned to an operation. The unused fields of the fences are ignored. -/
def AssignedEncoding (ir : Word) : InstrId → Prop
  | .unknown => False
  | .lui => opcodeField ir = 0b0110111#7
  | .auipc => opcodeField ir = 0b0010111#7
  | .jal => opcodeField ir = 0b1101111#7
  | .jalr => opcodeField ir = 0b1100111#7 ∧ funct3Field ir = 0b000#3
  | .beq => opcodeField ir = 0b1100011#7 ∧ funct3Field ir = 0b000#3
  | .bne => opcodeField ir = 0b1100011#7 ∧ funct3Field ir = 0b001#3
  | .blt => opcodeField ir = 0b1100011#7 ∧ funct3Field ir = 0b100#3
  | .bge => opcodeField ir = 0b1100011#7 ∧ funct3Field ir = 0b101#3
  | .bltu => opcodeField ir = 0b1100011#7 ∧ funct3Field ir = 0b110#3
  | .bgeu => opcodeField ir = 0b1100011#7 ∧ funct3Field ir = 0b111#3
  | .lb => opcodeField ir = 0b0000011#7 ∧ funct3Field ir = 0b000#3
  | .lh => opcodeField ir = 0b0000011#7 ∧ funct3Field ir = 0b001#3
  | .lw => opcodeField ir = 0b0000011#7 ∧ funct3Field ir = 0b010#3
  | .lbu => opcodeField ir = 0b0000011#7 ∧ funct3Field ir = 0b100#3
  | .lhu => opcodeField ir = 0b0000011#7 ∧ funct3Field ir = 0b101#3
  | .sb => opcodeField ir = 0b0100011#7 ∧ funct3Field ir = 0b000#3
  | .sh => opcodeField ir = 0b0100011#7 ∧ funct3Field ir = 0b001#3
  | .sw => opcodeField ir = 0b0100011#7 ∧ funct3Field ir = 0b010#3
  | .addi => opcodeField ir = 0b0010011#7 ∧ funct3Field ir = 0b000#3
  | .slti => opcodeField ir = 0b0010011#7 ∧ funct3Field ir = 0b010#3
  | .sltiu => opcodeField ir = 0b0010011#7 ∧ funct3Field ir = 0b011#3
  | .xori => opcodeField ir = 0b0010011#7 ∧ funct3Field ir = 0b100#3
  | .ori => opcodeField ir = 0b0010011#7 ∧ funct3Field ir = 0b110#3
  | .andi => opcodeField ir = 0b0010011#7 ∧ funct3Field ir = 0b111#3
  | .slli => opcodeField ir = 0b0010011#7 ∧ funct3Field ir = 0b001#3 ∧ funct7Field ir = 0#7
  | .srli => opcodeField ir = 0b0010011#7 ∧ funct3Field ir = 0b101#3 ∧ funct7Field ir = 0#7
  | .srai => opcodeField ir = 0b0010011#7 ∧ funct3Field ir = 0b101#3 ∧
      funct7Field ir = 0b0100000#7
  | .add => opcodeField ir = 0b0110011#7 ∧ funct3Field ir = 0b000#3 ∧ funct7Field ir = 0#7
  | .sub => opcodeField ir = 0b0110011#7 ∧ funct3Field ir = 0b000#3 ∧
      funct7Field ir = 0b0100000#7
  | .sll => opcodeField ir = 0b0110011#7 ∧ funct3Field ir = 0b001#3 ∧ funct7Field ir = 0#7
  | .slt => opcodeField ir = 0b0110011#7 ∧ funct3Field ir = 0b010#3 ∧ funct7Field ir = 0#7
  | .sltu => opcodeField ir = 0b0110011#7 ∧ funct3Field ir = 0b011#3 ∧ funct7Field ir = 0#7
  | .xor => opcodeField ir = 0b0110011#7 ∧ funct3Field ir = 0b100#3 ∧ funct7Field ir = 0#7
  | .srl => opcodeField ir = 0b0110011#7 ∧ funct3Field ir = 0b101#3 ∧ funct7Field ir = 0#7
  | .sra => opcodeField ir = 0b0110011#7 ∧ funct3Field ir = 0b101#3 ∧
      funct7Field ir = 0b0100000#7
  | .or => opcodeField ir = 0b0110011#7 ∧ funct3Field ir = 0b110#3 ∧ funct7Field ir = 0#7
  | .and => opcodeField ir = 0b0110011#7 ∧ funct3Field ir = 0b111#3 ∧ funct7Field ir = 0#7
  | .fence => opcodeField ir = 0b0001111#7 ∧ funct3Field ir = 0b000#3
  | .fencei => opcodeField ir = 0b0001111#7 ∧ funct3Field ir = 0b001#3
  | .ecall => opcodeField ir = 0b1110011#7 ∧ funct3Field ir = 0b000#3 ∧
      imm12Field ir = 0x000#12 ∧ rdField ir = 0#5 ∧ rs1Field ir = 0#5
  | .ebreak => opcodeField ir = 0b1110011#7 ∧ funct3Field ir = 0b000#3 ∧
      imm12Field ir = 0x001#12 ∧ rdField ir = 0#5 ∧ rs1Field ir = 0#5
  | .mret => opcodeField ir = 0b1110011#7 ∧ funct3Field ir = 0b000#3 ∧
      imm12Field ir = 0x302#12 ∧ rdField ir = 0#5 ∧ rs1Field ir = 0#5
  | .wfi => opcodeField ir = 0b1110011#7 ∧ funct3Field ir = 0b000#3 ∧
      imm12Field ir = 0x105#12 ∧ rdField ir = 0#5 ∧ rs1Field ir = 0#5
  | .csrrw => opcodeField ir = 0b1110011#7 ∧ funct3Field ir = 0b001#3
  | .csrrs => opcodeField ir = 0b1110011#7 ∧ funct3Field ir = 0b010#3
  | .csrrc => opcodeField ir = 0b1110011#7 ∧ funct3Field ir = 0b011#3
  | .csrrwi => opcodeField ir = 0b1110011#7 ∧ funct3Field ir = 0b101#3
  | .csrrsi => opcodeField ir = 0b1110011#7 ∧ funct3Field ir = 0b110#3
  | .csrrci => opcodeField ir = 0b1110011#7 ∧ funct3Field ir = 0b111#3

/-- The reserved words that the decoder takes for an operation. -/
def ReservedDecoded (ir : Word) : Prop :=
  (opcodeField ir = 0b1100111#7 ∧ funct3Field ir ≠ 0b000#3) ∨
  (opcodeField ir = 0b0010011#7 ∧ funct3Field ir = 0b001#3 ∧ funct7Field ir ≠ 0#7) ∨
  (opcodeField ir = 0b0010011#7 ∧ funct3Field ir = 0b101#3 ∧ funct7Field ir ≠ 0#7 ∧
    funct7Field ir ≠ 0b0100000#7) ∨
  (opcodeField ir = 0b0110011#7 ∧ funct7Field ir ≠ 0#7 ∧
    ¬(funct7Field ir = 0b0100000#7 ∧
      (funct3Field ir = 0b000#3 ∨ funct3Field ir = 0b101#3))) ∨
  (opcodeField ir = 0b1110011#7 ∧ funct3Field ir = 0b000#3 ∧
    (imm12Field ir = 0x000#12 ∨ imm12Field ir = 0x001#12 ∨ imm12Field ir = 0x302#12 ∨
      imm12Field ir = 0x105#12) ∧
    (rdField ir ≠ 0#5 ∨ rs1Field ir ≠ 0#5))

instance (ir : Word) : Decidable (ReservedDecoded ir) := by
  rw [ReservedDecoded]
  infer_instance

/-- Every word that the decoder takes for an operation is assigned to it, and the functional
core refuses every word that is assigned to no operation. -/
def AcceptsOnlyAssigned (ir : Word) : Prop :=
  (∀ pc, (RiscVInstruction.decode pc ir).instrId ≠ .unknown →
    AssignedEncoding ir (RiscVInstruction.decode pc ir).instrId) ∧
  ((∀ op, ¬AssignedEncoding ir op) → ∀ (read : PublicRead) (c : Core FunctionalState),
    FunctionalCore.fetch read c = ir → (FunctionalCore.drive read c).1 = false)

/-- A three-bit field has one of eight values. -/
theorem funct3_cases (f : BitVec 3) :
    f = 0b000#3 ∨ f = 0b001#3 ∨ f = 0b010#3 ∨ f = 0b011#3 ∨ f = 0b100#3 ∨ f = 0b101#3 ∨
      f = 0b110#3 ∨ f = 0b111#3 := by
  revert f
  decide

/-- The bit of `funct7` that the decoder tests tells the two assigned values apart. -/
theorem funct7_bit (f : BitVec 7) :
    (f = 0#7 → f.setWidth 32 &&& 0b0100000#32 = 0#32) ∧
      (f = 0b0100000#7 → f.setWidth 32 &&& 0b0100000#32 ≠ 0#32) := by
  revert f
  decide

/-- The dispatch on a 32-bit encoding, stated on the opcode field. -/
theorem entryOf_of_full (ir : Word) (hlow : ir &&& 0x3 = 0x3) :
    entryOf ir =
      if opcodeField ir = 0b0110111#7 then (.lui, fmtU ||| logRd ||| oprRdImm)
      else if opcodeField ir = 0b0010111#7 then (.auipc, fmtU ||| logRd ||| oprRdImm)
      else if opcodeField ir = 0b1101111#7 then (.jal, fmtJ ||| logRd ||| oprRdNpc)
      else if opcodeField ir = 0b1100111#7 then (.jalr, fmtI ||| logRd ||| oprRdOffRs1)
      else if opcodeField ir = 0b1100011#7 then
        (decodeBranch ((funct3Field ir).setWidth 32), fmtB ||| logNone ||| oprRs1Rs2Npc)
      else if opcodeField ir = 0b0000011#7 then
        ((decodeLoad ((funct3Field ir).setWidth 32)).1,
          (decodeLoad ((funct3Field ir).setWidth 32)).2 ||| fmtI ||| logRd ||| oprRdOffRs1)
      else if opcodeField ir = 0b0100011#7 then
        ((decodeStore ((funct3Field ir).setWidth 32)).1,
          (decodeStore ((funct3Field ir).setWidth 32)).2 ||| fmtS ||| oprRs2OffRs1)
      else if opcodeField ir = 0b0010011#7 then
        decodeOpImm ((funct3Field ir).setWidth 32) ((funct7Field ir).setWidth 32)
      else if opcodeField ir = 0b0110011#7 then
        (decodeOp ((funct3Field ir).setWidth 32) ((funct7Field ir).setWidth 32),
          fmtR ||| logRd ||| oprRdRs1Rs2)
      else if opcodeField ir = 0b0001111#7 then decodeMisc ((funct3Field ir).setWidth 32)
      else if opcodeField ir = 0b1110011#7 then
        decodeSystem ((funct3Field ir).setWidth 32) ((imm12Field ir).setWidth 32)
      else (.unknown, 0) := by
  have hop := opcodeField_eq ir hlow
  rw [entryOf, classify]
  refine ite_congr (propext (hop 0b01101#5)) (fun _ => rfl) fun _ => ?_
  refine ite_congr (propext (hop 0b00101#5)) (fun _ => rfl) fun _ => ?_
  refine ite_congr (propext (hop 0b11011#5)) (fun _ => rfl) fun _ => ?_
  refine ite_congr (propext (hop 0b11001#5)) (fun _ => rfl) fun _ => ?_
  refine ite_congr (propext (hop 0b11000#5)) (fun _ => rfl) fun _ => ?_
  refine ite_congr (propext (hop 0b00000#5)) (fun _ => rfl) fun _ => ?_
  refine ite_congr (propext (hop 0b01000#5)) (fun _ => rfl) fun _ => ?_
  refine ite_congr (propext (hop 0b00100#5)) (fun _ => rfl) fun _ => ?_
  refine ite_congr (propext (hop 0b01100#5)) (fun _ => rfl) fun _ => ?_
  refine ite_congr (propext (hop 0b00011#5)) (fun _ => rfl) fun _ => ?_
  exact ite_congr (propext (hop 0b11100#5)) (fun _ => rfl) fun _ => rfl

attribute [local simp] AssignedEncoding ReservedDecoded decodeBranch decodeLoad decodeStore
  decodeMisc decodeOpImm decodeOp decodeSystem

/-- Among the branches, loads, stores and fences nothing reserved is accepted. -/
theorem not_reserved_of_opcode (ir : Word) (hjalr : opcodeField ir ≠ 0b1100111#7)
    (hopImm : opcodeField ir ≠ 0b0010011#7) (hopReg : opcodeField ir ≠ 0b0110011#7)
    (hsystem : opcodeField ir ≠ 0b1110011#7) : ¬ReservedDecoded ir := by
  simp [hjalr, hopImm, hopReg, hsystem]

/-- A decoded branch is assigned. -/
theorem assigned_branch (ir : Word) (hop : opcodeField ir = 0b1100011#7)
    (h : decodeBranch ((funct3Field ir).setWidth 32) ≠ .unknown) :
    AssignedEncoding ir (decodeBranch ((funct3Field ir).setWidth 32)) := by
  revert h
  rcases funct3_cases (funct3Field ir) with hf | hf | hf | hf | hf | hf | hf | hf <;>
    simp [hop, hf]

/-- A decoded load is assigned. -/
theorem assigned_load (ir : Word) (hop : opcodeField ir = 0b0000011#7)
    (h : (decodeLoad ((funct3Field ir).setWidth 32)).1 ≠ .unknown) :
    AssignedEncoding ir (decodeLoad ((funct3Field ir).setWidth 32)).1 := by
  revert h
  rcases funct3_cases (funct3Field ir) with hf | hf | hf | hf | hf | hf | hf | hf <;>
    simp [hop, hf]

/-- A decoded store is assigned. -/
theorem assigned_store (ir : Word) (hop : opcodeField ir = 0b0100011#7)
    (h : (decodeStore ((funct3Field ir).setWidth 32)).1 ≠ .unknown) :
    AssignedEncoding ir (decodeStore ((funct3Field ir).setWidth 32)).1 := by
  revert h
  rcases funct3_cases (funct3Field ir) with hf | hf | hf | hf | hf | hf | hf | hf <;>
    simp [hop, hf]

/-- A decoded fence is assigned. -/
theorem assigned_misc (ir : Word) (hop : opcodeField ir = 0b0001111#7)
    (h : (decodeMisc ((funct3Field ir).setWidth 32)).1 ≠ .unknown) :
    AssignedEncoding ir (decodeMisc ((funct3Field ir).setWidth 32)).1 := by
  revert h
  rcases funct3_cases (funct3Field ir) with hf | hf | hf | hf | hf | hf | hf | hf <;>
    simp [hop, hf]

/-- A decoded operation with an immediate is assigned unless it is a shift with a reserved
`funct7`. -/
theorem assigned_opImm_iff (ir : Word) (hop : opcodeField ir = 0b0010011#7) :
    AssignedEncoding ir
        (decodeOpImm ((funct3Field ir).setWidth 32) ((funct7Field ir).setWidth 32)).1 ↔
      ¬ReservedDecoded ir := by
  obtain ⟨hzero, hbit⟩ := funct7_bit (funct7Field ir)
  rcases funct3_cases (funct3Field ir) with hf | hf | hf | hf | hf | hf | hf | hf
  case inr.inr.inr.inr.inr.inl =>
    -- the right shifts
    simp only [decodeOpImm, ReservedDecoded, hop, hf]
    by_cases h20 : (funct7Field ir).setWidth 32 &&& 0b0100000#32 = 0#32
    · have hne : funct7Field ir ≠ 0b0100000#7 := fun heq => hbit heq h20
      simp [h20, hop, hf, hne]
    · have hne : funct7Field ir ≠ 0#7 := fun heq => h20 (hzero heq)
      simp [h20, hop, hf, hne]
  all_goals simp [hop, hf]

/-- A decoded register operation is assigned unless its `funct7` is reserved. -/
theorem assigned_op_iff (ir : Word) (hop : opcodeField ir = 0b0110011#7) :
    AssignedEncoding ir
        (decodeOp ((funct3Field ir).setWidth 32) ((funct7Field ir).setWidth 32)) ↔
      ¬ReservedDecoded ir := by
  obtain ⟨hzero, hbit⟩ := funct7_bit (funct7Field ir)
  by_cases h20 : (funct7Field ir).setWidth 32 &&& 0b0100000#32 = 0#32
  · have hne : funct7Field ir ≠ 0b0100000#7 := fun heq => hbit heq h20
    rcases funct3_cases (funct3Field ir) with hf | hf | hf | hf | hf | hf | hf | hf <;>
      simp [hop, hf, h20, hne]
  · have hne : funct7Field ir ≠ 0#7 := fun heq => h20 (hzero heq)
    rcases funct3_cases (funct3Field ir) with hf | hf | hf | hf | hf | hf | hf | hf <;>
      simp [hop, hf, h20, hne]

/-- A decoded system instruction is assigned unless it is an environment instruction with a
register field that is not zero. -/
theorem assigned_system_iff (ir : Word) (hop : opcodeField ir = 0b1110011#7)
    (h : (decodeSystem ((funct3Field ir).setWidth 32) ((imm12Field ir).setWidth 32)).1 ≠
      .unknown) :
    AssignedEncoding ir
        (decodeSystem ((funct3Field ir).setWidth 32) ((imm12Field ir).setWidth 32)).1 ↔
      ¬ReservedDecoded ir := by
  revert h
  rcases funct3_cases (funct3Field ir) with hf | hf | hf | hf | hf | hf | hf | hf
  case inl =>
    by_cases e0 : imm12Field ir = 0x000#12
    · simp [hop, hf, e0]
    · by_cases e1 : imm12Field ir = 0x001#12
      · simp [hop, hf, e1]
      · by_cases e2 : imm12Field ir = 0x302#12
        · simp [hop, hf, e2]
        · by_cases e3 : imm12Field ir = 0x105#12
          · simp [hop, hf, e3]
          · intro h
            refine absurd ?_ h
            have himm : ∀ v : BitVec 12, imm12Field ir ≠ v →
                (imm12Field ir).setWidth 32 ≠ v.setWidth 32 :=
              fun v => (setWidth_inj (by decide)).not.mpr
            have h0 : (imm12Field ir).setWidth 32 ≠ (0x000 : Word) := himm _ e0
            have h1 : (imm12Field ir).setWidth 32 ≠ (0x001 : Word) := himm _ e1
            have h2 : (imm12Field ir).setWidth 32 ≠ (0x302 : Word) := himm _ e2
            have h3 : (imm12Field ir).setWidth 32 ≠ (0x105 : Word) := himm _ e3
            rw [decodeSystem, if_pos (by rw [hf]; rfl), if_neg h0, if_neg h1, if_neg h2, if_neg h3]
  all_goals simp [hop, hf]

/-- A decoded word is assigned to its operation exactly when it is not reserved. -/
theorem assigned_entryOf_iff (ir : Word) (hlow : ir &&& 0x3 = 0x3)
    (h : (entryOf ir).1 ≠ .unknown) :
    AssignedEncoding ir (entryOf ir).1 ↔ ¬ReservedDecoded ir := by
  rw [entryOf_of_full ir hlow] at h ⊢
  by_cases hjalr : opcodeField ir = 0b1100111#7
  · simp [hjalr]
  by_cases hopImm : opcodeField ir = 0b0010011#7
  · simpa [hopImm] using assigned_opImm_iff ir hopImm
  by_cases hopReg : opcodeField ir = 0b0110011#7
  · simpa [hopReg] using assigned_op_iff ir hopReg
  by_cases hsystem : opcodeField ir = 0b1110011#7
  · simp only [hsystem, BitVec.reduceEq, if_false, if_true] at h ⊢
    exact assigned_system_iff ir hsystem h
  -- the other opcodes have no reserved words
  refine iff_of_true ?_ (not_reserved_of_opcode ir hjalr hopImm hopReg hsystem)
  revert h
  simp only [hjalr, hopImm, hopReg, hsystem, if_false]
  split_ifs with hlui hauipc hjal hbranch hload hstore hmisc <;> intro h
  · exact hlui
  · exact hauipc
  · exact hjal
  · exact assigned_branch ir hbranch h
  · exact assigned_load ir hload h
  · exact assigned_store ir hstore h
  · exact assigned_misc ir hmisc h
  · exact absurd rfl h

/-- Every reserved word of the list is taken for some operation. -/
theorem entryOf_ne_unknown_of_reserved (ir : Word) (hlow : ir &&& 0x3 = 0x3)
    (h : ReservedDecoded ir) : (entryOf ir).1 ≠ .unknown := by
  rw [entryOf_of_full ir hlow]
  rcases h with ⟨hop, -⟩ | ⟨hop, hf, -⟩ | ⟨hop, hf, -⟩ | ⟨hop, -⟩ | ⟨hop, hf, himm, -⟩
  · simp [hop]
  · simp [hop, hf]
  · simp only [hop, hf, decodeOpImm, BitVec.reduceEq, BitVec.reduceSetWidth, if_false, if_true]
    split <;> simp
  · simp only [hop, BitVec.reduceEq, if_false, if_true]
    rcases funct3_cases (funct3Field ir) with hf | hf | hf | hf | hf | hf | hf | hf <;>
      simp only [hf, decodeOp, BitVec.reduceEq, BitVec.reduceSetWidth, if_false, if_true] <;>
      first | (split <;> simp) | simp
  · rcases himm with himm | himm | himm | himm <;> simp [hop, hf, himm]

/-- A word of the list is a 32-bit encoding. -/
theorem low_bits_of_reserved {ir : Word} (h : ReservedDecoded ir) : ir &&& 0x3 = 0x3 := by
  rw [low_bits_eq_field]
  rcases h with ⟨hop, -⟩ | ⟨hop, -⟩ | ⟨hop, -⟩ | ⟨hop, -⟩ | ⟨hop, -⟩ <;> rw [hop] <;> decide

/-- The decoder accepts only assigned encodings exactly at the words outside the list. -/
theorem acceptsOnlyAssigned_iff (ir : Word) : AcceptsOnlyAssigned ir ↔ ¬ReservedDecoded ir := by
  have hdecode : ∀ pc, ir &&& 0x3 = 0x3 →
      (RiscVInstruction.decode pc ir).instrId = (entryOf ir).1 := fun pc hlow => by
    rw [decode_of_full pc ir hlow]
  constructor
  · rintro ⟨hassigned, -⟩ hreserved
    have hlow := low_bits_of_reserved hreserved
    have hknown := entryOf_ne_unknown_of_reserved ir hlow hreserved
    have hentry := hassigned 0 (by rwa [hdecode 0 hlow])
    rw [hdecode 0 hlow] at hentry
    exact (assigned_entryOf_iff ir hlow hknown).mp hentry hreserved
  · intro hreserved
    have hassigned : ∀ pc, (RiscVInstruction.decode pc ir).instrId ≠ .unknown →
        AssignedEncoding ir (RiscVInstruction.decode pc ir).instrId := by
      intro pc hknown
      by_cases hlow : ir &&& 0x3 = 0x3
      · rw [hdecode pc hlow] at hknown ⊢
        exact (assigned_entryOf_iff ir hlow hknown).mpr hreserved
      · exact absurd (decode_of_short pc ir hlow) hknown
    refine ⟨hassigned, fun hnone read c hfetch => ?_⟩
    have hdrive := FunctionalCore.drive_fst read c
    cases hsuccess : (FunctionalCore.drive read c).1 with
    | false => rfl
    | true =>
      obtain ⟨-, hknown⟩ := hdrive.mp hsuccess
      rw [FunctionalCore.instruction, hfetch] at hknown
      exact absurd (hassigned _ hknown) (hnone _)

/-- A multiplication, `mul a0, a1, a2`, is taken for an addition. -/
theorem mul_accepted_as_add :
    (RiscVInstruction.decode 0 0x02c58533).instrId = .add ∧ ¬AcceptsOnlyAssigned 0x02c58533 := by
  refine ⟨by decide, ?_⟩
  intro h
  have hadd := h.1 0 (by decide)
  exact absurd hadd.2.2 (by decide)

end VeriCross
