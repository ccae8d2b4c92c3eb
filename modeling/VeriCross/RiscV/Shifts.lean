import VeriCross.RiscV.Execution

/-!
# The amounts of the shifts

The language defines a shift of a 32-bit value by an amount from 0 to 31. `drive` shifts by bits of
an address, by the low bits of a register, by the field `shamt`, and in one place by the
sign-extended immediate, of which the decoder checks no bit.
-/

namespace VeriCross

open RiscV BitFields

/-- A shift that the source evaluates. -/
structure Shift where
  op : ShiftOp
  value : Word
  amount : ℤ

/-- The language defines the shift. -/
def Shift.InRange (s : Shift) : Prop := 0 ≤ s.amount ∧ s.amount ≤ 31

/-- What a processor computes that takes the low five bits of the amount. -/
def Shift.result (s : Shift) : Word := s.op.eval s.value (s.amount % 32).toNat

/-- The shifts of the branch that `drive` takes: the data and the mask of a store, or the result of
a shift instruction. -/
def shifts (inst : RiscVInstruction) (reg : RegIndex → Word) : List Shift :=
  let rs1 := reg (regIndex inst.rs1)
  let rs2 := reg (regIndex inst.rs2)
  let addr := rs1 + inst.imm
  match inst.instrId with
  | .sb => [⟨.slli, rs2, (addr &&& 0x3).toNat * 8⟩, ⟨.slli, 0x1, (addr &&& 0x3).toNat⟩]
  | .sh => [⟨.slli, rs2, (addr &&& 0x2).toNat * 8⟩, ⟨.slli, 0x3, (addr &&& 0x2).toNat⟩]
  | .slli => [⟨.slli, rs1, inst.imm.toInt⟩]
  | .srli => [⟨.srli, rs1, inst.shamt.toNat⟩]
  | .srai => [⟨.srai, rs1, inst.shamt.toNat⟩]
  | .sll => [⟨.slli, rs1, (rs2 &&& 0x1f).toNat⟩]
  | .srl => [⟨.srli, rs1, (rs2 &&& 0x1f).toNat⟩]
  | .sra => [⟨.srai, rs1, (rs2 &&& 0x1f).toNat⟩]
  | _ => []

/-- The low bits of an address are a multiple of a byte lane. -/
theorem toNat_and_lane (addr : Word) : (addr &&& 0x3).toNat < 4 ∧ (addr &&& 0x2).toNat ≤ 2 := by
  constructor
  · rw [BitVec.toNat_and]
    exact Nat.lt_of_le_of_lt Nat.and_le_right (by decide)
  · rw [BitVec.toNat_and]
    exact Nat.and_le_right

/-- A shift by a number that is in range. -/
theorem Shift.result_natCast (op : ShiftOp) (value : Word) {amount : ℕ} (h : amount < 32) :
    Shift.result ⟨op, value, amount⟩ = op.eval value amount := by
  rw [Shift.result, show ((amount : ℤ) % 32).toNat = amount by omega]

/-- A shift by a signed word takes its low five bits. -/
theorem Shift.result_toInt (op : ShiftOp) (value imm : Word) :
    Shift.result ⟨op, value, imm.toInt⟩ = op.eval value (imm &&& 0x1f).toNat := by
  have hint := BitVec.toInt_eq_toNat_cond imm
  have hlow : (imm.toInt % 32).toNat = imm.toNat % 32 := by
    split at hint <;> omega
  rw [Shift.result, toNat_and_31, hlow]

/-- The `switch` writes the result of the shift into the destination register, or puts the results
of both on the memory interface. -/
theorem execute_shifts (read : PublicRead) (pc : Word) (inst : RiscVInstruction)
    (reg : RegIndex → Word) (memif : CoreMemoryIF) (hshamt : inst.shamt.toNat < 32) :
    match shifts inst reg with
    | [s] => execute read pc inst reg memif =
        some ⟨Function.update reg (regIndex inst.rd) s.result, pc + 4, memif, 0⟩
    | [data, mask] => execute read pc inst reg memif =
        some ⟨reg, pc + 4,
          memif.store (reg (regIndex inst.rs1) + inst.imm) data.result mask.result, 0⟩
    | _ => True := by
  obtain ⟨hbyte, hhalf⟩ := toNat_and_lane (reg (regIndex inst.rs1) + inst.imm)
  have hreg : (reg (regIndex inst.rs2) &&& 0x1f).toNat < 32 := by
    rw [toNat_and_31]
    omega
  have hbyte8 : (((reg (regIndex inst.rs1) + inst.imm) &&& 0x3).toNat : ℤ) * 8 =
      (((reg (regIndex inst.rs1) + inst.imm) &&& 0x3).toNat * 8 : ℕ) := rfl
  have hhalf8 : (((reg (regIndex inst.rs1) + inst.imm) &&& 0x2).toNat : ℤ) * 8 =
      (((reg (regIndex inst.rs1) + inst.imm) &&& 0x2).toNat * 8 : ℕ) := rfl
  unfold execute shifts
  cases inst.instrId with
  | sb =>
    dsimp only
    rw [hbyte8, Shift.result_natCast _ _ (by omega), Shift.result_natCast _ _ (by omega),
      shiftLeft_eq_eval, shiftLeft_eq_eval]
  | sh =>
    dsimp only
    rw [hhalf8, Shift.result_natCast _ _ (by omega), Shift.result_natCast _ _ (by omega),
      shiftLeft_eq_eval, shiftLeft_eq_eval]
  | slli =>
    dsimp only
    rw [Shift.result_toInt, shiftLeft_eq_eval]
  | srli =>
    dsimp only
    rw [Shift.result_natCast _ _ hshamt, ushiftRight_eq_eval]
  | srai =>
    dsimp only
    rw [Shift.result_natCast _ _ hshamt, sshiftRight_eq_eval]
  | sll =>
    dsimp only
    rw [Shift.result_natCast _ _ hreg, shiftLeft_eq_eval]
  | srl =>
    dsimp only
    rw [Shift.result_natCast _ _ hreg, ushiftRight_eq_eval]
  | sra =>
    dsimp only
    rw [Shift.result_natCast _ _ hreg, sshiftRight_eq_eval]
  | _ => exact trivial

/-- The immediate of a left shift by a constant is the sign-extended upper field of the word. -/
theorem imm_of_slli {pc ir : Word} (h : (RiscVInstruction.decode pc ir).instrId = .slli) :
    (RiscVInstruction.decode pc ir).imm = (imm12Field ir).signExtend 32 := by
  by_cases hlow : ir &&& 0x3 = 0x3
  · rw [decode_of_full pc ir hlow] at h ⊢
    have hfmt : ∀ e ∈ dispatchEntries, e.1 = .slli → e.2 &&& fmtMask = fmtI := by
      decide
    exact getImm_fmtI (hfmt _ (classify_mem ..) h) ir
  · rw [decode_of_short pc ir hlow] at h
    cases h

/-- The decoded constant of a shift is the field of the second register. -/
theorem shamt_decode (pc : Word) {ir : Word} (hlow : ir &&& 0x3 = 0x3) :
    (RiscVInstruction.decode pc ir).shamt.toNat = (rs2Field ir).toNat := by
  rw [decode_of_full pc ir hlow, BitVec.toNat_setWidth_of_le (by decide)]

/-- The upper field as a number. -/
theorem toNat_imm12Field (ir : Word) :
    (imm12Field ir).toNat = (funct7Field ir).toNat * 32 + (rs2Field ir).toNat := by
  have happend : imm12Field ir = funct7Field ir ++ rs2Field ir := by
    rw [funct7Field, rs2Field, BitVec.extractLsb'_append_extractLsb'_eq_extractLsb' (by decide)]
    rfl
  have hlt := (rs2Field ir).isLt
  rw [happend, BitVec.toNat_append, ← Nat.shiftLeft_add_eq_or_of_lt hlt, Nat.shiftLeft_eq]

/-- A signed 12-bit constant is in range exactly when its upper bits are zero, and is then the lower
field. -/
theorem imm12_inRange_iff (ir : Word) :
    (0 ≤ (imm12Field ir).toInt ∧ (imm12Field ir).toInt ≤ 31 ↔ funct7Field ir = 0) ∧
      (funct7Field ir = 0 → (imm12Field ir).toInt = (rs2Field ir).toNat) := by
  have hnat := toNat_imm12Field ir
  have hint := BitVec.toInt_eq_toNat_cond (imm12Field ir)
  have hlow := (rs2Field ir).isLt
  have hhigh := (funct7Field ir).isLt
  have hzero : funct7Field ir = 0 ↔ (funct7Field ir).toNat = 0 := BitVec.toNat_inj.symm
  rw [hzero]
  split at hint
  · constructor <;> omega
  · constructor <;> omega

/-! The shifts of an instruction. -/

/-- The shifts that `drive` evaluates for a word are in range, and the shifts by a constant are by
its five-bit field. -/
structure ShiftsDefined (ir : Word) (inst : RiscVInstruction) (reg : RegIndex → Word) : Prop where
  inRange : ∀ s ∈ shifts inst reg, s.InRange
  byField : inst.instrId ∈ [.slli, .srli, .srai] →
    ∀ s ∈ shifts inst reg, s.amount = (rs2Field ir).toNat

/-- A known word has the two low bits of a 32-bit encoding. -/
theorem low_of_known {pc ir : Word} (h : (RiscVInstruction.decode pc ir).instrId ≠ .unknown) :
    ir &&& 0x3 = 0x3 := by
  by_contra hlow
  exact h (decode_of_short pc ir hlow)

/-- The shifts of any other branch are in range. -/
theorem shifts_inRange {inst : RiscVInstruction} {reg : RegIndex → Word}
    (hshamt : inst.shamt.toNat < 32) (hslli : inst.instrId ≠ .slli) :
    ∀ s ∈ shifts inst reg, s.InRange := by
  obtain ⟨hbyte, hhalf⟩ := toNat_and_lane (reg (regIndex inst.rs1) + inst.imm)
  have hreg : (reg (regIndex inst.rs2) &&& 0x1f).toNat < 32 := by
    rw [toNat_and_31]
    omega
  unfold shifts
  cases hid : inst.instrId with
  | slli => exact absurd hid hslli
  | _ =>
    simp only [Shift.InRange, List.mem_cons, List.not_mem_nil, or_false, forall_eq_or_imp,
      forall_eq, false_imp_iff, implies_true]
    try omega

/-- The shifts of a known word are defined unless it is a left shift by a constant with a reserved
upper field. -/
theorem shiftsDefined_decode_iff (pc ir : Word) (reg : RegIndex → Word)
    (hknown : (RiscVInstruction.decode pc ir).instrId ≠ .unknown) :
    ShiftsDefined ir (RiscVInstruction.decode pc ir) reg ↔
      ((RiscVInstruction.decode pc ir).instrId = .slli → funct7Field ir = 0) := by
  have hshamt := shamt_decode pc (low_of_known hknown)
  have himm := @imm_of_slli pc ir
  generalize RiscVInstruction.decode pc ir = inst at *
  by_cases hslli : inst.instrId = .slli
  · obtain ⟨hrange, hvalue⟩ := imm12_inRange_iff ir
    have hint : inst.imm.toInt = (imm12Field ir).toInt := by
      rw [himm hslli, BitVec.toInt_signExtend_of_le (by decide)]
    have hshifts : shifts inst reg = [⟨.slli, reg (regIndex inst.rs1), (imm12Field ir).toInt⟩] := by
      unfold shifts
      rw [hslli, hint]
    constructor
    · intro h _
      have hrangeOf := h.inRange
      rw [hshifts] at hrangeOf
      exact hrange.mp (hrangeOf _ (List.mem_singleton_self _))
    · intro h
      refine ⟨fun s hs => ?_, fun _ s hs => ?_⟩
      · rw [hshifts, List.mem_singleton] at hs
        rw [hs]
        exact hrange.mpr (h hslli)
      · rw [hshifts, List.mem_singleton] at hs
        rw [hs]
        exact hvalue (h hslli)
  · refine iff_of_true ⟨shifts_inRange (by omega) hslli, fun hid s hs => ?_⟩
      fun h => absurd h hslli
    simp only [List.mem_cons, List.not_mem_nil, or_false, hslli, false_or] at hid
    unfold shifts at hs
    rcases hid with hid | hid
    · rw [hid] at hs
      rw [List.mem_singleton.mp hs]
      exact congrArg Nat.cast hshamt
    · rw [hid] at hs
      rw [List.mem_singleton.mp hs]
      exact congrArg Nat.cast hshamt

/-- When `drive` returns true, the shifts that it evaluated are defined exactly when the word is no
left shift by a constant or has zeros in its upper seven bits. -/
theorem shifts_defined_iff (read : PublicRead) (c : Core FunctionalState)
    (h : (FunctionalCore.drive read c).1 = true) :
    ShiftsDefined (FunctionalCore.fetch read c) (FunctionalCore.instruction read c) c.self.reg ↔
      ((FunctionalCore.instruction read c).instrId = .slli →
        funct7Field (FunctionalCore.fetch read c) = 0) := by
  exact shiftsDefined_decode_iff c.self.pc (FunctionalCore.fetch read c) c.self.reg
    ((FunctionalCore.drive_fst read c).mp h).2

/-- A functional core after its constructor, bound to a memory. -/
def freshCore : Core FunctionalState :=
  FunctionalCore.bindMemory
    (FunctionalCore.new ⟨0, 0, 0, 0, 0, 0, 0, 0, 0⟩ ⟨0, 0, 0, 0, 0, 0, 0, 0, 0⟩)

/-- `slli x1, x1, 1` shifts by one. -/
theorem slli_one_defined :
    ShiftsDefined 0x00109093
      (FunctionalCore.instruction (fun _ _ => wordBytes 0x00109093) freshCore)
      freshCore.self.reg :=
  (shifts_defined_iff (fun _ _ => wordBytes 0x00109093) freshCore (by decide)).mpr
    fun _ => by decide

/-- The word 0x02009093, which no instruction has, is executed with a shift by 32. -/
theorem slli_wide_undefined :
    (FunctionalCore.drive (fun _ _ => wordBytes 0x02009093) freshCore).1 = true ∧
      ¬ShiftsDefined 0x02009093
        (FunctionalCore.instruction (fun _ _ => wordBytes 0x02009093) freshCore)
        freshCore.self.reg := by
  refine ⟨by decide, fun h => ?_⟩
  have hrange := h.inRange ⟨.slli, 0, 32⟩ (by exact List.mem_singleton_self _)
  exact absurd hrange.2 (by decide)

end VeriCross
