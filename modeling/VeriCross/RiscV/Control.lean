import VeriCross.RiscV.Execution

/-!
# Jumps and branches of the functional core

All of them follow the manual except `jalr`, whose base register is read after the link register
was written and whose target keeps bit 0. The exact register contents under which this makes no
difference are given.
-/

namespace VeriCross

open RiscV

/-- Clearing bit 0 of an odd number subtracts one. -/
theorem and_not_one (t : Word) :
    t &&& ~~~(1 : Word) = if t.getLsbD 0 then t - 1 else t := by
  have hclear : (t &&& ~~~(1 : Word)).toNat = t.toNat - t.toNat % 2 :=
    BitFields.toNat_and_not_low t 1
  have hlow : t.getLsbD 0 = decide (t.toNat % 2 = 1) := by
    rw [BitVec.getLsbD, Nat.testBit_zero]
  rw [hlow]
  by_cases h : t.toNat % 2 = 1
  · rw [if_pos (decide_eq_true h)]
    bv_omega
  · rw [if_neg (by simpa using h)]
    bv_omega

namespace FunctionalCore

/-- One call of `drive` executes a jump or branch as the manual says: it links, goes to the given
address, and changes no other register. -/
def TransfersControl (read : PublicRead) (c : Core FunctionalState) (i : Instr) : Prop :=
  (drive read c).1 = true ∧
    (drive read c).2.self.reg = writeBack c.self.reg (i.result? c.self.reg c.self.pc) ∧
    (drive read c).2.self.pc = i.nextPc c.self.reg c.self.pc

/-- The registers under which an instruction jumps to the right address. A `jalr` needs an even
sum of base and offset, and a base register other than the link register or one that holds the
link already. With base and link the same and an odd sum, the link plus one does as well. -/
def JumpsRight (reg : RegIndex → Word) (pc : Word) : Instr → Prop
  | .jalr rd rs1 offset =>
    let base := reg (regNum rs1)
    let odd := (base + offset.signExtend 32).getLsbD 0 = true
    if rd = rs1 then (¬odd ∧ base = pc + 4) ∨ (odd ∧ base = pc + 5) else ¬odd
  | _ => True

/-- The address that `jalr` goes to is right under exactly these registers. -/
theorem jumpsRight_iff (reg : RegIndex → Word) (pc : Word) (rd rs1 : BitVec 5)
    (offset : BitVec 12) :
    Function.update reg (regNum rd) (pc + 4) (regNum rs1) + offset.signExtend 32 =
        (Instr.jalr rd rs1 offset).nextPc reg pc ↔
      JumpsRight reg pc (.jalr rd rs1 offset) := by
  rw [Instr.nextPc, JumpsRight, and_not_one]
  generalize offset.signExtend 32 = off
  by_cases hsame : rd = rs1
  · subst hsame
    rw [Function.update_self, if_pos rfl]
    generalize reg (regNum rd) = base
    cases hodd : (base + off).getLsbD 0 with
    | true =>
      have hiff : pc + 4 + off = base + off - 1 ↔ base = pc + 5 := by
        constructor <;> intro h <;> bv_omega
      simpa using hiff
    | false =>
      have hiff : pc + 4 + off = base + off ↔ base = pc + 4 := by
        constructor <;> intro h <;> bv_omega
      simpa using hiff
  · have hne : regNum rs1 ≠ regNum rd := fun h =>
      hsame (BitVec.eq_of_toNat_eq (congrArg Fin.val h.symm))
    rw [Function.update_of_ne hne, if_neg hsame]
    generalize reg (regNum rs1) = base
    cases hodd : (base + off).getLsbD 0 with
    | true =>
      have hdiff : base + off ≠ base + off - 1 := by bv_omega
      simpa using hdiff
    | false => simp

/-- A jump or branch follows the manual exactly under these registers. -/
theorem transfersControl_iff {read : PublicRead} {c : Core FunctionalState} {i : Instr}
    (hready : ready c = true) (hzero : c.self.reg regZero = 0) (hi : i.isControl = true)
    (hfetch : fetch read c = i.encode) :
    TransfersControl read c i ↔ JumpsRight c.self.reg c.self.pc i := by
  have hinst : instruction read c = RiscVInstruction.decode c.self.pc i.encode := by
    rw [instruction, hfetch]
  by_cases hjalr : ∃ rd rs1 offset, i = .jalr rd rs1 offset
  · obtain ⟨rd, rs1, offset, rfl⟩ := hjalr
    have hx := execute_jalr read c.self.pc c.self.reg (start c).memif rd rs1 offset
    rw [← hinst] at hx
    rw [TransfersControl, drive_of_execute hready hx, ← jumpsRight_iff]
    refine (and_iff_right rfl).trans (and_iff_right ?_)
    exact clear_putBack hzero (some (rd, c.self.pc + 4))
  · have hother : ∀ rd rs1 offset, i ≠ .jalr rd rs1 offset := by
      intro rd rs1 offset h
      exact hjalr ⟨rd, rs1, offset, h⟩
    have hx := execute_control read c.self.pc c.self.reg (start c).memif hi hother
    rw [← hinst] at hx
    have hright : JumpsRight c.self.reg c.self.pc i := by
      cases i with
      | jalr rd rs1 offset => exact absurd rfl (hother rd rs1 offset)
      | _ => trivial
    rw [TransfersControl, drive_of_execute hready hx, iff_true_right hright]
    exact ⟨rfl, clear_putBack hzero _, rfl⟩

/-- The first core after a reset takes a jump to itself. -/
theorem jal_transfersControl :
    let c := bindMemory (new ⟨0, 0, 0, 0, 0, 0, 0, 0, 0⟩ ⟨0, 0, 0, 0, 0, 0, 0, 0, 0⟩)
    TransfersControl (fun _ _ => wordBytes 0x0000006f) c (.jal 0 0) :=
  (transfersControl_iff (i := .jal 0 0) rfl rfl rfl rfl).mpr trivial

/-- A `jalr x1, 0(x1)` goes to its own link instead of the address in `x1`, which is zero after
a reset. -/
theorem jalr_reads_link :
    let c := bindMemory (new ⟨0, 0, 0, 0, 0, 0, 0, 0, 0⟩ ⟨0, 0, 0, 0, 0, 0, 0, 0, 0⟩)
    let read : PublicRead := fun _ _ => wordBytes 0x000080e7
    ready c = true ∧ c.self.reg regZero = 0 ∧ fetch read c = (Instr.jalr 1 1 0).encode ∧
      ¬TransfersControl read c (.jalr 1 1 0) := by
  refine ⟨rfl, rfl, rfl, fun h => ?_⟩
  exact absurd h.2.2 (by decide)

end FunctionalCore

/-- The registers on which the functional core follows the manual: data addresses are naturally
aligned, and a `jalr` does not meet its link register or an odd target. -/
def Instr.InDomain (reg : RegIndex → Word) (pc : Word) : Instr → Prop
  | load o _ rs1 offset => (reg (regNum rs1) + offset.signExtend 32).toNat % o.size = 0
  | store o rs1 _ offset => (reg (regNum rs1) + offset.signExtend 32).toNat % o.size = 0
  | i => FunctionalCore.JumpsRight reg pc i

end VeriCross
