import VeriCross.Memory.Words
import VeriCross.RiscV.Control
import VeriCross.RiscV.DataAccess
import VeriCross.RiscV.Hart

/-!
# Programs given as lists of instructions

A program is a list of instructions with the address of the first one. It is interpreted without
an encoding and without instruction fetches: the instruction at the program counter is looked up
in the list. A hart whose memory holds the program does the same, as long as no instruction
stores into the program.
-/

namespace VeriCross

open RiscV PrivateMemory

variable {k : ℕ}

/-- It can be decided whether a range of addresses covers a place. -/
instance {X : Type*} [DecidableEq X] (place : Word → X) (addr : Word) (size : ℕ) (x : X) :
    Decidable (Covers place addr size x) :=
  inferInstanceAs (Decidable (∃ d < size, place (addr + BitVec.ofNat 32 d) = x))

/-- It can be decided whether the functional core follows the manual on an instruction. -/
instance Instr.decidableInDomain (reg : RegIndex → Word) (pc : Word) :
    (i : Instr) → Decidable (i.InDomain reg pc)
  | load o _ rs1 offset =>
    inferInstanceAs (Decidable ((reg (regNum rs1) + offset.signExtend 32).toNat % o.size = 0))
  | store o rs1 _ offset =>
    inferInstanceAs (Decidable ((reg (regNum rs1) + offset.signExtend 32).toNat % o.size = 0))
  | jalr rd rs1 offset =>
    decidable_of_iff _ (FunctionalCore.jumpsRight_iff reg pc rd rs1 offset)
  | lui .. | auipc .. | jal .. | branch .. | opImm .. | shift .. | op .. | fence .. | fencei
  | env .. | csrReg .. | csrImm .. => .isTrue trivial

/-- Instructions are encoded by their words. -/
theorem Instr.encodes_encode (i : Instr) : i.Encodes i.encode := by
  cases i with
  | fence pred succ =>
    have hfield : imm12Field (Instr.fence pred succ).encode = 0#4 ++ pred ++ succ := by
      rw [encode, layoutI, imm12Field_layout, imm12_split]
    have hsets := fence_sets pred succ
    rw [← hfield, imm12Field, BitFields.extractLsb'_extractLsb' _ _ _ _ _ (by decide),
      BitFields.extractLsb'_extractLsb' _ _ _ _ _ (by decide)] at hsets
    exact ⟨opcodeField_layout .., funct3Field_layout .., hsets⟩
  | fencei => exact ⟨rfl, rfl⟩
  | _ => rfl

/-- Instructions in consecutive words, from an address on. -/
structure Program where
  base : Word
  code : List Instr

namespace Program

variable (p : Program)

/-- The encoded instructions. -/
def bytes : List Byte := (p.code.map Instr.encode).flatMap wordBytes

/-- The instruction at an address. -/
def at? (pc : Word) : Option Instr :=
  if (pc - p.base).toNat % 4 = 0 then p.code[(pc - p.base).toNat / 4]? else none

/-- The encoded instructions are in an array of bytes. -/
def Held (k : ℕ) (bytes : ℕ → Byte) : Prop :=
  ∀ (d : ℕ) (hd : d < p.bytes.length), bytes (byteCell k (p.base + BitVec.ofNat 32 d)) = p.bytes[d]

/-- An instruction stores nothing into the program. -/
def Spares (k : ℕ) (h : Hart) : Instr → Prop
  | .store o rs1 _ offset => ∀ d < p.bytes.length,
    ¬Covers (byteCell k) (h.address rs1 offset) o.size (byteCell k (p.base + BitVec.ofNat 32 d))
  | _ => True

instance (k : ℕ) (h : Hart) : (i : Instr) → Decidable (p.Spares k h i)
  | .store o rs1 _ offset => inferInstanceAs (Decidable (∀ d < p.bytes.length,
    ¬Covers (byteCell k) (h.address rs1 offset) o.size (byteCell k (p.base + BitVec.ofNat 32 d))))
  | .lui .. | .auipc .. | .jal .. | .jalr .. | .branch .. | .load .. | .opImm .. | .shift ..
  | .op .. | .fence .. | .fencei | .env .. | .csrReg .. | .csrImm .. => .isTrue trivial

/-- Interpret the instruction at the program counter. There is no result outside of the program,
for a system instruction, for a store into the program, and for operands on which the functional
core does not follow the manual. -/
def step (k : ℕ) (h : Hart) : Option Hart :=
  (p.at? h.pc).bind fun i : Instr =>
    if i.isUser = true ∧ i.InDomain h.reg h.pc ∧ p.Spares k h i then some (i.exec k h) else none

/-- Interpret a number of instructions. -/
def run (p : Program) (k : ℕ) (h : Hart) : ℕ → Option Hart
  | 0 => some h
  | n + 1 => (p.run k h n).bind (p.step k)

variable {p}

/-- What a step of the interpreter needs and does. -/
theorem step_eq_some_iff {h h' : Hart} : p.step k h = some h' ↔ ∃ i, p.at? h.pc = some i ∧
    i.isUser = true ∧ i.InDomain h.reg h.pc ∧ p.Spares k h i ∧ i.exec k h = h' := by
  rw [step]
  rw [Option.bind_eq_some_iff]
  simp only [Option.ite_none_right_eq_some, Option.some_inj, and_assoc]

/-- The last step of a run. -/
theorem run_succ_eq_some_iff {h h' : Hart} {n : ℕ} :
    p.run k h (n + 1) = some h' ↔ ∃ h₁, p.run k h n = some h₁ ∧ p.step k h₁ = some h' :=
  Option.bind_eq_some_iff

/-- The number of bytes of a program. -/
theorem length_bytes (p : Program) : p.bytes.length = 4 * p.code.length := by
  rw [bytes, length_flatMap_wordBytes, List.length_map]

/-- A hart whose memory holds the program fetches the instruction at the program counter. -/
theorem Held.wordAt {h : Hart} (hheld : p.Held k h.bytes) {pc : Word} {i : Instr}
    (hat : p.at? pc = some i) : h.wordAt k pc = i.encode := by
  rw [at?] at hat
  obtain ⟨haligned, hat⟩ := Option.ite_none_right_eq_some.mp hat
  obtain ⟨hj, hi⟩ := List.getElem?_eq_some_iff.mp hat
  have hbyte : ∀ d (hd : d < 4), h.bytesFrom k pc d = (wordBytes i.encode)[d] := by
    intro d hd
    have hpc : pc + BitVec.ofNat 32 d =
        p.base + BitVec.ofNat 32 (4 * ((pc - p.base).toNat / 4) + d) := by
      bv_omega
    have hin : 4 * ((pc - p.base).toNat / 4) + d < p.bytes.length := by
      rw [length_bytes]
      omega
    have hget := getElem?_flatMap_wordBytes (p.code.map Instr.encode) ((pc - p.base).toNat / 4) hd
    rw [List.getElem?_map, hat, Option.map_some, Option.bind_some] at hget
    rw [Hart.bytesFrom, hpc, hheld _ hin]
    exact Option.some_inj.mp ((List.getElem?_eq_getElem hin).symm.trans
      (hget.trans (List.getElem?_eq_getElem (l := wordBytes i.encode) hd)))
  rw [Hart.wordAt, LoadOp.value, hbyte 0 (by decide), hbyte 1 (by decide), hbyte 2 (by decide),
    hbyte 3 (by decide)]
  exact (bytesWord_four ..).symm.trans (bytesWord_wordBytes i.encode)

/-- An instruction that stores nothing into the program leaves it in the memory. -/
theorem Held.exec {h : Hart} (hheld : p.Held k h.bytes) {i : Instr} (hspares : p.Spares k h i) :
    p.Held k (i.exec k h).bytes := by
  cases i with
  | store o rs1 rs2 offset =>
    intro d hd
    have hlength : (o.bytes (h.reg (regNum rs2))).length = o.size := by
      rw [StoreOp.bytes, List.length_map, List.length_range]
    refine (storeBytes_of_not_covers ?_).trans (hheld d hd)
    rw [hlength]
    exact hspares d hd
  | _ => exact hheld

/-- A run leaves the program in the memory. -/
theorem Held.run {h h' : Hart} (hheld : p.Held k h.bytes) {n : ℕ} (hrun : p.run k h n = some h') :
    p.Held k h'.bytes := by
  induction n generalizing h' with
  | zero =>
    cases hrun
    exact hheld
  | succ n ih =>
    obtain ⟨h₁, hbefore, hstep⟩ := run_succ_eq_some_iff.mp hrun
    obtain ⟨i, -, -, -, hspares, hexec⟩ := step_eq_some_iff.mp hstep
    rw [← hexec]
    exact (ih hbefore).exec hspares

end Program

end VeriCross
