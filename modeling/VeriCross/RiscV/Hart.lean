import VeriCross.Library.LabelledRuns
import VeriCross.RiscV.Semantics

/-!
# The machine of the manual

A hart has the registers, the program counter and the byte memory that the manual gives to a
program. Each step fetches four bytes and executes an instruction that they encode; an `ecall`
goes to the execution environment, which may answer in `a0` and fill one buffer. The program that
the memory holds is not fixed: a store may change it.
-/

namespace VeriCross

open RiscV PrivateMemory

/-- The state of a hart with a memory of `2 ^ k` words. -/
structure Hart where
  reg : RegIndex → Word
  pc : Word
  bytes : ℕ → Byte

namespace Hart

variable (k : ℕ)

/-- The bytes from an address on. -/
def bytesFrom (h : Hart) (addr : Word) (d : ℕ) : Byte :=
  h.bytes (byteCell k (addr + BitVec.ofNat 32 d))

/-- The word at an address. -/
def wordAt (h : Hart) (addr : Word) : Word := LoadOp.lw.value (h.bytesFrom k addr)

/-- The address that a load or a store computes. -/
def address (h : Hart) (base : BitVec 5) (offset : BitVec 12) : Word :=
  h.reg (regNum base) + offset.signExtend 32

end Hart

/-- The hart after an instruction. The system instructions have no meaning of their own here. -/
def Instr.exec (k : ℕ) (h : Hart) : Instr → Hart
  | load o rd rs1 offset =>
    { h with
      reg := writeBack h.reg (some (rd, o.value (h.bytesFrom k (h.address rs1 offset))))
      pc := h.pc + 4 }
  | store o rs1 rs2 offset =>
    { h with
      bytes := storeBytes k h.bytes (h.address rs1 offset) (o.bytes (h.reg (regNum rs2)))
      pc := h.pc + 4 }
  | i => { h with reg := writeBack h.reg (i.result? h.reg h.pc), pc := i.nextPc h.reg h.pc }

/-- The instructions that the manual defines without an environment or control registers. -/
def Instr.isUser : Instr → Bool
  | load .. | store .. => true
  | i => i.isControl || i.isInteger

namespace Hart

/-- The environment answered in `a0`, filled at most one buffer that `a0` or `a1` points to, and
returned to the next instruction. -/
structure Serviced (k : ℕ) (h h' : Hart) : Prop where
  pc : h'.pc = h.pc + 4
  reg : ∀ r, r ≠ regA0 → h'.reg r = h.reg r
  bytes : ∃ addr data, (addr = h.reg regA0 ∨ addr = h.reg regA1) ∧
    h'.bytes = storeBytes k h.bytes addr data

/-- A step: the fetched instruction is executed, or the environment is called. -/
inductive Step (k : ℕ) (h : Hart) : Instr → Hart → Prop
  | user {i : Instr} : i.Encodes (h.wordAt k h.pc) → i.isUser = true → Step k h i (i.exec k h)
  | ecall {h' : Hart} :
    (Instr.env .ecall).Encodes (h.wordAt k h.pc) → h.Serviced k h' → Step k h (.env .ecall) h'

/-- The runs of a hart, with the executed instructions. -/
abbrev Run (k : ℕ) : Hart → List Instr → Hart → Prop := LabelledRun (Step k)

end Hart

end VeriCross
