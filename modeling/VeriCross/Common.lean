import Mathlib.Data.BitVec

/-!
# Constants and interfaces shared by the simulator

Machine integers keep the widths of the source: `uint32_t` is `Word`, `uint8_t` is `Byte`
and the 64-bit event counters are `Counter`, all with wrap-around arithmetic. A core is the
public part of the `Core` base class together with the state of its derived class; the
virtual methods are a table over that state.
-/

namespace VeriCross

/-- `uint32_t`, and `int32_t` where the source reinterprets one as the other. -/
abbrev Word := BitVec 32

/-- `uint8_t`. -/
abbrev Byte := BitVec 8

/-- `uint64_t`, the type of the instruction and cycle counters. -/
abbrev Counter := BitVec 64

/-- The number of words of the main memory (512 Ki words). -/
def memWords : Word := 0x00080000

/-- The address of the first instruction. -/
def initialPc : Word := 0x00010000

/-- The initial value of the stack pointer. -/
def initialSp : Word := 0x001e6400

/-- The cycles granted to a verilated core for retiring one instruction. -/
def vcoreTimeout : ℕ := 1000

/-- Expand a bit-wise write mask to byte-wise. -/
def expandWmask (mask : Word) : Word :=
  (if mask &&& 8 ≠ 0 then 0xff000000 else 0) ||| (if mask &&& 4 ≠ 0 then 0x00ff0000 else 0) |||
    (if mask &&& 2 ≠ 0 then 0x0000ff00 else 0) ||| (if mask &&& 1 ≠ 0 then 0x000000ff else 0)

/-- The interface between a processor core and the instruction logger. -/
structure CoreInstructionIF where
  valid : Word
  pc : Word
  ir : Word
  rd : Word
  result : Word
  dAddr : Word
  dWdata : Word
  dWmask : Word
  dBaddr : Byte
  deriving DecidableEq, Repr

/-- The interface between a processor core and the memory. -/
structure CoreMemoryIF where
  iAddr : Word
  dAddr : Word
  iRdata : Word
  dRdata : Word
  dWdata : Word
  dWmask : Word
  en : Word
  dRe : Word
  dWe : Word
  deriving DecidableEq, Repr

/-- A processor core: the members of the base class and the derived class's own state. -/
structure Core (σ : Type) where
  halt : Bool
  cntInst : Counter
  cntCycle : Counter
  instif : CoreInstructionIF
  memif : CoreMemoryIF
  self : σ

/-! The indices of the register file and of the only replica of a concurrent execution are
written as literals. -/

instance regCount_neZero : NeZero 32 := ⟨by decide⟩

instance repCount_neZero : NeZero 1 := ⟨by decide⟩

/-- A register number of the 32-entry register file. -/
abbrev RegIndex := Fin 32

/-- The index of `reg[32]` selected by a decoded register field. -/
def regIndex (field : Word) : RegIndex := Fin.ofNat 32 field.toNat

/-- The virtual methods of `Core` that access the register file. -/
structure RegisterMethods (σ : Type) where
  readReg : Core σ → RegIndex → Word
  writeReg : Core σ → RegIndex → Word → Core σ

/-- The pure virtual methods of `Core`; `drive` and `update` also return success. -/
structure CoreMethods (σ : Type) extends RegisterMethods σ where
  reset : Core σ → Core σ
  drive : Core σ → Bool × Core σ
  update : Core σ → Bool × Core σ

/-- Writing a register neither stops a core nor counts an instruction. -/
structure RegisterMethods.KeepsCounts {σ : Type} (R : RegisterMethods σ) : Prop where
  halt_write : ∀ c a data, (R.writeReg c a data).halt = c.halt
  cntInst_write : ∀ c a data, (R.writeReg c a data).cntInst = c.cntInst

/-- The register file is an array: a write changes one register, and the halt flag is not part
of it. -/
structure RegisterMethods.Lawful {σ : Type} (R : RegisterMethods σ) : Prop extends
    R.KeepsCounts where
  read_write : ∀ c a data b,
    R.readReg (R.writeReg c a data) b = if b = a then data else R.readReg c b
  read_halt : ∀ c halt, R.readReg { c with halt := halt } = R.readReg c

/-- The contract of a verilated core: only a successful `update` counts an instruction, exactly
when it leaves a valid record, and the methods leave the halt flag to the simulator. Resetting
the core retires nothing. -/
structure CoreMethods.CountsRetired {σ : Type} (V : CoreMethods σ) : Prop where
  keepsCounts : V.toRegisterMethods.KeepsCounts
  reset_halt : ∀ c, (V.reset c).halt = c.halt
  reset_cntInst : ∀ c, (V.reset c).cntInst = c.cntInst
  drive_halt : ∀ c, (V.drive c).2.halt = c.halt
  drive_cntInst : ∀ c, (V.drive c).2.cntInst = c.cntInst
  update_halt : ∀ c, (V.update c).2.halt = c.halt
  update_cntInst : ∀ c, (V.update c).2.cntInst =
    if (V.update c).1 = true ∧ (V.update c).2.instif.valid ≠ 0 then c.cntInst + 1 else c.cntInst

end VeriCross
