import VeriCross.Common
import VeriCross.RiscV.Instruction

/-!
# The core wrappers

A wrapper drives the top module that Verilator makes of a core: it copies the memory interface
to and from the ports, evaluates the module at either clock level and counts what the module
reports as retired. The top module is generated, so it is a parameter here; the wrappers meet
the contract of a verilated core whatever it does, once it retires nothing while in reset.
-/

namespace VeriCross

open RiscV

/-- The input ports of a top module. -/
structure TopInputs where
  clk : Bool
  rstX : Bool
  memIRdata : Word
  memDRdata : Word

/-- The output ports of a top module. -/
structure TopOutputs where
  memEn : Word
  memDRe : Word
  memDWe : Word
  memIAddr : Word
  memDAddr : Word
  memDWdata : Word
  memDWmask : Word
  instif : CoreInstructionIF

/-- The level of a wire. -/
def wire (b : Bool) : Word := if b then 1 else 0

/-- A wire that is not zero. -/
@[simp] theorem wire_ne_zero (b : Bool) : wire b ≠ 0 ↔ b = true := by
  cases b <;> decide

/-- A wire that is zero. -/
@[simp] theorem wire_eq_zero (b : Bool) : wire b = 0 ↔ b = false := by
  cases b <;> decide

/-- A top module: evaluation, the output ports, and the internals that the wrappers reach
into. -/
structure TopModule (τ : Type) where
  eval : TopInputs → τ → τ
  outputs : τ → TopOutputs
  readReg : τ → RegIndex → Word
  writeReg : τ → RegIndex → Word → τ
  writeMtvec : τ → Word → τ

/-- A cycle in reset retires nothing. -/
def TopModule.Resets {τ : Type} (T : TopModule τ) : Prop :=
  ∀ inputs t, inputs.clk = true → inputs.rstX = false →
    (T.outputs (T.eval inputs t)).instif.valid = 0

/-- The register file of the module is an array. -/
def TopModule.HasRegisterArray {τ : Type} (T : TopModule τ) : Prop :=
  ∀ t a data b, T.readReg (T.writeReg t a data) b = if b = a then data else T.readReg t b

/-- The members of a wrapper: the module with its input ports. -/
structure WrapperState (τ : Type) where
  inputs : TopInputs
  top : τ

/-- The request on the output ports of a module. -/
def CoreMemoryIF.ofPorts (memif : CoreMemoryIF) (ports : TopOutputs) : CoreMemoryIF :=
  { memif with
    en := ports.memEn
    dRe := ports.memDRe
    dWe := ports.memDWe
    iAddr := ports.memIAddr
    dAddr := ports.memDAddr
    dWdata := ports.memDWdata
    dWmask := ports.memDWmask }

namespace CoreWrapper

variable {τ : Type} (T : TopModule τ)

/-- The constructor. The interfaces are left uninitialised. -/
def new (instif : CoreInstructionIF) (memif : CoreMemoryIF) (top : τ) : Core (WrapperState τ) where
  halt := false
  cntInst := 0
  cntCycle := 0
  instif := instif
  memif := memif
  self := { inputs := { clk := false, rstX := false, memIRdata := 0, memDRdata := 0 }, top := top }

/-- Read a register of the top module. -/
def readReg (c : Core (WrapperState τ)) (addr : RegIndex) : Word := T.readReg c.self.top addr

/-- Write a register of the top module. -/
def writeReg (c : Core (WrapperState τ)) (addr : RegIndex) (data : Word) : Core (WrapperState τ) :=
  { c with self := { c.self with top := T.writeReg c.self.top addr data } }

/-- Set the reset input. -/
def setRstX (c : Core (WrapperState τ)) (rstX : Bool) : Core (WrapperState τ) :=
  { c with self := { c.self with inputs := { c.self.inputs with rstX := rstX } } }

/-- The low half of a clock cycle. -/
def drive (c : Core (WrapperState τ)) : Bool × Core (WrapperState τ) :=
  if c.halt then (false, c)
  else
    let inputs :=
      { c.self.inputs with
        memIRdata := c.memif.iRdata
        memDRdata := c.memif.dRdata
        clk := false }
    let top := T.eval inputs c.self.top
    (true,
      { c with
        self := { inputs := inputs, top := top }
        memif := c.memif.ofPorts (T.outputs top) })

/-- The high half of a clock cycle. After the ports are copied a wrapper may patch the module,
depending on the retired instruction. -/
def update (patch : CoreInstructionIF → τ → τ) (c : Core (WrapperState τ)) :
    Bool × Core (WrapperState τ) :=
  if c.halt then (false, c)
  else
    let inputs := { c.self.inputs with clk := true }
    let top := T.eval inputs c.self.top
    let instif := (T.outputs top).instif
    (true,
      { c with
        self := { inputs := inputs, top := patch instif top }
        instif := instif
        memif := c.memif.ofPorts (T.outputs top)
        cntCycle := c.cntCycle + 1
        cntInst := if instif.valid ≠ 0 then c.cntInst + 1 else c.cntInst })

/-- One cycle with the reset input low, then the stack pointer. -/
def reset (patch : CoreInstructionIF → τ → τ) (c : Core (WrapperState τ)) :
    Core (WrapperState τ) :=
  let c := (drive T (setRstX c false)).2
  let c := (update T patch c).2
  writeReg T (setRstX c true) regSp initialSp

/-- The virtual methods of a wrapper. -/
def methods (patch : CoreInstructionIF → τ → τ) : CoreMethods (WrapperState τ) where
  readReg := readReg T
  writeReg := writeReg T
  reset := reset T patch
  drive := drive T
  update := update T patch

end CoreWrapper

/-- `RVCorePCore`. -/
def RVCorePCore.methods {τ : Type} (T : TopModule τ) : CoreMethods (WrapperState τ) :=
  CoreWrapper.methods T fun _ top => top

/-- `KronosCore` overrides the `mtvec` control register after an `ecall`. -/
def KronosCore.methods {τ : Type} (T : TopModule τ) : CoreMethods (WrapperState τ) :=
  CoreWrapper.methods T fun instif top =>
    if instif.valid ≠ 0 ∧ instif.ir = 0x00000073 then T.writeMtvec top (instif.pc + 4) else top

namespace CoreWrapper

variable {τ : Type} {T : TopModule τ} (patch : CoreInstructionIF → τ → τ)

/-- `drive` keeps the public members other than the memory interface. -/
theorem drive_keeps (c : Core (WrapperState τ)) :
    (drive T c).2.halt = c.halt ∧ (drive T c).2.cntInst = c.cntInst ∧
      (drive T c).2.self.inputs.rstX = c.self.inputs.rstX := by
  rw [drive]
  split <;> exact ⟨rfl, rfl, rfl⟩

/-- `update` keeps the halt flag. -/
theorem update_halt (c : Core (WrapperState τ)) : (update T patch c).2.halt = c.halt := by
  rw [update]
  split <;> rfl

/-- `update` counts an instruction exactly when it succeeds and leaves a valid record. -/
theorem update_cntInst (c : Core (WrapperState τ)) :
    (update T patch c).2.cntInst =
      if (update T patch c).1 = true ∧ (update T patch c).2.instif.valid ≠ 0 then c.cntInst + 1
      else c.cntInst := by
  rw [update]
  cases c.halt with
  | true => rfl
  | false =>
    simp only [Bool.false_eq_true, if_false, true_and]

/-- With the reset input low, `update` fails or leaves an invalid record. -/
theorem update_valid_of_reset (hT : T.Resets) {c : Core (WrapperState τ)}
    (hrst : c.self.inputs.rstX = false) (h : (update T patch c).1 = true) :
    (update T patch c).2.instif.valid = 0 := by
  unfold update at h ⊢
  cases hhalt : c.halt with
  | true =>
    rw [hhalt] at h
    cases h
  | false => exact hT { c.self.inputs with clk := true } c.self.top rfl hrst

/-- Resetting the core retires nothing. -/
theorem reset_cntInst (hT : T.Resets) (c : Core (WrapperState τ)) :
    (reset T patch c).cntInst = c.cntInst := by
  obtain ⟨-, hcnt, hrst⟩ := drive_keeps (T := T) (setRstX c false)
  change (update T patch (drive T (setRstX c false)).2).2.cntInst = c.cntInst
  rw [update_cntInst, if_neg fun h => h.2 (update_valid_of_reset patch hT hrst h.1)]
  exact hcnt

variable (T) in
/-- Writing a register of the module touches no public member of the wrapper. -/
theorem registers_keepsCounts : (methods T patch).toRegisterMethods.KeepsCounts where
  halt_write := fun _ _ _ => rfl
  cntInst_write := fun _ _ _ => rfl

/-- The registers of a wrapper are those of the module. -/
theorem registers_lawful (hT : T.HasRegisterArray) :
    (methods T patch).toRegisterMethods.Lawful where
  toKeepsCounts := registers_keepsCounts T patch
  read_write := fun c => hT c.self.top
  read_halt := fun _ _ => rfl

/-- A wrapper meets the contract of a verilated core. -/
theorem methods_countsRetired (hT : T.Resets) : (methods T patch).CountsRetired where
  keepsCounts := registers_keepsCounts T patch
  reset_halt := fun c => (update_halt patch _).trans (drive_keeps (setRstX c false)).1
  reset_cntInst := reset_cntInst patch hT
  drive_halt := fun c => (drive_keeps c).1
  drive_cntInst := fun c => (drive_keeps c).2.1
  update_halt := update_halt patch
  update_cntInst := update_cntInst patch

end CoreWrapper

/-- `RVCorePCore` meets the contract of a verilated core. -/
theorem RVCorePCore.methods_countsRetired {τ : Type} {T : TopModule τ} (hT : T.Resets) :
    (RVCorePCore.methods T).CountsRetired :=
  CoreWrapper.methods_countsRetired _ hT

/-- `KronosCore` meets the contract of a verilated core. -/
theorem KronosCore.methods_countsRetired {τ : Type} {T : TopModule τ} (hT : T.Resets) :
    (KronosCore.methods T).CountsRetired :=
  CoreWrapper.methods_countsRetired _ hT

/-! A module that retires a list of records, one in each cycle, and then idles. -/

/-- The rest of the list, the record on the ports and the registers. -/
structure Playback where
  rest : List CoreInstructionIF
  shown : CoreInstructionIF
  reg : RegIndex → Word

namespace Playback

/-- A rising clock edge: in reset nothing is retired, else the next record comes to the ports.
When none is left the ports keep the last one with the valid bit low. -/
def eval (inputs : TopInputs) (t : Playback) : Playback :=
  if inputs.clk = false then t
  else if inputs.rstX = false then { t with shown := { t.shown with valid := 0 } }
  else
    match t.rest with
    | [] => { t with shown := { t.shown with valid := 0 } }
    | r :: rest => { t with rest := rest, shown := { r with valid := 1 } }

/-- The module makes no memory requests. -/
def top : TopModule Playback where
  eval := eval
  outputs := fun t =>
    { memEn := 0
      memDRe := 0
      memDWe := 0
      memIAddr := 0
      memDAddr := 0
      memDWdata := 0
      memDWmask := 0
      instif := t.shown }
  readReg := fun t => t.reg
  writeReg := fun t a data => { t with reg := Function.update t.reg a data }
  writeMtvec := fun t _ => t

/-- A rising clock edge out of reset, with records left. -/
theorem eval_cons {inputs : TopInputs} {t : Playback} {r : CoreInstructionIF}
    {rest : List CoreInstructionIF} (hclk : inputs.clk = true) (hrst : inputs.rstX = true)
    (hrest : t.rest = r :: rest) :
    eval inputs t = { t with rest := rest, shown := { r with valid := 1 } } := by
  rw [eval, if_neg (by rw [hclk]; decide), if_neg (by rw [hrst]; decide), hrest]

/-- A rising clock edge out of reset, with no record left. -/
theorem eval_nil {inputs : TopInputs} {t : Playback} (hclk : inputs.clk = true)
    (hrst : inputs.rstX = true) (hrest : t.rest = []) :
    eval inputs t = { t with shown := { t.shown with valid := 0 } } := by
  rw [eval, if_neg (by rw [hclk]; decide), if_neg (by rw [hrst]; decide), hrest]

/-- The registers of the module are an array. -/
theorem top_hasRegisterArray : top.HasRegisterArray :=
  fun t a data b => Function.update_apply t.reg a data b

/-- The module retires nothing in reset. -/
theorem top_resets : top.Resets := by
  intro inputs t hclk hrst
  change (eval inputs t).shown.valid = 0
  rw [eval]
  rw [if_neg (by rw [hclk]; decide), if_pos hrst]

end Playback

end VeriCross
