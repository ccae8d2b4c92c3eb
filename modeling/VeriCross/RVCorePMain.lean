import VeriCross.CoreWrapper

/-!
# The top module of RVCoreP

`rvcorep_main` connects `RVCore` with a memory that answers in every cycle. The record of a retired
instruction comes from the stage after the one that accesses the memory, so the address and the mask
of the access are kept in two registers for it. The core itself is not part of the repository and
is a parameter here.
-/

namespace VeriCross

/-- The inputs of `RVCore`. -/
structure RVCoreInputs where
  rstX : Bool
  iIn : Word
  dIn : Word

/-- The outputs of `RVCore`, and the registers of its last stages that are logged. -/
structure RVCoreOutputs where
  iAddr : Word
  dAddr : Word
  dOut : Word
  dWe : BitVec 4
  dRe : Bool
  exMaV : Bool
  exMaPc : BitVec 18
  exMaIr : Word
  exMaRd : BitVec 5
  maRslt : Word
  exMaWdata : Word
  exMaAddr : BitVec 2

/-- A module in the place of `RVCore`: what its wires settle on, and what a rising clock edge does
to its registers. -/
structure RVCoreModule (σ : Type) where
  settle : RVCoreInputs → σ → RVCoreOutputs
  clocked : RVCoreInputs → σ → σ
  readReg : σ → RegIndex → Word
  writeReg : σ → RegIndex → Word → σ

/-- The registers of `rvcorep_main`, and the input ports at the last evaluation. -/
structure RVCorePMain (σ : Type) where
  core : σ
  exMaDAddr : Word
  exMaDWe : BitVec 4
  inputs : TopInputs

namespace RVCorePMain

variable {σ : Type} (K : RVCoreModule σ)

/-- The inputs of the core. -/
def coreInputs (t : RVCorePMain σ) : RVCoreInputs where
  rstX := t.inputs.rstX
  iIn := t.inputs.memIRdata
  dIn := t.inputs.memDRdata

/-- What the wires of the core settle on. -/
def wires (t : RVCorePMain σ) : RVCoreOutputs := K.settle t.coreInputs t.core

/-- The word address of a data address. -/
def wordAddr (dAddr : Word) : Word := dAddr.extractLsb' 2 30 ++ 0#2

/-- An evaluation. When the clock rises all the registers take their new values at once; the reset
is synchronous. -/
def eval (inputs : TopInputs) (t : RVCorePMain σ) : RVCorePMain σ :=
  let rising := inputs.clk && !t.inputs.clk
  let t := { t with inputs := inputs }
  let o := t.wires K
  if rising then
    { core := K.clocked t.coreInputs t.core
      exMaDAddr := if !inputs.rstX then 0 else wordAddr o.dAddr
      exMaDWe := if !inputs.rstX then 0 else o.dWe
      inputs := inputs }
  else t

/-- The output ports. -/
def outputs (t : RVCorePMain σ) : TopOutputs :=
  let o := t.wires K
  { memEn := 1
    memDRe := wire o.dRe
    memDWe := wire (o.dWe ≠ 0)
    memIAddr := o.iAddr
    memDAddr := wordAddr o.dAddr
    memDWdata := o.dOut
    memDWmask := o.dWe.setWidth 32
    instif :=
      { valid := wire o.exMaV
        pc := o.exMaPc.setWidth 32
        ir := o.exMaIr
        rd := o.exMaRd.setWidth 32
        result := o.maRslt
        dAddr := t.exMaDAddr
        dWdata := o.exMaWdata
        dWmask := t.exMaDWe.setWidth 32
        dBaddr := o.exMaAddr.setWidth 8 } }

/-- The top module that Verilator makes. The wrapper of this core has no use for `mtvec`. -/
def top : TopModule (RVCorePMain σ) where
  eval := eval K
  outputs := outputs K
  readReg := fun t => K.readReg t.core
  writeReg := fun t a data => { t with core := K.writeReg t.core a data }
  writeMtvec := fun t _ => t

end RVCorePMain

end VeriCross
