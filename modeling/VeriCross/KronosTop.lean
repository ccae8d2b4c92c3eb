import VeriCross.CoreWrapper

/-!
# The top module of Kronos

`kronos_top` connects `kronos_core` with a memory of a single port, which answers a request in the
next cycle. It acknowledges the requests of a cycle with two registers, those to the data memory
first. The core itself is not part of the repository and is a parameter here: what its wires settle
on, and what an evaluation does to its registers.
-/

namespace VeriCross

/-- The inputs of `kronos_core`. -/
structure KronosInputs where
  rstz : Bool
  instrData : Word
  instrAck : Bool
  dataRdData : Word
  dataAck : Bool

/-- The outputs of `kronos_core`, and the wires in its EX stage that are logged. -/
structure KronosOutputs where
  instrAddr : Word
  instrReq : Bool
  dataAddr : Word
  dataWrData : Word
  dataMask : Word
  dataWrEn : Bool
  dataReq : Bool
  instrVld : Bool
  decodePc : Word
  decodeIr : Word
  rd : Word
  result : Word
  byteAddr : Byte

/-- A module in the place of `kronos_core`. The flag of `clocked` tells whether the clock rises. -/
structure KronosModule (σ : Type) where
  settle : KronosInputs → σ → KronosOutputs
  clocked : Bool → KronosInputs → σ → σ
  readReg : σ → RegIndex → Word
  writeReg : σ → RegIndex → Word → σ
  writeMtvec : σ → Word → σ

/-- Out of reset the registers only change when the clock rises. -/
def KronosModule.Synchronous {σ : Type} (K : KronosModule σ) : Prop :=
  ∀ inputs core, inputs.rstz = true → K.clocked false inputs core = core

/-- The registers of `kronos_top`, and the input ports at the last evaluation. -/
structure KronosTop (σ : Type) where
  core : σ
  memIAck : Bool
  memDAck : Bool
  inputs : TopInputs

namespace KronosTop

variable {σ : Type} (K : KronosModule σ)

/-- The inputs of the core. -/
def coreInputs (t : KronosTop σ) : KronosInputs where
  rstz := t.inputs.rstX
  instrData := t.inputs.memIRdata
  instrAck := t.memIAck
  dataRdData := t.inputs.memDRdata
  dataAck := t.memDAck

/-- What the wires of the core settle on. -/
def wires (t : KronosTop σ) : KronosOutputs := K.settle t.coreInputs t.core

/-- An evaluation. When the clock rises all the registers take their new values at once. -/
def eval (inputs : TopInputs) (t : KronosTop σ) : KronosTop σ :=
  let rising := inputs.clk && !t.inputs.clk
  let t := { t with inputs := inputs }
  let o := t.wires K
  { core := K.clocked rising t.coreInputs t.core
    memIAck := if rising then o.instrReq && !o.dataReq else t.memIAck
    memDAck := if rising then o.dataReq else t.memDAck
    inputs := inputs }

/-- The output ports. -/
def outputs (t : KronosTop σ) : TopOutputs :=
  let o := t.wires K
  { -- request to either instruction or data memory will be accepted
    memEn := wire (o.instrReq || o.dataReq)
    memDRe := wire (o.dataReq && !o.dataWrEn)
    memDWe := wire o.dataWrEn
    memIAddr := o.instrAddr
    memDAddr := o.dataAddr
    memDWdata := o.dataWrData
    memDWmask := o.dataMask
    -- information for instruction logging is extracted from EX stage
    instif :=
      { valid := wire o.instrVld
        pc := o.decodePc
        ir := o.decodeIr
        rd := o.rd
        result := o.result
        dAddr := o.dataAddr
        dWdata := o.dataWrData
        dWmask := o.dataMask
        dBaddr := o.byteAddr } }

/-- The top module that Verilator makes. -/
def top : TopModule (KronosTop σ) where
  eval := eval K
  outputs := outputs K
  readReg := fun t => K.readReg t.core
  writeReg := fun t a data => { t with core := K.writeReg t.core a data }
  writeMtvec := fun t data => { t with core := K.writeMtvec t.core data }

end KronosTop

end VeriCross
