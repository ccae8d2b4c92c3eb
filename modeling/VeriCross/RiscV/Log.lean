import VeriCross.Memory.Model
import VeriCross.RiscV.Instruction

/-!
# Instruction logs

A log entry keeps the record of an instruction, its decoding, and the word of memory at the data
address when the entry was made. `getLog` recomputes the effect of a load or a store from these,
because a core may log the access before the memory carries it out.
-/

namespace VeriCross

open RiscV

/-- Lower-case hexadecimal digits. -/
def hex (n : ℕ) : String := String.ofList (Nat.toDigits 16 n)

/-- Fill a text on the left. -/
def padLeft (width : ℕ) (c : Char) (s : String) : String :=
  String.ofList (s.toList.leftpad width c)

/-- Fill a text with blanks on the right. -/
def padRight (width : ℕ) (s : String) : String := String.ofList (s.toList.rightpad width ' ')

/-- A signed integer in hexadecimal, as `{:x}` prints an `int32_t`. -/
def hexInt (w : Word) : String :=
  if w.toInt < 0 then "-" ++ hex w.toInt.natAbs else hex w.toInt.toNat

/-- The members of `RiscVLogInfo`. -/
structure RiscVLogInfo where
  inst : Option RiscVInstruction
  iif : CoreInstructionIF
  memData : Word

namespace RiscVLogInfo

/-- The constructor: the record and the current value of memory. The word is read for a load or
a store only, and left uninitialised for other instructions. -/
def new (read : Word → ℤ → List Byte) (coreif : CoreInstructionIF) : RiscVLogInfo :=
  if coreif.valid ≠ 0 then
    let inst := RiscVInstruction.decode coreif.pc coreif.ir
    { inst := some inst
      iif := coreif
      memData := if inst.isLoad || inst.isStore then bytesWord (read coreif.dAddr 4) else 0 }
  else { inst := none, iif := coreif, memData := 0 }

/-- The mnemonic with its operands. -/
def getMnemonic (inst : RiscVInstruction) : String :=
  let name := padRight 7 inst.instr
  let x (w : Word) : String := s!"x{w.toNat}"
  let imm := toString inst.imm.toInt
  let operands := inst.attr &&& oprMask
  if operands = oprNone then name
  else if operands = oprRdRs1Rs2 then s!"{name} {x inst.rd}, {x inst.rs1}, {x inst.rs2}"
  else if operands = oprRdRs1Imm then s!"{name} {x inst.rd}, {x inst.rs1}, {imm}"
  else if operands = oprRdRs1Shamt then
    s!"{name} {x inst.rd}, {x inst.rs1}, {inst.shamt.toNat}"
  else if operands = oprRdImm then s!"{name} {x inst.rd}, 0x{hexInt inst.imm}"
  else if operands = oprRdOffRs1 then s!"{name} {x inst.rd}, {imm}({x inst.rs1})"
  else if operands = oprRs2OffRs1 then s!"{name} {x inst.rs2}, {imm}({x inst.rs1})"
  else if operands = oprRs1Rs2Npc then
    s!"{name} {x inst.rs1}, {x inst.rs2}, {imm} # 0x{hex inst.npc.toNat}"
  else if operands = oprRdNpc then s!"{name} {x inst.rd}, {imm} # 0x{hex inst.npc.toNat}"
  else if operands = oprPredSucc then s!"{name} {inst.pred.toNat}, {inst.succ.toNat}"
  else if operands = oprRdCsrRs1 then
    s!"{name} {x inst.rd}, 0x{hex inst.csr.toNat}, {x inst.rs1}"
  else if operands = oprRdCsrZimm then
    s!"{name} {x inst.rd}, 0x{hex inst.csr.toNat}, 0x{hex inst.zimm.toNat}"
  else "???"

/-- The value a load leaves in its register, from the word at its aligned address. -/
def loadResult (attr memData : Word) (baddr : Byte) : Word :=
  let memMask : Word :=
    if attr &&& logLoad = logLd1b then 0xff
    else if attr &&& logLoad = logLd2b then 0xffff
    else 0xffffffff
  let result := (memData >>> (baddr.toNat * 8)) &&& memMask
  if attr &&& logLdsgn ≠ 0 then
    let result :=
      if attr &&& logLd1b ≠ 0 then result ||| (if result &&& 0x80 ≠ 0 then 0xffffff00 else 0)
      else result
    if attr &&& logLd2b ≠ 0 then result ||| (if result &&& 0x8000 ≠ 0 then 0xffff0000 else 0)
    else result
  else result

/-- Simulate the load or the store of an entry. -/
def simulateAccess (info : RiscVLogInfo) (inst : RiscVInstruction) : RiscVLogInfo :=
  if inst.isStore then
    let memMask := expandWmask info.iif.dWmask
    { info with memData := (info.memData &&& ~~~memMask) ||| (info.iif.dWdata &&& memMask) }
  else if inst.isLoad then
    { info with
      iif := { info.iif with result := loadResult inst.attr info.memData info.iif.dBaddr } }
  else info

/-- The log line of an entry, and the entry with the recomputed fields. An entry made from a
record that is not valid has no line. -/
def getLog (info : RiscVLogInfo) : String × RiscVLogInfo :=
  match info.inst with
  | none => ("", info)
  | some inst =>
    let wordAddr := info.iif.dAddr >>> 2
    let pc := padLeft 8 ' ' (hex info.iif.pc.toNat)
    let ir := padLeft 8 '0' (hex info.iif.ir.toNat)
    let instStr := s!"{pc}: {ir}  {getMnemonic inst}"
    let info := info.simulateAccess inst
    let line :=
      if inst.isStore then
        s!"{padRight 55 instStr} mem[0x{hex wordAddr.toNat}] <- 0x{hex info.memData.toNat}\n"
      else if inst.writesRd then
        let rd := padRight 2 (toString info.iif.rd.toNat)
        s!"{padRight 55 instStr} x{rd} <- 0x{hex info.iif.result.toNat}\n"
      else instStr ++ "\n"
    (line, info)

end RiscVLogInfo

end VeriCross
