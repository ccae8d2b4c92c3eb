import VeriCross.Sim.Machine

/-!
# The program loader

The loader reads a flat binary, the text that `objdump` printed for it and a stack image in
hexadecimal. It finds the base of the text section and the address of `_start` by the function
headers of the `objdump` text, and makes three sections for `main` to write: the binary, the
stack and one jump from the initial program counter to `_start`. A text file is a list of
characters, one for each byte.
-/

namespace VeriCross

/-- The files of the loader, with `none` for one that cannot be opened. The text of the
exception is there when the base directory cannot be entered. -/
structure LoaderFiles where
  chdir : Option String
  bin : Option (List Byte)
  dump : Option (List Char)
  sp : Option (List Char)

/-- The public members of `Loader`. -/
structure Loader where
  valid : Bool
  message : String
  sections : List Section
  brkAddr : Word

namespace Loader

/-- The lines that a loop of `std::getline` returns. -/
def lines : List Char → List (List Char)
  | [] => []
  | c :: rest =>
    if c = '\n' then [] :: lines rest
    else
      match lines rest with
      | [] => [[c]]
      | line :: more => (c :: line) :: more

/-- The value of a character of the class `[0-9a-f]`. -/
def hexDigit? (c : Char) : Option ℕ :=
  if '0' ≤ c ∧ c ≤ '9' then some (c.toNat - '0'.toNat)
  else if 'a' ≤ c ∧ c ≤ 'f' then some (c.toNat - 'a'.toNat + 10)
  else none

/-- `std::stoul` in base 16 of a text that matches `[0-9a-f]{8}`. -/
def matchWord? (text : List Char) : Option Word :=
  if text.length = 8 then
    (text.mapM hexDigit?).map fun digits => BitVec.ofNat 32 (digits.foldl (16 * · + ·) 0)
  else none

/-- The address and the name in a line that matches `([0-9a-f]{8}) <(.+)>:`. -/
def matchFunc? (line : List Char) : Option (Word × List Char) :=
  let name? := ((line.drop 8).dropPrefix? [' ', '<']).bind (·.dropSuffix? ['>', ':'])
  match matchWord? (line.take 8), name? with
  | some addr, some name =>
    if name ≠ [] ∧ name.all fun c => c ≠ '\n' ∧ c ≠ '\r' then some (addr, name) else none
  | _, _ => none

/-- The loop over the function headers: the base of the text section, which is the first
nonzero address unless one was found before, and the address of `_start`, or zero. -/
def scanDump (textAddr : Word) : List (List Char) → Word × Word
  | [] => (textAddr, 0)
  | line :: rest =>
    match matchFunc? line with
    | none => scanDump textAddr rest
    | some (addr, name) =>
      let textAddr := if textAddr = 0 then addr else textAddr
      if name = "_start".toList then (textAddr, addr) else scanDump textAddr rest

/-- The base of the text section. -/
def textAddr (dump : List Char) : Word := (scanDump 0 (lines dump)).1

/-- The address of `_start`, or zero. -/
def startAddr (dump : List Char) : Word := (scanDump 0 (lines dump)).2

/-- The words of the stack image: the lines that match `^([0-9a-f]{8})`. -/
def stackWords (sp : List Char) : List Word := (lines sp).filterMap matchWord?

/-- The whole words of a file, as `read` puts them into a section. -/
def imageWords : List Byte → List Word
  | b0 :: b1 :: b2 :: b3 :: rest => bytesWord [b0, b1, b2, b3] :: imageWords rest
  | _ => []

/-- A jal instruction, written at the entry point, to jump to `_start`. -/
def makeJal (imm : Word) : Word :=
  ((imm <<< 20) &&& 0x7fe00000) ||| ((imm <<< 9) &&& 0x00100000) ||| (imm &&& 0x000ff000) |||
    ((imm <<< 11) &&& 0x80000000) ||| 0x0000006f

/-- The size of the binary in an `int`, cut to whole words. -/
def binSize (bin : List Byte) : Word := BitVec.ofNat 32 bin.length &&& ~~~0x3

/-- A loader whose constructor gave up. -/
def failed (message : String) : Loader := ⟨false, message, [], 0⟩

/-- The constructor. There is no loader when the size of the stack overflows an `int`, which is
undefined, and when the size of the binary is negative, which throws. -/
def new (binFile dumpFile spFile : String) (files : LoaderFiles) : Option Loader :=
  match files.chdir with
  | some what => some (failed s!"failed to change working directory ({what})")
  | none =>
  match files.bin with
  | none => some (failed s!"failed to open the binary file ({binFile})")
  | some bin =>
  if BitVec.ofNat 32 bin.length = -1 then
    some (failed s!"failed to open the binary file ({binFile})")
  else
  match files.dump with
  | none => some (failed s!"failed to open the objdump file ({dumpFile})")
  | some dump =>
  match files.sp with
  | none => some (failed s!"failed to open the stack image file ({spFile})")
  | some sp =>
  if startAddr dump = 0 then some (failed "failed to determine the initial PC")
  else if 2 ^ 31 ≤ 4 * (stackWords sp).length then none
  else if 4 * (stackWords sp).length < 16 then
    some (failed s!"the stack image file ({spFile}) is invalid")
  else if (binSize bin).msb then none
  else
    some
      { valid := true
        message := ""
        sections :=
          -- text and data sections, stack, instruction to jump to _start
          [⟨textAddr dump, binSize bin, imageWords (bin.take (binSize bin).toNat)⟩,
            ⟨initialSp, BitVec.ofNat 32 (4 * (stackWords sp).length), stackWords sp⟩,
            ⟨initialPc, 4, [makeJal (startAddr dump - initialPc)]⟩]
        brkAddr := textAddr dump + binSize bin }

/-- What a valid loader has read, and the image that it has made. -/
theorem new_valid {binFile dumpFile spFile : String} {files : LoaderFiles} {ld : Loader}
    (hnew : new binFile dumpFile spFile files = some ld) (hvalid : ld.valid = true)
    {bin : List Byte} {dump sp : List Char} (hbin : files.bin = some bin)
    (hdump : files.dump = some dump) (hsp : files.sp = some sp) :
    4 ≤ (stackWords sp).length ∧ (stackWords sp).length < 2 ^ 29 ∧
      ld.sections =
        [⟨textAddr dump, binSize bin, imageWords (bin.take (binSize bin).toNat)⟩,
          ⟨initialSp, BitVec.ofNat 32 (4 * (stackWords sp).length), stackWords sp⟩,
          ⟨initialPc, 4, [makeJal (startAddr dump - initialPc)]⟩] ∧
      ld.brkAddr = textAddr dump + binSize bin := by
  have hfailed : ∀ message, some (failed message) ≠ some ld := by
    intro message h
    cases h
    cases hvalid
  rw [new, hbin, hdump, hsp] at hnew
  cases hchdir : files.chdir with
  | some what =>
    rw [hchdir] at hnew
    exact absurd hnew (hfailed _)
  | none =>
    simp only [hchdir] at hnew
    split at hnew
    · exact absurd hnew (hfailed _)
    split at hnew
    · exact absurd hnew (hfailed _)
    split at hnew
    · cases hnew
    split at hnew
    · exact absurd hnew (hfailed _)
    split at hnew
    · cases hnew
    cases hnew
    exact ⟨by omega, by omega, rfl, rfl⟩

end Loader

end VeriCross
