import VeriCross.Memory.Model
import VeriCross.RiscV.Instruction

/-!
# System call emulation

The host answers each call as a function of all the calls made so far. The machine is the list
of cores with the state they share: registers are read from the first core and written to all
of them, and data for the program goes through the public write of the memory.
-/

namespace VeriCross

open RiscV

/-- `struct stat` of the host, in the order of its members. -/
structure Stat where
  dev : Counter
  ino : Counter
  nlink : Counter
  mode : Word
  uid : Word
  gid : Word
  pad : Word
  rdev : Counter
  size : Counter
  blksize : Counter
  blocks : Counter
  atimSec : Counter
  atimNsec : Counter
  mtimSec : Counter
  mtimNsec : Counter
  ctimSec : Counter
  ctimNsec : Counter
  deriving Inhabited

/-- The two words of a 64-bit member. -/
def counterWords (c : Counter) : List Word := [c.extractLsb' 0 32, c.extractLsb' 32 32]

/-- The first 30 words of the structure, as `memcpy` copies them. -/
def Stat.words (st : Stat) : List Word :=
  counterWords st.dev ++ counterWords st.ino ++ counterWords st.nlink ++
    [st.mode, st.uid, st.gid, st.pad] ++ counterWords st.rdev ++ counterWords st.size ++
    counterWords st.blksize ++ counterWords st.blocks ++ counterWords st.atimSec ++
    counterWords st.atimNsec ++ counterWords st.mtimSec ++ counterWords st.mtimNsec ++
    counterWords st.ctimSec ++ counterWords st.ctimNsec

/-- The calls made to the host. A write passes the bytes that were filled in and the count; a
buffer longer than its filled part ends in indeterminate bytes. -/
inductive HostCall
  | close (fd : Word)
  | lseek (fd : Word) (offset : Counter) (whence : Word)
  | read (fd : Word) (count : Word)
  | write (fd : Word) (data : List Byte) (count : Word)
  | fstat (fd : Word)
  | open (path : List Byte) (flags mode : Word)
  | stat (path : List Byte)
  deriving DecidableEq

/-- What a host call leaves: its result, `errno`, the buffer it filled and the `struct stat`. -/
structure HostReply where
  ret : Counter
  errno : Word
  data : ℕ → Byte
  st : Stat
  deriving Inhabited

/-- The host: the answer to the last of a sequence of calls. -/
abbrev Host := List HostCall → HostReply

/-- The result assigned to an `int`. -/
def HostReply.int (r : HostReply) : Word := r.ret.setWidth 32

/-- The value given to the program: the result, or the negated `errno` when it is negative. -/
def HostReply.result (r : HostReply) : Word := if 0 ≤ r.int.toInt then r.int else -r.errno

/-- The members of `SysCall` other than the pointers. -/
structure SysCall where
  fdMap : Std.TreeMap Word Word
  fdNext : Word
  brkAddr : Word

/-- The cores, the memory they are bound to, the emulation state and the host calls made. -/
structure Machine (numReps : ℕ) (α β : Type) where
  prim : Core α
  reps : Fin numReps → Core β
  mem : Memory numReps
  sys : SysCall
  calls : List HostCall

namespace SysCall

/-- The maximum length of a path. -/
def simPathMax : ℕ := 4096

/-- The number of `SC_CLOSE`. -/
def scClose : Word := 57
/-- The number of `SC_LSEEK`. -/
def scLseek : Word := 62
/-- The number of `SC_READ`. -/
def scRead : Word := 63
/-- The number of `SC_WRITE`. -/
def scWrite : Word := 64
/-- The number of `SC_FSTAT`. -/
def scFstat : Word := 80
/-- The number of `SC_EXIT`. -/
def scExit : Word := 93
/-- The number of `SC_GETTIMEOFDAY`. -/
def scGettimeofday : Word := 169
/-- The number of `SC_SBRK`. -/
def scSbrk : Word := 214
/-- The number of `SC_OPEN`. -/
def scOpen : Word := 1024
/-- The number of `SC_STAT`. -/
def scStat : Word := 1038

/-- The constructor. -/
def new (fdIn fdOut fdErr brkAddr : Word) : SysCall where
  fdMap := ((Std.TreeMap.empty.insert 0 fdIn).insert 1 fdOut).insert 2 fdErr
  fdNext := 3
  brkAddr := brkAddr

/-- The value of `fd_map[key]`: a missing entry reads as zero. -/
def fdAt (sys : SysCall) (key : Word) : Word := sys.fdMap[key]?.getD 0

/-- The state after `fd_map[key]` was read: a missing entry is inserted. -/
def fdTouch (sys : SysCall) (key : Word) : SysCall :=
  if sys.fdMap.contains key then sys else { sys with fdMap := sys.fdMap.insert key 0 }

/-- The state after a file was opened under the next number. -/
def fdAdd (sys : SysCall) (fd : Word) : SysCall :=
  { sys with fdMap := sys.fdMap.insert sys.fdNext fd, fdNext := sys.fdNext + 1 }

/-- Conversion of the flags of `open`. -/
def openFlags (flag : Word) : Word :=
  (if flag &&& 0x000008 ≠ 0 then 0x000400 else 0) |||
    (if flag &&& 0x040000 ≠ 0 then 0x080000 else 0) |||
    (if flag &&& 0x000200 ≠ 0 then 0x000040 else 0) |||
    (if flag &&& 0x200000 ≠ 0 then 0x010000 else 0) |||
    (if flag &&& 0x000800 ≠ 0 then 0x000080 else 0) |||
    (if flag &&& 0x008000 ≠ 0 then 0x000100 else 0) |||
    (if flag &&& 0x100000 ≠ 0 then 0x020000 else 0) |||
    (if flag &&& 0x004000 ≠ 0 then 0x000800 else 0) |||
    (if flag &&& 0x002000 ≠ 0 then 0x101000 else 0) |||
    (if flag &&& 0x000400 ≠ 0 then 0x000200 else 0) ||| (flag &&& 0x3)

/-- Read a NUL-terminated path of fewer than the given number of bytes. -/
def readPath (read : Word → ℤ → List Byte) (addr : Word) : ℕ → Option (List Byte)
  | 0 => none
  | n + 1 =>
    let b := (bytesWord (read addr 1)).setWidth 8
    if b = 0 then some [] else (readPath read (addr + 1) n).map (b :: ·)

/-- The structure with deterministic times and block count. -/
def fixStat (st : Stat) (vtime vtimeNsec : Word) : Stat :=
  { st with
    atimSec := vtime.setWidth 64
    mtimSec := vtime.setWidth 64
    ctimSec := vtime.setWidth 64
    atimNsec := vtimeNsec.setWidth 64
    mtimNsec := vtimeNsec.setWidth 64
    ctimNsec := vtimeNsec.setWidth 64
    blocks := st.size.sdiv 512 }

/-- The words of `struct stat` that the program receives. -/
def postprocessStat (st : Stat) (vtime vtimeNsec : Word) : List Word :=
  let dst := (fixStat st vtime vtimeNsec).words
  -- reorder members of stat
  let dst := dst.set 5 (dst.getD 4 0)
  let dst := dst.set 4 (dst.getD 6 0)
  dst.set 6 (dst.getD 7 0)

/-- The seconds of the deterministic current time. -/
def vtime (cntInst : Counter) : Word := (1640995200 + cntInst / 1000000).setWidth 32

/-- The nanoseconds of the deterministic current time. -/
def vtimeNsec (cntInst : Counter) : Word := (cntInst % 1000000 * 1000).setWidth 32

end SysCall

namespace Machine

open SysCall

variable {numReps : ℕ} {α β : Type}

section Registers

variable (P : RegisterMethods α) (R : RegisterMethods β)

/-- Read a register of the first core. -/
def readReg (M : Machine numReps α β) (addr : RegIndex) : Word := P.readReg M.prim addr

/-- Write a register of all the cores. -/
def writeReg (M : Machine numReps α β) (addr : RegIndex) (data : Word) : Machine numReps α β :=
  { M with prim := P.writeReg M.prim addr data, reps := fun i => R.writeReg (M.reps i) addr data }

end Registers

/-- Stop all the cores. -/
def haltCores (M : Machine numReps α β) : Machine numReps α β :=
  { M with
    prim := { M.prim with halt := true }
    reps := fun i => { M.reps i with halt := true } }

/-- Write data for the program. -/
def memWrite (M : Machine numReps α β) (addr : Word) (data : List Byte) : Machine numReps α β :=
  { M with mem := M.mem.write addr data }

/-- Change the emulation state. -/
def setSys (M : Machine numReps α β) (sys : SysCall) : Machine numReps α β := { M with sys := sys }

/-- Make a call to the host. -/
def call (M : Machine numReps α β) (c : HostCall) : Machine numReps α β :=
  { M with calls := M.calls ++ [c] }

/-- The answer to the last call. -/
def reply (host : Host) (M : Machine numReps α β) : HostReply := host M.calls

section Emulate

variable (host : Host) (P : RegisterMethods α) (R : RegisterMethods β)

/-- The host descriptor for the number in the first argument, with the entry it leaves. -/
def lookup (M : Machine numReps α β) : Word × Machine numReps α β :=
  (M.sys.fdAt (M.readReg P regA0), M.setSys (M.sys.fdTouch (M.readReg P regA0)))

/-- `SC_CLOSE`: the simulator's own descriptors are not closed. -/
def emulateClose (M : Machine numReps α β) : Machine numReps α β :=
  let (fd, M) := M.lookup P
  if 3 ≤ fd.toInt then
    let M := M.call (.close fd)
    let r := M.reply host
    M.writeReg P R regA0 (if r.int = 0 then 0 else -r.errno)
  else M.writeReg P R regA0 0

/-- `SC_LSEEK`. -/
def emulateLseek (M : Machine numReps α β) : Machine numReps α β :=
  let (fd, M) := M.lookup P
  let M := M.call (.lseek fd ((M.readReg P regA1).setWidth 64) (M.readReg P regA2))
  M.writeReg P R regA0 (M.reply host).result

/-- `SC_READ`. -/
def emulateRead (M : Machine numReps α β) : Machine numReps α β :=
  let (fd, M) := M.lookup P
  let M := M.call (.read fd (M.readReg P regA2))
  let r := M.reply host
  let M :=
    if 0 < r.int.toInt then
      M.memWrite (M.readReg P regA1) ((List.range r.int.toNat).map r.data)
    else M
  M.writeReg P R regA0 r.result

/-- `SC_WRITE`: the length is converted to `int` for the copy and to `size_t` for the call. -/
def emulateWrite (M : Machine numReps α β) : Machine numReps α β :=
  let (fd, M) := M.lookup P
  let data := M.mem.read (M.readReg P regA1) (M.readReg P regA2).toInt
  let M := M.call (.write fd data (M.readReg P regA2))
  M.writeReg P R regA0 (M.reply host).result

/-- The common part of `SC_FSTAT` and `SC_STAT`, after the host call. -/
def finishStat (M : Machine numReps α β) : Machine numReps α β :=
  let r := M.reply host
  if r.int = 0 then
    let words := postprocessStat r.st (vtime M.prim.cntInst) (vtimeNsec M.prim.cntInst)
    let M := M.writeReg P R regA0 0
    M.memWrite (M.readReg P regA1) (words.flatMap wordBytes)
  else M.writeReg P R regA0 (-r.errno)

/-- `SC_FSTAT`. -/
def emulateFstat (M : Machine numReps α β) : Machine numReps α β :=
  let (fd, M) := M.lookup P
  (M.call (.fstat fd)).finishStat host P R

/-- `SC_GETTIMEOFDAY`: the host is not asked. -/
def emulateGettimeofday (M : Machine numReps α β) : Machine numReps α β :=
  let words := [vtime M.prim.cntInst, 0, vtimeNsec M.prim.cntInst, 0]
  let M := M.memWrite (M.readReg P regA0) (words.flatMap wordBytes)
  M.writeReg P R regA0 0

/-- `SC_SBRK`: zero asks for the break address, any other value replaces it. -/
def emulateSbrk (M : Machine numReps α β) : Machine numReps α β :=
  if M.readReg P regA0 = 0 then M.writeReg P R regA0 M.sys.brkAddr
  else M.setSys { M.sys with brkAddr := M.readReg P regA0 }

/-- `SC_OPEN`: the file is known to the program by the next number. -/
def emulateOpen (M : Machine numReps α β) : Machine numReps α β :=
  match readPath M.mem.read (M.readReg P regA0) simPathMax with
  | none => M.writeReg P R regA0 (-36)
  | some path =>
    let M := M.call (.open path (openFlags (M.readReg P regA1)) (M.readReg P regA2))
    let r := M.reply host
    if 0 ≤ r.int.toInt then
      let fdNext := M.sys.fdNext
      (M.setSys (M.sys.fdAdd r.int)).writeReg P R regA0 fdNext
    else M.writeReg P R regA0 (-r.errno)

/-- `SC_STAT`. -/
def emulateStat (M : Machine numReps α β) : Machine numReps α β :=
  match readPath M.mem.read (M.readReg P regA0) simPathMax with
  | none => M.writeReg P R regA0 (-36)
  | some path => (M.call (.stat path)).finishStat host P R

/-- The body of system call emulation; other numbers are ignored. -/
def emulate (M : Machine numReps α β) : Machine numReps α β :=
  let number := M.readReg P regA7
  if number = scClose then M.emulateClose host P R
  else if number = scLseek then M.emulateLseek host P R
  else if number = scRead then M.emulateRead host P R
  else if number = scWrite then M.emulateWrite host P R
  else if number = scFstat then M.emulateFstat host P R
  else if number = scExit then M.haltCores
  else if number = scGettimeofday then M.emulateGettimeofday P R
  else if number = scSbrk then M.emulateSbrk P R
  else if number = scOpen then M.emulateOpen host P R
  else if number = scStat then M.emulateStat host P R
  else M

end Emulate

end Machine

end VeriCross
