import VeriCross.Common
import Mathlib.Data.Fintype.Basic
import Mathlib.Logic.Function.Basic

/-!
# The main memory

One primary core and any number of replicas are bound to the memory. With replicas, every core
stores to its own write buffer, and `cleanupWb` moves a word to the array once every buffer
holds it. Without replicas the array is accessed directly. The array is a function on word
addresses; every access masks its address with `NWORDS - 1` first.
-/

namespace VeriCross

/-- `std::map<uint32_t, uint32_t>`, from word addresses to words. -/
abbrev WriteBuffer := Std.TreeMap Word Word

/-- The cores an access is made for: `ID_ALL`, `ID_PRIMARY` or the index of a replica. -/
inductive CoreId (numReps : ℕ)
  | all
  | primary
  | replica (i : Fin numReps)
  deriving DecidableEq

/-- The state of the memory. The source allocates no write buffer when there is no replica;
here the primary's buffer then exists but is neither read nor written. -/
structure Memory (numReps : ℕ) where
  ifPrim : CoreMemoryIF
  ifReps : Fin numReps → CoreMemoryIF
  wbPrim : WriteBuffer
  wbReps : Fin numReps → WriteBuffer
  mem : Word → Word
  nwords : Word

/-- The little-endian bytes of a word, as `memcpy` copies them. -/
def wordBytes (w : Word) : List Byte :=
  [w.extractLsb' 0 8, w.extractLsb' 8 8, w.extractLsb' 16 8, w.extractLsb' 24 8]

/-- The word made of at most four little-endian bytes. -/
def bytesWord (bytes : List Byte) : Word :=
  bytes.foldr (fun b acc => (acc <<< 8) ||| b.setWidth 32) 0

namespace Memory

variable {numReps : ℕ}

/-- The constructor. The interface copies are left uninitialised. -/
def new (ifPrim : CoreMemoryIF) (ifReps : Fin numReps → CoreMemoryIF) (nw : Word) :
    Memory numReps where
  ifPrim := ifPrim
  ifReps := ifReps
  wbPrim := ∅
  wbReps := fun _ => ∅
  mem := fun _ => 0
  nwords := nw

/-- The write buffer an access reads through; accesses for all cores read the primary's. -/
def wbOf (m : Memory numReps) : CoreId numReps → WriteBuffer
  | .all => m.wbPrim
  | .primary => m.wbPrim
  | .replica i => m.wbReps i

/-- The index of the word at a byte address. -/
def wordAddr (m : Memory numReps) (addr : Word) : Word := (addr >>> 2) &&& (m.nwords - 1)

/-- Read the word at an address for a core. -/
def read4b (m : Memory numReps) (id : CoreId numReps) (addr : Word) : Word :=
  if numReps = 0 then
    -- in single execution, simply return memory content
    m.mem (m.wordAddr addr)
  else
    -- read from write buffer if data is not yet written to memory
    match (m.wbOf id)[m.wordAddr addr]? with
    | some data => data
    | none => m.mem (m.wordAddr addr)

/-- Read the byte at an address for a core. -/
def read1b (m : Memory numReps) (id : CoreId numReps) (addr : Word) : Byte :=
  (m.read4b id addr >>> (addr.toNat % 4 * 8)).setWidth 8

/-- Erase an entry of a write buffer if it is there. -/
def eraseEntry (wb : WriteBuffer) (wordAddr : Word) : WriteBuffer :=
  if wb.contains wordAddr then wb.erase wordAddr else wb

/-- Write the word at an address for a core. -/
def write4b (m : Memory numReps) (id : CoreId numReps) (addr data : Word) : Memory numReps :=
  let wordAddr := m.wordAddr addr
  if numReps = 0 then
    -- in single execution, simply write to memory
    { m with mem := Function.update m.mem wordAddr data }
  else
    match id with
    | .all =>
      -- write to memory and erase corresponding entry from all write buffers
      { m with
        mem := Function.update m.mem wordAddr data
        wbPrim := eraseEntry m.wbPrim wordAddr
        wbReps := fun i => eraseEntry (m.wbReps i) wordAddr }
    -- write to each core's write buffer
    | .primary => { m with wbPrim := m.wbPrim.insert wordAddr data }
    | .replica i =>
      { m with wbReps := Function.update m.wbReps i ((m.wbReps i).insert wordAddr data) }

/-- Write the byte at an address for a core, by read-modify-write of its word. -/
def write1b (m : Memory numReps) (id : CoreId numReps) (addr : Word) (data : Byte) :
    Memory numReps :=
  let wmask := (0xff : Word) <<< (addr.toNat % 4 * 8)
  let wdata : Word := 0x01010101 * data.setWidth 32
  m.write4b id addr ((m.read4b id addr &&& ~~~wmask) ||| (wdata &&& wmask))

/-- Write the bytes of a word selected by a mask for a core. -/
def writeMask (m : Memory numReps) (id : CoreId numReps) (addr data mask : Word) :
    Memory numReps :=
  let wmask := expandWmask mask
  m.write4b id addr ((m.read4b id addr &&& ~~~wmask) ||| (data &&& wmask))

/-- The public read: always from the primary core's memory, word by word when the address and
the size are multiples of four. A negative size reads nothing. -/
def read (m : Memory numReps) (addr : Word) (size : ℤ) : List Byte :=
  if addr.toNat % 4 = 0 ∧ size % 4 = 0 then
    (List.range (size / 4).toNat).flatMap fun i =>
      wordBytes (m.read4b .primary (addr + BitVec.ofNat 32 (i * 4)))
  else
    (List.range size.toNat).map fun i => m.read1b .primary (addr + BitVec.ofNat 32 i)

/-- The word loop of the public write. -/
def writeWords (m : Memory numReps) (addr : Word) : List Byte → Memory numReps
  | b0 :: b1 :: b2 :: b3 :: rest =>
    (m.write4b .all addr (bytesWord [b0, b1, b2, b3])).writeWords (addr + 4) rest
  | _ => m

/-- The byte loop of the public write. -/
def writeBytes (m : Memory numReps) (addr : Word) : List Byte → Memory numReps
  | b :: rest => (m.write1b .all addr b).writeBytes (addr + 1) rest
  | [] => m

/-- The public write, to all cores, word by word when the address and the size are multiples of
four. -/
def write (m : Memory numReps) (addr : Word) (data : List Byte) : Memory numReps :=
  if addr.toNat % 4 = 0 ∧ data.length % 4 = 0 then m.writeWords addr data
  else m.writeBytes addr data

/-- Copy the request of the primary core. -/
def drive (m : Memory numReps) (core : CoreMemoryIF) : Memory numReps :=
  { m with
    ifPrim :=
      { m.ifPrim with
        en := core.en
        dRe := core.dRe
        dWe := core.dWe
        iAddr := core.iAddr
        dAddr := core.dAddr
        dWdata := core.dWdata
        dWmask := core.dWmask } }

/-- Carry out the request of the primary core and return the words read to it. -/
def update (m : Memory numReps) (core : CoreMemoryIF) : Memory numReps × CoreMemoryIF :=
  if m.ifPrim.en = 0 then (m, core)
  else
    let m := { m with ifPrim := { m.ifPrim with iRdata := m.read4b .primary m.ifPrim.iAddr } }
    let m :=
      if m.ifPrim.dRe ≠ 0 then
        { m with ifPrim := { m.ifPrim with dRdata := m.read4b .primary m.ifPrim.dAddr } }
      else if m.ifPrim.dWe ≠ 0 then
        m.writeMask .primary m.ifPrim.dAddr m.ifPrim.dWdata m.ifPrim.dWmask
      else m
    (m, { core with iRdata := m.ifPrim.iRdata, dRdata := m.ifPrim.dRdata })

/-- Copy the requests of the replicas. -/
def driveReplica (m : Memory numReps) (cores : Fin numReps → CoreMemoryIF) : Memory numReps :=
  { m with
    ifReps := fun i =>
      { m.ifReps i with
        en := (cores i).en
        dRe := (cores i).dRe
        dWe := (cores i).dWe
        iAddr := (cores i).iAddr
        dAddr := (cores i).dAddr
        dWdata := (cores i).dWdata
        dWmask := (cores i).dWmask } }

/-- Replace the request of one replica. -/
def setIfRep (m : Memory numReps) (i : Fin numReps) (memif : CoreMemoryIF) : Memory numReps :=
  { m with ifReps := Function.update m.ifReps i memif }

/-- Carry out the request of one replica: the body of the loop of `updateReplica`. -/
def updateOne (s : Memory numReps × (Fin numReps → CoreMemoryIF)) (i : Fin numReps) :
    Memory numReps × (Fin numReps → CoreMemoryIF) :=
  let m := s.1
  if (m.ifReps i).en = 0 then s
  else
    let m := m.setIfRep i { m.ifReps i with iRdata := m.read4b (.replica i) (m.ifReps i).iAddr }
    let m :=
      if (m.ifReps i).dRe ≠ 0 then
        m.setIfRep i { m.ifReps i with dRdata := m.read4b (.replica i) (m.ifReps i).dAddr }
      else if (m.ifReps i).dWe ≠ 0 then
        m.writeMask (.replica i) (m.ifReps i).dAddr (m.ifReps i).dWdata (m.ifReps i).dWmask
      else m
    (m, Function.update s.2 i
      { s.2 i with iRdata := (m.ifReps i).iRdata, dRdata := (m.ifReps i).dRdata })

/-- The body of the loop of `cleanupWb`, at an entry of the primary's buffer: if every replica
has buffered the word, the primary's value goes to the array, the replicas that agree drop their
entry, and the primary drops its own. -/
def cleanupEntry (m : Memory numReps) (wordAddr : Word) : Memory numReps :=
  match m.wbPrim[wordAddr]? with
  | none => m
  | some data =>
    if ∀ i, (m.wbReps i).contains wordAddr then
      { m with
        mem := Function.update m.mem wordAddr data
        wbReps := fun i =>
          if (m.wbReps i)[wordAddr]? = some data then (m.wbReps i).erase wordAddr else m.wbReps i
        wbPrim := m.wbPrim.erase wordAddr }
    else m

/-- Clean up the write buffers: write the words present in all buffers to the array. -/
def cleanupWb (m : Memory numReps) : Memory numReps :=
  if numReps = 0 then m else m.wbPrim.keys.foldl cleanupEntry m

/-- Carry out the requests of the replicas, clean up the write buffers and return the words
read. -/
def updateReplica (m : Memory numReps) (cores : Fin numReps → CoreMemoryIF) :
    Memory numReps × (Fin numReps → CoreMemoryIF) :=
  let s := (List.finRange numReps).foldl updateOne (m, cores)
  (s.1.cleanupWb, s.2)

end Memory

end VeriCross
