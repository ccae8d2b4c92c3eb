import VeriCross.Memory.Views

/-!
# Accesses as operations on one core's view

A view is a word map. Requests on the memory interface and public reads and writes act on it
through the word index of an address, the byte lanes of a word and nothing else. The public
write reads the words it modifies through the primary, so it acts on a core's view alone
exactly when that core sees what the primary sees.
-/

namespace VeriCross

/-- The words one core sees, by word address. -/
abbrev WordMap := Word → Word

namespace WordMap

/-- The word address of a byte address in a memory of `nw` words. -/
def index (nw addr : Word) : Word := (addr >>> 2) &&& (nw - 1)

/-- Byte addresses in one word have its word address. -/
theorem index_congr (nw : Word) {addr addr' : Word} (h : addr.toNat / 4 = addr'.toNat / 4) :
    index nw addr = index nw addr' := by
  have hshift : addr >>> 2 = addr' >>> 2 := by
    apply BitVec.eq_of_toNat_eq
    rw [BitVec.toNat_ushiftRight, BitVec.toNat_ushiftRight, Nat.shiftRight_eq_div_pow,
      Nat.shiftRight_eq_div_pow]
    exact h
  rw [index, index, hshift]

/-- Replace the bytes of a word selected by a mask. -/
def mergeMask (old data mask : Word) : Word :=
  (old &&& ~~~expandWmask mask) ||| (data &&& expandWmask mask)

/-- Replace the byte of a word at an address. -/
def mergeByte (old addr : Word) (data : Byte) : Word :=
  let wmask := (0xff : Word) <<< (addr.toNat % 4 * 8)
  (old &&& ~~~wmask) ||| ((0x01010101 * data.setWidth 32) &&& wmask)

/-- Store a word. -/
def putWord (nw : Word) (f : WordMap) (addr data : Word) : WordMap :=
  Function.update f (index nw addr) data

/-- Store a byte. -/
def putByte (nw : Word) (f : WordMap) (addr : Word) (data : Byte) : WordMap :=
  putWord nw f addr (mergeByte (f (index nw addr)) addr data)

/-- Store a sequence of words, given by their bytes. -/
def putWords (nw : Word) (f : WordMap) (addr : Word) : List Byte → WordMap
  | b0 :: b1 :: b2 :: b3 :: rest =>
    putWords nw (putWord nw f addr (bytesWord [b0, b1, b2, b3])) (addr + 4) rest
  | _ => f

/-- Store a sequence of bytes. -/
def putBytes (nw : Word) (f : WordMap) (addr : Word) : List Byte → WordMap
  | b :: rest => putBytes nw (putByte nw f addr b) (addr + 1) rest
  | [] => f

/-- Store data of any length at any address. -/
def put (nw : Word) (f : WordMap) (addr : Word) (data : List Byte) : WordMap :=
  if addr.toNat % 4 = 0 ∧ data.length % 4 = 0 then putWords nw f addr data
  else putBytes nw f addr data

/-- The byte at an address. -/
def getByte (nw : Word) (f : WordMap) (addr : Word) : Byte :=
  (f (index nw addr) >>> (addr.toNat % 4 * 8)).setWidth 8

/-- Fetch data of any length from any address. -/
def get (nw : Word) (f : WordMap) (addr : Word) (size : ℤ) : List Byte :=
  if addr.toNat % 4 = 0 ∧ size % 4 = 0 then
    (List.range (size / 4).toNat).flatMap fun i =>
      wordBytes (f (index nw (addr + BitVec.ofNat 32 (i * 4))))
  else
    (List.range size.toNat).map fun i => getByte nw f (addr + BitVec.ofNat 32 i)

/-- The effect of a request on the memory interface: a masked store when enabled and not a
read. -/
def request (nw : Word) (req : CoreMemoryIF) (f : WordMap) : WordMap :=
  if req.en ≠ 0 ∧ req.dRe = 0 ∧ req.dWe ≠ 0 then
    putWord nw f req.dAddr (mergeMask (f (index nw req.dAddr)) req.dWdata req.dWmask)
  else f

end WordMap

namespace Memory

open WordMap

variable {numReps : ℕ}

/-! The number of words never changes. -/

/-- A word store keeps the number of words. -/
@[simp] theorem nwords_write4b (m : Memory numReps) (id : CoreId numReps) (addr data : Word) :
    (m.write4b id addr data).nwords = m.nwords := by
  unfold write4b
  split
  · rfl
  · cases id <;> rfl

/-- A byte store keeps the number of words. -/
@[simp] theorem nwords_write1b (m : Memory numReps) (id : CoreId numReps) (addr : Word)
    (data : Byte) : (m.write1b id addr data).nwords = m.nwords :=
  nwords_write4b ..

/-- A masked store keeps the number of words. -/
@[simp] theorem nwords_writeMask (m : Memory numReps) (id : CoreId numReps)
    (addr data mask : Word) : (m.writeMask id addr data mask).nwords = m.nwords :=
  nwords_write4b ..

/-- Storing bytes word by word keeps the number of words. -/
@[simp] theorem nwords_writeWords (m : Memory numReps) (addr : Word) (data : List Byte) :
    (m.writeWords addr data).nwords = m.nwords := by
  fun_induction writeWords m addr data with
  | case1 m addr b0 b1 b2 b3 rest ih => rw [ih, nwords_write4b]
  | case2 => rfl

/-- Storing bytes one by one keeps the number of words. -/
@[simp] theorem nwords_writeBytes (m : Memory numReps) (addr : Word) (data : List Byte) :
    (m.writeBytes addr data).nwords = m.nwords := by
  fun_induction writeBytes m addr data with
  | case1 m addr b rest ih => rw [ih, nwords_write1b]
  | case2 => rfl

/-- A public write keeps the number of words. -/
@[simp] theorem nwords_write (m : Memory numReps) (addr : Word) (data : List Byte) :
    (m.write addr data).nwords = m.nwords := by
  rw [write]
  split
  · exact nwords_writeWords ..
  · exact nwords_writeBytes ..

/-- Copying the primary's request keeps the number of words. -/
@[simp] theorem nwords_drive (m : Memory numReps) (core : CoreMemoryIF) :
    (m.drive core).nwords = m.nwords := rfl

/-- Copying the replicas' requests keeps the number of words. -/
@[simp] theorem nwords_driveReplica (m : Memory numReps) (cores : Fin numReps → CoreMemoryIF) :
    (m.driveReplica cores).nwords = m.nwords := rfl

/-- Replacing a replica's request keeps the number of words. -/
@[simp] theorem nwords_setIfRep (m : Memory numReps) (i : Fin numReps) (memif : CoreMemoryIF) :
    (m.setIfRep i memif).nwords = m.nwords := rfl

/-- `update` only records what was read, unless the request is a store, which it carries out. -/
theorem update_cases (m : Memory numReps) (core : CoreMemoryIF) :
    (¬(m.ifPrim.en ≠ 0 ∧ m.ifPrim.dRe = 0 ∧ m.ifPrim.dWe ≠ 0) ∧
        ∃ req, (m.update core).1 = { m with ifPrim := req }) ∨
      (m.ifPrim.en ≠ 0 ∧ m.ifPrim.dRe = 0 ∧ m.ifPrim.dWe ≠ 0) ∧
        ∃ req, (m.update core).1 = ({ m with ifPrim := req } : Memory numReps).writeMask .primary
          m.ifPrim.dAddr m.ifPrim.dWdata m.ifPrim.dWmask := by
  rw [update]
  by_cases hen : m.ifPrim.en = 0
  · exact .inl ⟨fun h => h.1 hen, m.ifPrim, congrArg Prod.fst (if_pos hen)⟩
  · rw [if_neg hen]
    dsimp only
    by_cases hre : m.ifPrim.dRe = 0
    · rw [if_neg (not_not.mpr hre)]
      by_cases hwe : m.ifPrim.dWe = 0
      · rw [if_neg (not_not.mpr hwe)]
        exact .inl ⟨fun h => h.2.2 hwe, _, rfl⟩
      · rw [if_pos hwe]
        exact .inr ⟨⟨hen, hre, hwe⟩, _, rfl⟩
    · rw [if_pos hre]
      exact .inl ⟨fun h => hre h.2.1, _, rfl⟩

/-- Putting back the request of a replica changes nothing. -/
theorem setIfRep_self (m : Memory numReps) (i : Fin numReps) :
    m.setIfRep i (m.ifReps i) = m := by
  rw [setIfRep, Function.update_eq_self]

/-- One step of the replica loop does the same with the request of that replica. -/
theorem updateOne_cases (s : Memory numReps × (Fin numReps → CoreMemoryIF)) (i : Fin numReps) :
    (¬((s.1.ifReps i).en ≠ 0 ∧ (s.1.ifReps i).dRe = 0 ∧ (s.1.ifReps i).dWe ≠ 0) ∧
        ∃ req, (updateOne s i).1 = s.1.setIfRep i req) ∨
      ((s.1.ifReps i).en ≠ 0 ∧ (s.1.ifReps i).dRe = 0 ∧ (s.1.ifReps i).dWe ≠ 0) ∧
        ∃ req, (updateOne s i).1 = (s.1.setIfRep i req).writeMask (.replica i)
          (s.1.ifReps i).dAddr (s.1.ifReps i).dWdata (s.1.ifReps i).dWmask := by
  rw [updateOne]
  by_cases hen : (s.1.ifReps i).en = 0
  · refine .inl ⟨fun h => h.1 hen, s.1.ifReps i, ?_⟩
    rw [if_pos hen, setIfRep_self]
  · rw [if_neg hen]
    simp only [setIfRep, Function.update_self, Function.update_idem]
    by_cases hre : (s.1.ifReps i).dRe = 0
    · rw [if_neg (not_not.mpr hre)]
      by_cases hwe : (s.1.ifReps i).dWe = 0
      · rw [if_neg (not_not.mpr hwe)]
        exact .inl ⟨fun h => h.2.2 hwe, _, rfl⟩
      · rw [if_pos hwe]
        exact .inr ⟨⟨hen, hre, hwe⟩, _, rfl⟩
    · rw [if_pos hre]
      exact .inl ⟨fun h => hre h.2.1, _, rfl⟩

/-- Carrying out the primary's request keeps the number of words. -/
@[simp] theorem nwords_update (m : Memory numReps) (core : CoreMemoryIF) :
    (m.update core).1.nwords = m.nwords := by
  obtain ⟨-, req, hm⟩ | ⟨-, req, hm⟩ := m.update_cases core
  · rw [hm]
  · rw [hm, nwords_writeMask]

/-- Carrying out a replica's request keeps the number of words. -/
@[simp] theorem nwords_updateOne (s : Memory numReps × (Fin numReps → CoreMemoryIF))
    (i : Fin numReps) : (updateOne s i).1.nwords = s.1.nwords := by
  obtain ⟨-, req, hm⟩ | ⟨-, req, hm⟩ := updateOne_cases s i
  · rw [hm, nwords_setIfRep]
  · rw [hm, nwords_writeMask, nwords_setIfRep]

/-- Cleaning up an entry keeps the number of words. -/
@[simp] theorem nwords_cleanupEntry (m : Memory numReps) (k : Word) :
    (m.cleanupEntry k).nwords = m.nwords := by
  rw [cleanupEntry]
  split
  · rfl
  · split <;> rfl

/-- Cleaning up the write buffers keeps the number of words. -/
@[simp] theorem nwords_cleanupWb (m : Memory numReps) : m.cleanupWb.nwords = m.nwords := by
  rw [cleanupWb]
  split
  · rfl
  · generalize m.wbPrim.keys = keys
    induction keys generalizing m with
    | nil => rfl
    | cons k keys ih => rw [List.foldl_cons, ih, nwords_cleanupEntry]

/-- Carrying out the replicas' requests keeps the number of words. -/
@[simp] theorem nwords_updateReplica (m : Memory numReps) (cores : Fin numReps → CoreMemoryIF) :
    (m.updateReplica cores).1.nwords = m.nwords := by
  rw [updateReplica]
  dsimp only
  rw [nwords_cleanupWb]
  generalize List.finRange numReps = indices
  suffices h : ∀ s : Memory numReps × (Fin numReps → CoreMemoryIF),
      (indices.foldl updateOne s).1.nwords = s.1.nwords from h (m, cores)
  intro s
  induction indices generalizing s with
  | nil => rfl
  | cons i indices ih => rw [List.foldl_cons, ih, nwords_updateOne]

/-! Requests on the interface. -/

/-- Copying the primary's request changes nothing that a core sees. -/
@[simp] theorem view_drive (m : Memory numReps) (core : CoreMemoryIF) :
    (m.drive core).view = m.view := rfl

/-- Copying the replicas' requests changes nothing that a core sees. -/
@[simp] theorem view_driveReplica (m : Memory numReps) (cores : Fin numReps → CoreMemoryIF) :
    (m.driveReplica cores).view = m.view := rfl

/-- Replacing a replica's request changes nothing that a core sees. -/
@[simp] theorem view_setIfRep (m : Memory numReps) (i : Fin numReps) (memif : CoreMemoryIF) :
    (m.setIfRep i memif).view = m.view := rfl

/-- A masked store of one core updates its own view and no other. -/
theorem view_writeMask_agent (m : Memory numReps) (a : Agent numReps) (addr data mask : Word) :
    (m.writeMask a.id addr data mask).view =
      Function.update m.view a (putWord m.nwords (m.view a) addr
        (mergeMask (m.view a (index m.nwords addr)) data mask)) := by
  unfold writeMask
  dsimp only
  rw [view_write4b_agent, read4b_eq_view, Agent.agent_id]
  rfl

/-- `update` applies the copied request to the primary's view. -/
theorem view_update (m : Memory numReps) (core : CoreMemoryIF) :
    (m.update core).1.view =
      Function.update m.view none (request m.nwords m.ifPrim (m.view none)) := by
  rw [request]
  obtain ⟨hno, req, hm⟩ | ⟨hstore, req, hm⟩ := m.update_cases core
  · rw [hm, if_neg hno, Function.update_eq_self]
    rfl
  · rw [hm, if_pos hstore]
    exact view_writeMask_agent _ none ..

/-- One step of the replica loop applies the copied request to that replica's view. -/
theorem view_updateOne (s : Memory numReps × (Fin numReps → CoreMemoryIF)) (i : Fin numReps) :
    (updateOne s i).1.view = Function.update s.1.view (some i)
      (request s.1.nwords (s.1.ifReps i) (s.1.view (some i))) := by
  rw [request]
  obtain ⟨hno, req, hm⟩ | ⟨hstore, req, hm⟩ := updateOne_cases s i
  · rw [hm, if_neg hno, Function.update_eq_self, view_setIfRep]
  · rw [hm, if_pos hstore]
    exact view_writeMask_agent _ (some i) ..

/-- One step of the replica loop keeps the requests of the other replicas. -/
theorem ifReps_updateOne (s : Memory numReps × (Fin numReps → CoreMemoryIF)) {i j : Fin numReps}
    (hj : j ≠ i) : (updateOne s i).1.ifReps j = s.1.ifReps j := by
  have hmask : ∀ (m : Memory numReps) id addr data mask,
      (m.writeMask id addr data mask).ifReps = m.ifReps := by
    intro m id addr data mask
    unfold writeMask write4b
    dsimp only
    split
    · rfl
    · cases id <;> rfl
  obtain ⟨-, req, hm⟩ | ⟨-, req, hm⟩ := updateOne_cases s i
  · rw [hm]
    exact Function.update_of_ne hj ..
  · rw [hm, hmask]
    exact Function.update_of_ne hj ..

/-- The replica loop over distinct replicas applies each copied request once. -/
theorem view_foldl_updateOne (indices : List (Fin numReps)) (hnodup : indices.Nodup)
    (s : Memory numReps × (Fin numReps → CoreMemoryIF)) (a : Agent numReps) :
    (indices.foldl updateOne s).1.view a =
      match a with
      | none => s.1.view none
      | some i =>
        if i ∈ indices then request s.1.nwords (s.1.ifReps i) (s.1.view (some i))
        else s.1.view (some i) := by
  induction indices generalizing s with
  | nil => cases a <;> rfl
  | cons k indices ih =>
    obtain ⟨hk, hnodup⟩ := List.nodup_cons.mp hnodup
    rw [List.foldl_cons, ih hnodup, nwords_updateOne, view_updateOne]
    cases a with
    | none => simp
    | some i =>
      by_cases hi : i = k
      · subst hi
        simp [hk]
      · simp [hi, ifReps_updateOne s hi]

/-- `updateReplica` applies each replica's copied request to that replica's view and leaves the
primary's view alone. -/
theorem view_updateReplica (m : Memory numReps) (cores : Fin numReps → CoreMemoryIF)
    (a : Agent numReps) :
    (m.updateReplica cores).1.view a =
      match a with
      | none => m.view none
      | some i => request m.nwords (m.ifReps i) (m.view (some i)) := by
  rw [updateReplica]
  dsimp only
  rw [view_cleanupWb, view_foldl_updateOne _ (List.nodup_finRange numReps)]
  cases a with
  | none => rfl
  | some i => simp

/-! Public reads and writes. -/

/-- A word store for all cores stores the word in each view. -/
theorem view_write4b_all_eq_putWord (m : Memory numReps) (addr data : Word)
    (a : Agent numReps) :
    (m.write4b .all addr data).view a = putWord m.nwords (m.view a) addr data := by
  rw [view_write4b_all]
  rfl

/-- A byte store for all cores stores in each view the word that the primary sees, with the byte
replaced. -/
theorem view_write1b_all (m : Memory numReps) (addr : Word) (data : Byte) (a : Agent numReps) :
    (m.write1b .all addr data).view a =
      putWord m.nwords (m.view a) addr
        (mergeByte (m.view none (index m.nwords addr)) addr data) := by
  unfold write1b
  dsimp only
  rw [view_write4b_all_eq_putWord, read4b_eq_view]
  rfl

/-- The word loop of a public write stores the words in each view. -/
theorem view_writeWords (m : Memory numReps) (addr : Word) (data : List Byte)
    (a : Agent numReps) :
    (m.writeWords addr data).view a = putWords m.nwords (m.view a) addr data := by
  fun_induction writeWords m addr data with
  | case1 m addr b0 b1 b2 b3 rest ih =>
    rw [ih, nwords_write4b, view_write4b_all_eq_putWord, putWords]
  | case2 m addr data hdata =>
    rw [putWords]
    exact hdata

/-- The byte loop of a public write stores the bytes in the view of a core that sees what the
primary sees. -/
theorem view_writeBytes (m : Memory numReps) (addr : Word) (data : List Byte)
    (a : Agent numReps) (ha : m.view a = m.view none) :
    (m.writeBytes addr data).view a = putBytes m.nwords (m.view a) addr data := by
  fun_induction writeBytes m addr data with
  | case1 m addr b rest ih =>
    have hnext : (m.write1b .all addr b).view a = putByte m.nwords (m.view a) addr b := by
      rw [view_write1b_all, ← ha]
      rfl
    have hagree : (m.write1b .all addr b).view a = (m.write1b .all addr b).view none := by
      rw [view_write1b_all, view_write1b_all, ha]
    rw [ih hagree, nwords_write1b, hnext, putBytes]
  | case2 => rfl

/-- A public write stores the data in the view of a core that sees what the primary sees. -/
theorem view_write (m : Memory numReps) (addr : Word) (data : List Byte) (a : Agent numReps)
    (ha : m.view a = m.view none) :
    (m.write addr data).view a = put m.nwords (m.view a) addr data := by
  rw [write, put]
  split
  · exact view_writeWords ..
  · exact view_writeBytes _ _ _ _ ha

/-- A public read fetches the data from the primary's view. -/
theorem read_eq_get (m : Memory numReps) (addr : Word) (size : ℤ) :
    m.read addr size = WordMap.get m.nwords (m.view none) addr size := by
  rw [read, WordMap.get]
  simp only [read1b_eq_view, read4b_eq_view]
  rfl

/-- Memories in which the primary sees the same words are read alike. -/
theorem read_congr {numReps' : ℕ} {m : Memory numReps} {m' : Memory numReps'}
    (hview : m.view none = m'.view none) (hnwords : m.nwords = m'.nwords) : m.read = m'.read := by
  funext addr size
  rw [read_eq_get, read_eq_get, hview, hnwords]

end Memory

end VeriCross
