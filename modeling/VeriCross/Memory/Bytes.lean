import VeriCross.Memory.Refinement

/-!
# The memory as an array of bytes

The words that a core sees are the words of a little-endian byte array. Public reads and writes
are loops over words or over bytes, with a read-modify-write of each word in the second case; on
the array both are loops over bytes, at any alignment and length and around the end of the
address space.
-/

namespace VeriCross

open WordMap PrivateMemory

variable {numReps : ℕ} {k : ℕ} {nw : Word}

/-! One byte. -/

/-- A byte number is a word number and a lane. -/
theorem byteCell_eq (k : ℕ) (addr : Word) : byteCell k addr = 4 * cell k addr + addr.toNat % 4 := by
  rw [byteCell, Nat.mod_mul, cell, Nat.add_comm]

/-- The word number of a byte number. -/
theorem byteCell_div (k : ℕ) (addr : Word) : byteCell k addr / 4 = cell k addr := by
  rw [byteCell_eq]
  omega

/-- A byte of a word is a field of it. -/
theorem WordMap.getByte_eq (f : WordMap) (addr : Word) :
    getByte nw f addr = (f (index nw addr)).extractLsb' (8 * (addr.toNat % 4)) 8 := by
  rw [getByte, Nat.mul_comm]
  apply BitVec.eq_of_getLsbD_eq
  intro j hj
  simp [hj]

/-- The bytes of the words are the bytes of the array. -/
theorem PrivateMemory.Agree.getByte {f : WordMap} {bytes : ℕ → Byte} (h : Agree k nw f bytes)
    (addr : Word) : getByte nw f addr = bytes (byteCell k addr) := by
  rw [WordMap.getByte_eq, h addr, extractLsb'_word _ _ (Nat.mod_lt _ (by decide)), byteCell_eq]

/-- A byte merge replaces the byte at the lane of the address. -/
theorem WordMap.extractLsb'_mergeByte (old addr : Word) (data : Byte) {i : ℕ} (hi : i < 4) :
    (mergeByte old addr data).extractLsb' (8 * i) 8 =
      if i = addr.toNat % 4 then data else old.extractLsb' (8 * i) 8 := by
  have hlane : addr.toNat % 4 < 4 := Nat.mod_lt _ (by decide)
  have hmask : ∀ lane < 4, ∀ i < 4, ∀ j < 8,
      ((0xff : Word) <<< (lane * 8)).getLsbD (8 * i + j) = decide (i = lane) := by decide
  have hcopies : ∀ b : Byte, (0x01010101 : Word) * b.setWidth 32 = b ++ b ++ b ++ b := by
    decide +kernel
  apply BitVec.eq_of_getLsbD_eq
  intro j hj
  rw [mergeByte, hcopies, apply_ite (BitVec.getLsbD · j)]
  simp only [BitVec.getLsbD_extractLsb', BitVec.getLsbD_or, BitVec.getLsbD_and,
    BitVec.getLsbD_not, hmask _ hlane _ hi _ hj, hj, decide_true, Bool.true_and,
    show 8 * i + j < 32 by omega]
  by_cases hlanes : i = addr.toNat % 4
  · have hcopy : (data ++ data ++ data ++ data).getLsbD (8 * i + j) = data.getLsbD j := by
      simp only [BitVec.getLsbD_append]
      match i, hi with
      | 0, _ | 1, _ | 2, _ | 3, _ => grind
    rw [if_pos hlanes, decide_eq_true hlanes, hcopy]
    simp
  · rw [if_neg hlanes, decide_eq_false hlanes]
    simp

/-- A stored byte agrees with the array with this byte replaced. -/
theorem PrivateMemory.Agree.storeByte (hnw : nw.toNat = 2 ^ k) {f : WordMap} {bytes : ℕ → Byte}
    (h : Agree k nw f bytes) (addr : Word) (b : Byte) :
    Agree k nw (putByte nw f addr b) (Function.update bytes (byteCell k addr) b) := by
  intro addr'
  apply word_ext
  intro i hi
  have hlane : addr.toNat % 4 < 4 := Nat.mod_lt _ (by decide)
  rw [extractLsb'_word _ _ hi, putByte, putWord, Function.update_apply, Function.update_apply,
    byteCell_eq]
  simp only [index_eq_iff hnw]
  by_cases hcell : cell k addr' = cell k addr
  · rw [if_pos hcell, extractLsb'_mergeByte _ _ _ hi, hcell]
    by_cases hi' : i = addr.toNat % 4
    · rw [if_pos hi', if_pos (by rw [hi'])]
    · rw [if_neg hi', if_neg (by omega), h addr, extractLsb'_word _ _ hi]
  · rw [if_neg hcell, if_neg (by omega), h addr', extractLsb'_word _ _ hi]

/-! Sequences of bytes. -/

/-- Stored bytes agree with the array with these bytes replaced in order. -/
theorem PrivateMemory.Agree.storeBytes (hnw : nw.toNat = 2 ^ k) {f : WordMap} {bytes : ℕ → Byte}
    (h : Agree k nw f bytes) (addr : Word) (data : List Byte) :
    Agree k nw (putBytes nw f addr data) (PrivateMemory.storeBytes k bytes addr data) := by
  fun_induction putBytes nw f addr data generalizing bytes with
  | case1 f addr b rest ih => exact ih (h.storeByte hnw addr b)
  | case2 => exact h

/-- A public write of any length at any address replaces its bytes in order. -/
theorem PrivateMemory.Agree.put (hnw : nw.toNat = 2 ^ k) {f : WordMap} {bytes : ℕ → Byte}
    (h : Agree k nw f bytes) (addr : Word) (data : List Byte) :
    Agree k nw (put nw f addr data) (PrivateMemory.storeBytes k bytes addr data) := by
  rw [WordMap.put]
  split
  · next haligned => exact h.storeWords hnw haligned.1 haligned.2
  · exact h.storeBytes hnw addr data

/-- The four bytes of the word at an aligned address. -/
theorem WordMap.wordBytes_eq (f : WordMap) {addr : Word} (haddr : addr.toNat % 4 = 0) :
    wordBytes (f (index nw addr)) =
      [getByte nw f addr, getByte nw f (addr + 1), getByte nw f (addr + 2),
        getByte nw f (addr + 3)] := by
  have hlane : ∀ d : Word, d.toNat < 4 →
      index nw (addr + d) = index nw addr ∧ (addr + d).toNat % 4 = d.toNat := by
    intro d hd
    have hsum : (addr + d).toNat = addr.toNat + d.toNat := by bv_omega
    refine ⟨?_, by omega⟩
    have hshift : (addr + d) >>> 2 = addr >>> 2 := by bv_omega
    rw [index, index, hshift]
  obtain ⟨h1, h1'⟩ := hlane 1 (by decide)
  obtain ⟨h2, h2'⟩ := hlane 2 (by decide)
  obtain ⟨h3, h3'⟩ := hlane 3 (by decide)
  simp only [getByte_eq, h1, h1', h2, h2', h3, h3', haddr]
  rfl

/-- A public read of any length at any address fetches its bytes one by one. -/
theorem WordMap.get_eq_map (f : WordMap) (addr : Word) (size : ℤ) :
    get nw f addr size =
      (List.range size.toNat).map fun i => getByte nw f (addr + BitVec.ofNat 32 i) := by
  rw [get]
  split
  · next haligned =>
    obtain ⟨haddr, hsize⟩ := haligned
    have hcount : size.toNat = 4 * (size / 4).toNat := by omega
    rw [hcount]
    generalize (size / 4).toNat = count
    -- the induction is on the number of words: each adds its four bytes at the end
    induction count with
    | zero => rfl
    | succ count ih =>
      have hword : (addr + BitVec.ofNat 32 (count * 4)).toNat % 4 = 0 := by bv_omega
      have hnext : ∀ d, addr + BitVec.ofNat 32 (4 * count + d) =
          addr + BitVec.ofNat 32 (count * 4) + BitVec.ofNat 32 d := by
        intro d
        bv_omega
      rw [List.range_succ, List.flatMap_append, ih, Nat.mul_succ, List.range_add, List.map_append,
        List.flatMap_singleton, wordBytes_eq f hword, List.map_map]
      congr 1
      have hzero : addr + BitVec.ofNat 32 (4 * count) = addr + BitVec.ofNat 32 (count * 4) := by
        rw [Nat.mul_comm]
      simp [List.range_succ, hnext, hzero]
  · rfl

/-- A public read of any length at any address looks its bytes up in the array that agrees with
the primary. -/
theorem Memory.read_of_agree {m : Memory numReps} {bytes : ℕ → Byte}
    (h : Agree k m.nwords (m.view none) bytes) (addr : Word) (size : ℤ) :
    m.read addr size =
      (List.range size.toNat).map fun i => bytes (byteCell k (addr + BitVec.ofNat 32 i)) := by
  rw [read_eq_get, get_eq_map]
  simp only [h.getByte]

/-! The byte array of a core. -/

/-- The byte with a given number, as a core sees it. -/
def Memory.bytes (m : Memory numReps) (a : Agent numReps) (j : ℕ) : Byte :=
  m.read1b a.id (BitVec.ofNat 32 j)

/-- A byte read returns a byte of what the core sees. -/
theorem Memory.read1b_eq_getByte (m : Memory numReps) (a : Agent numReps) (addr : Word) :
    m.read1b a.id addr = WordMap.getByte m.nwords (m.view a) addr := by
  rw [read1b_eq_view, Agent.agent_id]
  rfl

/-- A byte read of the primary returns a byte of what the primary sees. -/
theorem Memory.read1b_primary (m : Memory numReps) (addr : Word) :
    m.read1b .primary addr = WordMap.getByte m.nwords (m.view none) addr :=
  m.read1b_eq_getByte none addr

/-- Memories in which the primary sees the same words have the same bytes. -/
theorem Memory.read1b_congr {m m' : Memory numReps} (hview : m'.view none = m.view none)
    (hnwords : m'.nwords = m.nwords) (addr : Word) :
    m'.read1b .primary addr = m.read1b .primary addr := by
  rw [read1b_primary, read1b_primary, hview, hnwords]

/-- The words that a core sees are those of its byte array. -/
theorem Memory.agree_bytes (m : Memory numReps) (hnw : m.nwords.toNat = 2 ^ k)
    (a : Agent numReps) : Agree k m.nwords (m.view a) (m.bytes a) := by
  intro addr
  apply word_ext
  intro i hi
  have hlt := addr.isLt
  have hle : cell k addr ≤ addr.toNat / 4 := Nat.mod_le ..
  have hmod : cell k addr % 2 ^ k = cell k addr := Nat.mod_mod ..
  have hnum : (BitVec.ofNat 32 (4 * cell k addr + i)).toNat = 4 * cell k addr + i := by
    rw [BitVec.toNat_ofNat]
    omega
  have hcell : cell k (BitVec.ofNat 32 (4 * cell k addr + i)) = cell k addr := by
    rw [cell, hnum, show (4 * cell k addr + i) / 4 = cell k addr by omega, hmod]
  rw [extractLsb'_word _ _ hi, bytes, read1b_eq_getByte, getByte_eq,
    (index_eq_iff hnw ..).mpr hcell, hnum, show (4 * cell k addr + i) % 4 = i by omega]

/-- Reading a byte looks it up in the array of the core. -/
theorem Memory.read1b_eq_bytes (m : Memory numReps) (hnw : m.nwords.toNat = 2 ^ k)
    (a : Agent numReps) (addr : Word) : m.read1b a.id addr = m.bytes a (byteCell k addr) := by
  rw [read1b_eq_getByte, (m.agree_bytes hnw a).getByte]

/-- A public read of any length at any address reads its bytes one by one. -/
theorem Memory.read_eq_map (m : Memory numReps) (addr : Word) (size : ℤ) :
    m.read addr size =
      (List.range size.toNat).map fun i => m.read1b .primary (addr + BitVec.ofNat 32 i) := by
  rw [read_eq_get, get_eq_map]
  exact List.map_congr_left fun i _ => (m.read1b_primary _).symm

/-! Histories of accesses. -/

/-- An access to the memory, with public writes at any alignment and of any length. -/
inductive MemoryEvent (numReps : ℕ)
  | drive (core : CoreMemoryIF)
  | update (core : CoreMemoryIF)
  | driveReplica (cores : Fin numReps → CoreMemoryIF)
  | updateReplica (cores : Fin numReps → CoreMemoryIF)
  | cleanup
  | write (addr : Word) (data : List Byte)

/-- The memory after an access. -/
def Memory.after (m : Memory numReps) : MemoryEvent numReps → Memory numReps
  | .drive core => m.drive core
  | .update core => (m.update core).1
  | .driveReplica cores => m.driveReplica cores
  | .updateReplica cores => (m.updateReplica cores).1
  | .cleanup => m.cleanupWb
  | .write addr data => m.write addr data

/-- The reference array after an access: stores of the primary and public writes change it, byte
by byte. -/
def PrivateMemory.after (k : ℕ) (p : PrivateMemory) : MemoryEvent numReps → PrivateMemory
  | .drive core => { p with pending := core.store? }
  | .update _ => p.store k
  | .driveReplica _ => p
  | .updateReplica _ => p
  | .cleanup => p
  | .write addr data => { p with bytes := PrivateMemory.storeBytes k p.bytes addr data }

/-- The number of words never changes. -/
theorem Memory.nwords_after (m : Memory numReps) (e : MemoryEvent numReps) :
    (m.after e).nwords = m.nwords := by
  cases e with
  | drive | driveReplica => rfl
  | update => exact nwords_update ..
  | updateReplica => exact nwords_updateReplica ..
  | cleanup => exact nwords_cleanupWb ..
  | write => exact nwords_write ..

/-- The primary core and the reference array have the same pending store and the same bytes. -/
structure PrimaryRefines (k : ℕ) (m : Memory numReps) (p : PrivateMemory) : Prop where
  nwords : m.nwords.toNat = 2 ^ k
  pending : m.ifPrim.store? = p.pending
  agree : Agree k m.nwords (m.view none) p.bytes

/-- A memory is related to the bytes that the primary core sees. -/
theorem PrimaryRefines.start (m : Memory numReps) (hnw : m.nwords.toNat = 2 ^ k) :
    PrimaryRefines k m ⟨m.ifPrim.store?, m.bytes none⟩ :=
  ⟨hnw, rfl, m.agree_bytes hnw none⟩

/-- Every access keeps the primary core and the reference array related. -/
theorem PrimaryRefines.after {m : Memory numReps} {p : PrivateMemory} (h : PrimaryRefines k m p)
    (e : MemoryEvent numReps) : PrimaryRefines k (m.after e) (p.after k e) := by
  obtain ⟨hnw, hpending, hagree⟩ := h
  refine ⟨by rwa [Memory.nwords_after], ?_, ?_⟩
  · change ((m.after e).request none).store? = _
    cases e with
    | drive core => rfl
    | update core =>
      change ((m.update core).1.request none).store? = _
      rw [Memory.store?_request_update]
      exact hpending.trans (pending_store k p).symm
    | driveReplica cores => exact hpending
    | updateReplica cores =>
      change ((m.updateReplica cores).1.request none).store? = _
      rw [Memory.store?_request_updateReplica]
      exact hpending
    | cleanup =>
      change (m.cleanupWb.request none).store? = _
      rw [Memory.request_cleanupWb]
      exact hpending
    | write addr data =>
      change ((m.write addr data).request none).store? = _
      rw [Memory.request_write]
      exact hpending
  · rw [Memory.nwords_after]
    cases e with
    | drive | driveReplica => exact hagree
    | update core =>
      change Agree k m.nwords ((m.update core).1.view none) _
      rw [Memory.view_update, Function.update_self]
      exact agree_request hnw hpending hagree
    | updateReplica cores =>
      change Agree k m.nwords ((m.updateReplica cores).1.view none) _
      rw [Memory.view_updateReplica]
      exact hagree
    | cleanup =>
      change Agree k m.nwords (m.cleanupWb.view none) _
      rw [Memory.view_cleanupWb]
      exact hagree
    | write addr data =>
      change Agree k m.nwords ((m.write addr data).view none) _
      rw [Memory.view_write _ _ _ _ rfl]
      exact hagree.put hnw addr data

/-- The relation holds after any history of accesses. -/
theorem PrimaryRefines.run {m : Memory numReps} {p : PrivateMemory} (h : PrimaryRefines k m p)
    (events : List (MemoryEvent numReps)) :
    PrimaryRefines k (events.foldl Memory.after m) (events.foldl (PrivateMemory.after k) p) := by
  induction events generalizing m p with
  | nil => exact h
  | cons e events ih => exact ih (h.after e)

/-- From any memory, after any history of stores, clean-ups and public writes, a public read
returns the bytes of an array to which the stores and the writes were applied byte by byte. -/
theorem publicAccess_bytewise (m : Memory numReps) (hnw : m.nwords.toNat = 2 ^ k)
    (events : List (MemoryEvent numReps)) (addr : Word) (size : ℤ) :
    (events.foldl Memory.after m).read addr size =
      (List.range size.toNat).map fun i =>
        (events.foldl (PrivateMemory.after k) ⟨m.ifPrim.store?, m.bytes none⟩).bytes
          (byteCell k (addr + BitVec.ofNat 32 i)) :=
  Memory.read_of_agree ((PrimaryRefines.start m hnw).run events).agree addr size

/-- Three bytes are written across the end of the address space, and a word after them. An
unaligned read sees both. -/
theorem wrapped_bytewise :
    let idle : CoreMemoryIF := ⟨0, 0, 0, 0, 0, 0, 0, 0, 0⟩
    let m := Memory.new idle (fun _ : Fin 1 => idle) 4
    ([.write 0xfffffffe [1, 2, 3], .write 0 [4, 5, 6, 7]].foldl Memory.after m).read 0xfffffffd 6 =
      [0, 1, 2, 4, 5, 6] :=
  (publicAccess_bytewise (k := 2) _ (by decide) _ _ _).trans (by decide)

end VeriCross
