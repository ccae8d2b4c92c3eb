import VeriCross.Library.BitFields
import VeriCross.Memory.Access

/-!
# One private memory per core

The reference has no array and no buffers. Each core owns a byte memory and the store it last
asked for; a cycle of the core carries that store out, byte lane by byte lane, and a public
write puts its bytes into every memory. Any history of accesses leaves the buffered memory and
the private memories in agreement at every address.
-/

namespace VeriCross

/-- The store a request asks for: its address, data and byte mask. -/
def CoreMemoryIF.store? (req : CoreMemoryIF) : Option (Word × Word × Word) :=
  if req.en ≠ 0 ∧ req.dRe = 0 ∧ req.dWe ≠ 0 then some (req.dAddr, req.dWdata, req.dWmask)
  else none

/-- The number of the word at a byte address, in a memory of `2 ^ k` words. -/
def cell (k : ℕ) (addr : Word) : ℕ := addr.toNat / 4 % 2 ^ k

/-- The number of the byte at a byte address, in a memory of `2 ^ k` words. -/
def byteCell (k : ℕ) (addr : Word) : ℕ := addr.toNat % (4 * 2 ^ k)

/-- One core's own memory, byte by byte, and the store it last asked for. -/
structure PrivateMemory where
  pending : Option (Word × Word × Word)
  bytes : ℕ → Byte

namespace PrivateMemory

/-- The little-endian word with a given number. -/
def word (bytes : ℕ → Byte) (c : ℕ) : Word :=
  bytes (4 * c + 3) ++ bytes (4 * c + 2) ++ bytes (4 * c + 1) ++ bytes (4 * c)

/-- Store the lanes of a word that a mask selects. -/
def storeLanes (k : ℕ) (bytes : ℕ → Byte) (addr data mask : Word) : ℕ → Byte := fun j =>
  if j / 4 = cell k addr ∧ mask.getLsbD (j % 4) then data.extractLsb' (8 * (j % 4)) 8
  else bytes j

/-- Store consecutive bytes. -/
def storeBytes (k : ℕ) (bytes : ℕ → Byte) (addr : Word) : List Byte → ℕ → Byte
  | [] => bytes
  | b :: rest => storeBytes k (Function.update bytes (byteCell k addr) b) (addr + 1) rest

/-- Carry out the pending store. -/
def store (k : ℕ) (p : PrivateMemory) : PrivateMemory :=
  match p.pending with
  | none => p
  | some (addr, data, mask) => { p with bytes := storeLanes k p.bytes addr data mask }

end PrivateMemory

/-- An access to the memory. Public writes are of whole aligned words. -/
inductive MemoryOp (numReps : ℕ)
  | drive (core : CoreMemoryIF)
  | update (core : CoreMemoryIF)
  | driveReplica (cores : Fin numReps → CoreMemoryIF)
  | updateReplica (cores : Fin numReps → CoreMemoryIF)
  | write (addr : Word) (data : List Byte) (haddr : addr.toNat % 4 = 0)
      (hdata : data.length % 4 = 0)

variable {numReps : ℕ}

/-- The effect of an access on the memory. -/
def Memory.apply (m : Memory numReps) : MemoryOp numReps → Memory numReps
  | .drive core => m.drive core
  | .update core => (m.update core).1
  | .driveReplica cores => m.driveReplica cores
  | .updateReplica cores => (m.updateReplica cores).1
  | .write addr data _ _ => m.write addr data

/-- The effect of an access on the private memory of one core. -/
def PrivateMemory.apply (k : ℕ) (a : Agent numReps) (p : PrivateMemory) :
    MemoryOp numReps → PrivateMemory
  | .drive core =>
    match a with
    | none => { p with pending := core.store? }
    | some _ => p
  | .update _ =>
    match a with
    | none => p.store k
    | some _ => p
  | .driveReplica cores =>
    match a with
    | none => p
    | some i => { p with pending := (cores i).store? }
  | .updateReplica _ =>
    match a with
    | none => p
    | some _ => p.store k
  | .write addr data _ _ => { p with bytes := storeBytes k p.bytes addr data }

namespace PrivateMemory

/-! Words and their bytes. -/

/-- A word is determined by its four bytes. -/
theorem word_ext {v w : Word}
    (h : ∀ i < 4, v.extractLsb' (8 * i) 8 = w.extractLsb' (8 * i) 8) : v = w := by
  apply BitVec.eq_of_getLsbD_eq
  intro j hj
  have hbyte := congrArg (·.getLsbD (j % 8)) (h (j / 8) (by omega))
  simpa [BitVec.getLsbD_extractLsb', Nat.mod_lt, Nat.div_add_mod] using hbyte

/-- The bytes of a word of the memory. -/
theorem extractLsb'_word (bytes : ℕ → Byte) (c : ℕ) {i : ℕ} (hi : i < 4) :
    (word bytes c).extractLsb' (8 * i) 8 = bytes (4 * c + i) := by
  apply BitVec.eq_of_getLsbD_eq
  intro j hj
  rw [word]
  rw [BitVec.getLsbD_extractLsb']
  simp only [BitVec.getLsbD_append]
  match i, hi with
  | 0, _ | 1, _ | 2, _ | 3, _ => grind

/-- The expanded mask in terms of the four low bits of the mask. -/
theorem expandWmask_eq_bits (mask : Word) :
    expandWmask mask =
      (if mask.getLsbD 3 then 0xff000000 else 0) ||| (if mask.getLsbD 2 then 0x00ff0000 else 0) |||
        (if mask.getLsbD 1 then 0x0000ff00 else 0) |||
        (if mask.getLsbD 0 then 0x000000ff else 0) := by
  have h8 : mask &&& 8 ≠ 0 ↔ mask.getLsbD 3 = true := BitFields.and_twoPow_ne_zero mask 3
  have h4 : mask &&& 4 ≠ 0 ↔ mask.getLsbD 2 = true := BitFields.and_twoPow_ne_zero mask 2
  have h2 : mask &&& 2 ≠ 0 ↔ mask.getLsbD 1 = true := BitFields.and_twoPow_ne_zero mask 1
  have h1 : mask &&& 1 ≠ 0 ↔ mask.getLsbD 0 = true := BitFields.and_twoPow_ne_zero mask 0
  simp only [expandWmask, h8, h4, h2, h1]

/-- The expanded mask repeats each of the four low mask bits over a byte. -/
theorem getLsbD_expandWmask (mask : Word) {j : ℕ} (hj : j < 32) :
    (expandWmask mask).getLsbD j = mask.getLsbD (j / 8) := by
  have hbits : ∀ b3 b2 b1 b0 : Bool, ∀ j < 32,
      ((if b3 then 0xff000000 else 0) ||| (if b2 then 0x00ff0000 else 0) |||
        (if b1 then 0x0000ff00 else 0) ||| (if b0 then 0x000000ff else 0) : Word).getLsbD j =
      [b0, b1, b2, b3].getD (j / 8) false := by decide
  rw [expandWmask_eq_bits, hbits _ _ _ _ j hj]
  have hlane : j / 8 < 4 := by omega
  match j / 8, hlane with
  | 0, _ | 1, _ | 2, _ | 3, _ => rfl

/-- A masked merge selects each byte by its mask bit. -/
theorem extractLsb'_mergeMask (old data mask : Word) {i : ℕ} (hi : i < 4) :
    (WordMap.mergeMask old data mask).extractLsb' (8 * i) 8 =
      if mask.getLsbD i then data.extractLsb' (8 * i) 8 else old.extractLsb' (8 * i) 8 := by
  apply BitVec.eq_of_getLsbD_eq
  intro j hj
  have hdiv : (8 * i + j) / 8 = i := by omega
  rw [apply_ite (BitVec.getLsbD · j)]
  simp only [BitVec.getLsbD_extractLsb', WordMap.mergeMask, BitVec.getLsbD_or,
    BitVec.getLsbD_and, BitVec.getLsbD_not, getLsbD_expandWmask mask (show 8 * i + j < 32 by omega),
    hdiv]
  cases mask.getLsbD i <;> simp [hj, show 8 * i + j < 32 by omega]

/-- The bytes of a word assembled from four bytes. -/
theorem extractLsb'_bytesWord (b0 b1 b2 b3 : Byte) {i : ℕ} (hi : i < 4) :
    (bytesWord [b0, b1, b2, b3]).extractLsb' (8 * i) 8 = [b0, b1, b2, b3].getD i 0 := by
  apply BitVec.eq_of_getLsbD_eq
  intro j hj
  have hb : ∀ (b : Byte) (n : ℕ), 8 ≤ n → b.getLsbD n = false := fun b n hn =>
    BitVec.getLsbD_of_ge b n hn
  simp only [bytesWord, List.foldr_cons, List.foldr_nil, BitVec.getLsbD_extractLsb',
    BitVec.getLsbD_or, BitVec.getLsbD_shiftLeft, BitVec.getLsbD_setWidth]
  match i, hi with
  | 0, _ | 1, _ | 2, _ | 3, _ => grind

/-! Word indices and cell numbers. -/

/-- The masked word index of an address is its cell number. -/
theorem toNat_index {k : ℕ} {nw : Word} (hnw : nw.toNat = 2 ^ k) (addr : Word) :
    (WordMap.index nw addr).toNat = cell k addr := by
  have hpos : 0 < 2 ^ k := Nat.two_pow_pos k
  have hlt := nw.isLt
  have hsub : (nw - 1).toNat = 2 ^ k - 1 := by
    have hone : (1 : Word).toNat = 1 := rfl
    rw [BitVec.toNat_sub, hnw, hone]
    omega
  simp only [WordMap.index, BitVec.toNat_and, hsub, Nat.and_two_pow_sub_one_eq_mod,
    BitVec.toNat_ushiftRight, Nat.shiftRight_eq_div_pow, cell]

/-- Two addresses select one word exactly when their cell numbers are equal. -/
theorem index_eq_iff {k : ℕ} {nw : Word} (hnw : nw.toNat = 2 ^ k) (addr addr' : Word) :
    WordMap.index nw addr = WordMap.index nw addr' ↔ cell k addr = cell k addr' := by
  rw [← BitVec.toNat_inj, toNat_index hnw, toNat_index hnw]

/-- The bytes of an aligned word are consecutive. -/
theorem byteCell_add {k : ℕ} {addr d : Word} (haddr : addr.toNat % 4 = 0) (hd : d.toNat < 4) :
    byteCell k (addr + d) = 4 * cell k addr + d.toNat := by
  have hlt := addr.isLt
  have hadd : (addr + d).toNat = addr.toNat + d.toNat := by
    rw [BitVec.toNat_add]
    omega
  have hdiv : (addr.toNat + d.toNat) / 4 = addr.toNat / 4 := by omega
  rw [byteCell, hadd, Nat.mod_mul, hdiv, cell]
  omega

/-- Storing four bytes at an aligned address. -/
theorem storeBytes_four {k : ℕ} {addr : Word} (haddr : addr.toNat % 4 = 0) (bytes : ℕ → Byte)
    (b0 b1 b2 b3 : Byte) :
    storeBytes k bytes addr [b0, b1, b2, b3] =
      Function.update (Function.update (Function.update (Function.update bytes
        (4 * cell k addr) b0) (4 * cell k addr + 1) b1) (4 * cell k addr + 2) b2)
        (4 * cell k addr + 3) b3 := by
  have h0 : byteCell k addr = 4 * cell k addr := by
    simpa using byteCell_add (d := 0) haddr (by decide)
  have h1 : byteCell k (addr + 1) = 4 * cell k addr + 1 := byteCell_add haddr (by decide)
  have h2 : byteCell k (addr + 1 + 1) = 4 * cell k addr + 2 := by
    rw [show addr + 1 + 1 = addr + 2 by bv_omega]
    exact byteCell_add haddr (by decide)
  have h3 : byteCell k (addr + 1 + 1 + 1) = 4 * cell k addr + 3 := by
    rw [show addr + 1 + 1 + 1 = addr + 3 by bv_omega]
    exact byteCell_add haddr (by decide)
  rw [storeBytes, storeBytes, storeBytes, storeBytes, storeBytes, h0, h1, h2, h3]

/-! One core's words against its private bytes. -/

/-- The words a core sees are the words of its private memory. -/
def Agree (k : ℕ) (nw : Word) (f : WordMap) (bytes : ℕ → Byte) : Prop :=
  ∀ addr, f (WordMap.index nw addr) = word bytes (cell k addr)

/-- A masked word store agrees with a store of byte lanes. -/
theorem Agree.storeLanes {k : ℕ} {nw : Word} (hnw : nw.toNat = 2 ^ k) {f : WordMap}
    {bytes : ℕ → Byte} (h : Agree k nw f bytes) (addr data mask : Word) :
    Agree k nw (WordMap.putWord nw f addr
        (WordMap.mergeMask (f (WordMap.index nw addr)) data mask))
      (PrivateMemory.storeLanes k bytes addr data mask) := by
  intro addr'
  apply word_ext
  intro i hi
  have hdiv : (4 * cell k addr' + i) / 4 = cell k addr' := by omega
  have hmod : (4 * cell k addr' + i) % 4 = i := by omega
  rw [extractLsb'_word _ _ hi, PrivateMemory.storeLanes, hdiv, hmod, WordMap.putWord,
    Function.update_apply]
  simp only [index_eq_iff hnw]
  by_cases hcell : cell k addr' = cell k addr
  · rw [if_pos hcell, extractLsb'_mergeMask _ _ _ hi, h addr, extractLsb'_word _ _ hi]
    simp only [hcell, true_and]
  · rw [if_neg hcell, h addr', extractLsb'_word _ _ hi]
    simp only [hcell, false_and, if_false]

/-- A stored word agrees with its four stored bytes. -/
theorem Agree.storeWord {k : ℕ} {nw : Word} (hnw : nw.toNat = 2 ^ k) {f : WordMap}
    {bytes : ℕ → Byte} (h : Agree k nw f bytes) {addr : Word} (haddr : addr.toNat % 4 = 0)
    (b0 b1 b2 b3 : Byte) :
    Agree k nw (WordMap.putWord nw f addr (bytesWord [b0, b1, b2, b3]))
      (PrivateMemory.storeBytes k bytes addr [b0, b1, b2, b3]) := by
  intro addr'
  apply word_ext
  intro i hi
  rw [extractLsb'_word _ _ hi, WordMap.putWord, Function.update_apply, storeBytes_four haddr]
  simp only [index_eq_iff hnw, Function.update_apply]
  by_cases hcell : cell k addr' = cell k addr
  · rw [if_pos hcell, extractLsb'_bytesWord _ _ _ _ hi, hcell]
    match i, hi with
    | 0, _ | 1, _ | 2, _ | 3, _ => simp
  · rw [if_neg hcell, h addr', extractLsb'_word _ _ hi]
    have hne : ∀ j < 4, 4 * cell k addr' + i ≠ 4 * cell k addr + j := by
      intro j hj heq
      exact hcell (by omega)
    have hne0 : 4 * cell k addr' + i ≠ 4 * cell k addr := hne 0 (by omega)
    rw [if_neg (hne 3 (by omega)), if_neg (hne 2 (by omega)), if_neg (hne 1 (by omega)),
      if_neg hne0]

/-- Stored aligned words agree with their stored bytes. -/
theorem Agree.storeWords {k : ℕ} {nw : Word} (hnw : nw.toNat = 2 ^ k) {f : WordMap}
    {bytes : ℕ → Byte} (h : Agree k nw f bytes) {addr : Word} (haddr : addr.toNat % 4 = 0)
    {data : List Byte} (hdata : data.length % 4 = 0) :
    Agree k nw (WordMap.putWords nw f addr data)
      (PrivateMemory.storeBytes k bytes addr data) := by
  fun_induction WordMap.putWords nw f addr data generalizing bytes with
  | case1 f addr b0 b1 b2 b3 rest ih =>
    have hnext : (addr + 4).toNat % 4 = 0 := by bv_omega
    have hlength : rest.length % 4 = 0 := by
      simp only [List.length_cons] at hdata
      omega
    have hsum : addr + 1 + 1 + 1 + 1 = addr + 4 := by bv_omega
    have hbytes := ih (h.storeWord hnw haddr b0 b1 b2 b3) hnext hlength
    simpa only [PrivateMemory.storeBytes, hsum] using hbytes
  | case2 data f addr hshort =>
    match data, hdata, hshort with
    | [], _, _ => exact h
    | b0 :: b1 :: b2 :: b3 :: rest, _, hshort => exact absurd rfl (hshort b0 b1 b2 b3 rest)

end PrivateMemory

end VeriCross
