import VeriCross.Memory.Bytes

/-!
# What a public write does to the replicas

The word loop of a public write stores its data in every core's view and nothing else. The byte
loop reads each word that it touches through the primary and stores the result for all cores, so
a replica takes over the primary's bytes beside the written ones. A write is local to each
replica exactly when these bytes were the same.
-/

namespace VeriCross

open WordMap PrivateMemory

variable {numReps : ℕ} {k : ℕ} {nw : Word}

/-! Ranges of addresses. -/

/-- Some address of a range is mapped to the given place. -/
def Covers {X : Type*} (place : Word → X) (addr : Word) (size : ℕ) (x : X) : Prop :=
  ∃ d < size, place (addr + BitVec.ofNat 32 d) = x

/-- The first address of a range and the rest. -/
theorem covers_succ {X : Type*} {place : Word → X} {addr : Word} {size : ℕ} {x : X} :
    Covers place addr (size + 1) x ↔ place addr = x ∨ Covers place (addr + 1) size x := by
  have hnext : ∀ d, addr + BitVec.ofNat 32 (d + 1) = addr + 1 + BitVec.ofNat 32 d := by
    intro d
    bv_omega
  constructor
  · rintro ⟨d, hd, h⟩
    cases d with
    | zero => exact .inl (by simpa using h)
    | succ d => exact .inr ⟨d, Nat.lt_of_succ_lt_succ hd, by rwa [← hnext]⟩
  · rintro (h | ⟨d, hd, h⟩)
    · exact ⟨0, Nat.succ_pos size, by simpa using h⟩
    · exact ⟨d + 1, Nat.succ_lt_succ hd, by rwa [hnext]⟩

/-- An empty range covers nothing. -/
theorem not_covers_zero {X : Type*} {place : Word → X} {addr : Word} {x : X} :
    ¬Covers place addr 0 x := fun ⟨_, hd, _⟩ => absurd hd (Nat.not_lt_zero _)

/-- The words and the word numbers that a range covers. -/
theorem covers_index (hnw : nw.toNat = 2 ^ k) (addr : Word) (size : ℕ) (addr' : Word) :
    Covers (index nw) addr size (index nw addr') ↔ Covers (cell k) addr size (cell k addr') :=
  exists_congr fun _ => and_congr_right fun _ => index_eq_iff hnw ..

/-- A range of whole words covers every byte of each word that it covers. -/
theorem covers_of_aligned {addr : Word} {size : ℕ} (haddr : addr.toNat % 4 = 0)
    (hsize : size % 4 = 0) {addr' : Word} (h : Covers (cell k) addr size (cell k addr')) :
    Covers (byteCell k) addr size (byteCell k addr') := by
  obtain ⟨d, hd, hcell⟩ := h
  refine ⟨4 * (d / 4) + addr'.toNat % 4, by omega, ?_⟩
  have hshift : (addr + BitVec.ofNat 32 (4 * (d / 4) + addr'.toNat % 4)).toNat / 4 =
      (addr + BitVec.ofNat 32 d).toNat / 4 := by bv_omega
  have hlane : (addr + BitVec.ofNat 32 (4 * (d / 4) + addr'.toNat % 4)).toNat % 4 =
      addr'.toNat % 4 := by bv_omega
  rw [byteCell_eq, byteCell_eq, hlane, ← hcell, cell, cell, hshift]

/-! Stored bytes. -/

/-- A byte that is not written keeps its value. -/
theorem storeBytes_of_not_covers {bytes : ℕ → Byte} {addr : Word} {data : List Byte} {j : ℕ}
    (h : ¬Covers (byteCell k) addr data.length j) :
    PrivateMemory.storeBytes k bytes addr data j = bytes j := by
  induction data generalizing bytes addr with
  | nil => rfl
  | cons b rest ih =>
    rw [List.length_cons, covers_succ, not_or] at h
    rw [PrivateMemory.storeBytes, ih h.2, Function.update_of_ne (Ne.symm h.1)]

/-- The number of the byte at a distance from an address. -/
theorem byteCell_add_ofNat (hk : k ≤ 30) (addr : Word) (d : ℕ) :
    byteCell k (addr + BitVec.ofNat 32 d) = (addr.toNat + d) % (4 * 2 ^ k) := by
  have hdvd : 4 * 2 ^ k ∣ 2 ^ 32 := by
    have hpow : 4 * 2 ^ k = 2 ^ (2 + k) := by rw [Nat.pow_add]
    rw [hpow]
    exact Nat.pow_dvd_pow 2 (by omega)
  rw [byteCell, BitVec.toNat_add, BitVec.toNat_ofNat, Nat.add_mod_mod, Nat.mod_mod_of_dvd _ hdvd]

/-- Data that fits into the memory is found where it was stored. -/
theorem storeBytes_getElem (hk : k ≤ 30) {bytes : ℕ → Byte} {addr : Word} {data : List Byte}
    (hfits : data.length ≤ 4 * 2 ^ k) {i : ℕ} (hi : i < data.length) :
    PrivateMemory.storeBytes k bytes addr data (byteCell k (addr + BitVec.ofNat 32 i)) =
      data[i] := by
  induction data generalizing bytes addr i with
  | nil => cases hi
  | cons b rest ih =>
    rw [List.length_cons] at hfits hi
    rw [PrivateMemory.storeBytes]
    cases i with
    | zero =>
      -- the bytes that follow have other numbers, since the data does not go around the memory
      have hkept : ¬Covers (byteCell k) (addr + 1) rest.length
          (byteCell k (addr + BitVec.ofNat 32 0)) := by
        rintro ⟨d, hd, hsame⟩
        have hnext : addr + 1 + BitVec.ofNat 32 d = addr + BitVec.ofNat 32 (d + 1) := by bv_omega
        rw [hnext, byteCell_add_ofNat hk, byteCell_add_ofNat hk] at hsame
        have hmod : (d + 1) % (4 * 2 ^ k) = 0 % (4 * 2 ^ k) := Nat.ModEq.add_left_cancel' _ hsame
        rw [Nat.mod_eq_of_lt (by omega), Nat.zero_mod] at hmod
        omega
      rw [storeBytes_of_not_covers hkept, BitVec.add_zero, Function.update_self]
      rfl
    | succ i =>
      have hnext : addr + BitVec.ofNat 32 (i + 1) = addr + 1 + BitVec.ofNat 32 i := by bv_omega
      rw [hnext, ih (by omega) (Nat.lt_of_succ_lt_succ hi)]
      rfl

/-- Data stored in two parts. -/
theorem storeBytes_append (bytes : ℕ → Byte) (addr : Word) (data data' : List Byte) :
    PrivateMemory.storeBytes k bytes addr (data ++ data') =
      PrivateMemory.storeBytes k (PrivateMemory.storeBytes k bytes addr data)
        (addr + BitVec.ofNat 32 data.length) data' := by
  induction data generalizing bytes addr with
  | nil => simp [PrivateMemory.storeBytes]
  | cons b rest ih =>
    have hnext : addr + BitVec.ofNat 32 (b :: rest).length =
        addr + 1 + BitVec.ofNat 32 rest.length := by
      rw [List.length_cons]
      bv_omega
    rw [hnext]
    exact ih _ _

/-- A stored array depends only on the bytes that are not written. -/
theorem storeBytes_congr {bytes bytes' : ℕ → Byte} {addr : Word} {data : List Byte} {j : ℕ}
    (h : ¬Covers (byteCell k) addr data.length j → bytes j = bytes' j) :
    PrivateMemory.storeBytes k bytes addr data j =
      PrivateMemory.storeBytes k bytes' addr data j := by
  induction data generalizing bytes bytes' addr with
  | nil => exact h not_covers_zero
  | cons b rest ih =>
    rw [PrivateMemory.storeBytes, PrivateMemory.storeBytes]
    refine ih fun hrest => ?_
    rw [Function.update_apply, Function.update_apply]
    split
    · rfl
    · next hne =>
      refine h ?_
      rw [List.length_cons, covers_succ, not_or]
      exact ⟨Ne.symm hne, hrest⟩

/-! The byte loop on the view of any core. -/

open Classical in
/-- The words a core sees, with the words of a range taken from another map. -/
noncomputable def WordMap.splice (nw : Word) (own other : WordMap) (addr : Word) (size : ℕ) :
    WordMap :=
  fun w => if Covers (index nw) addr size w then other w else own w

/-- Inside the range a spliced map is the other one. -/
theorem WordMap.splice_of_covers {own other : WordMap} {addr : Word} {size : ℕ} {w : Word}
    (h : Covers (index nw) addr size w) : splice nw own other addr size w = other w := if_pos h

/-- Outside the range a spliced map is the own one. -/
theorem WordMap.splice_of_not_covers {own other : WordMap} {addr : Word} {size : ℕ} {w : Word}
    (h : ¬Covers (index nw) addr size w) : splice nw own other addr size w = own w := if_neg h

/-- The byte loop first replaces the words that it touches by those the primary sees. -/
theorem Memory.view_writeBytes_splice (m : Memory numReps) (addr : Word) (data : List Byte)
    (a : Agent numReps) :
    (m.writeBytes addr data).view a =
      putBytes m.nwords (splice m.nwords (m.view a) (m.view none) addr data.length) addr data := by
  fun_induction writeBytes m addr data with
  | case1 m addr b rest ih =>
    rw [ih, nwords_write1b, putBytes]
    congr 1
    funext w
    have hfirst : splice m.nwords (m.view a) (m.view none) addr (b :: rest).length
        (index m.nwords addr) = m.view none (index m.nwords addr) :=
      splice_of_covers (covers_succ.mpr (.inl rfl))
    rw [putByte, hfirst]
    -- the word of the first byte is stored for all cores, so the rest of the loop finds the same
    -- word through every core
    by_cases hw : w = index m.nwords addr
    · subst hw
      have hstored : ∀ a, (m.write1b .all addr b).view a (index m.nwords addr) =
          mergeByte (m.view none (index m.nwords addr)) addr b := by
        intro a
        rw [view_write1b_all, putWord, Function.update_self]
      rw [putWord, Function.update_self]
      by_cases hrest : Covers (index m.nwords) (addr + 1) rest.length (index m.nwords addr)
      · rw [splice_of_covers hrest, hstored]
      · rw [splice_of_not_covers hrest, hstored]
    · have hkept : ∀ a, (m.write1b .all addr b).view a w = m.view a w := by
        intro a
        rw [view_write1b_all, putWord, Function.update_of_ne hw]
      rw [putWord, Function.update_of_ne hw]
      by_cases hrest : Covers (index m.nwords) (addr + 1) rest.length w
      · have hcovers : Covers (index m.nwords) addr (b :: rest).length w :=
          covers_succ.mpr (.inr hrest)
        rw [splice_of_covers hrest, splice_of_covers hcovers, hkept]
      · have hcovers : ¬Covers (index m.nwords) addr (b :: rest).length w := by
          rw [List.length_cons, covers_succ, not_or]
          exact ⟨Ne.symm hw, hrest⟩
        rw [splice_of_not_covers hrest, splice_of_not_covers hcovers, hkept]
  | case2 m addr =>
    rw [putBytes]
    funext w
    exact (splice_of_not_covers not_covers_zero).symm

/-! The bytes of a replica after a public write. -/

open Classical in
/-- The bytes a core sees, with the words of a range taken from another array. -/
noncomputable def PrivateMemory.splice (k : ℕ) (own other : ℕ → Byte) (addr : Word) (size : ℕ) :
    ℕ → Byte :=
  fun j => if Covers (cell k) addr size (j / 4) then other j else own j

/-- Spliced words are the words of the spliced array. -/
theorem PrivateMemory.Agree.splice (hnw : nw.toNat = 2 ^ k) {own other : WordMap}
    {bytes bytes' : ℕ → Byte} (h : Agree k nw own bytes) (h' : Agree k nw other bytes')
    (addr : Word) (size : ℕ) :
    Agree k nw (WordMap.splice nw own other addr size)
      (PrivateMemory.splice k bytes bytes' addr size) := by
  intro addr'
  apply word_ext
  intro i hi
  rw [extractLsb'_word _ _ hi, PrivateMemory.splice,
    show (4 * cell k addr' + i) / 4 = cell k addr' by omega]
  by_cases hcovers : Covers (cell k) addr size (cell k addr')
  · rw [splice_of_covers ((covers_index hnw ..).mpr hcovers), if_pos hcovers, h' addr',
      extractLsb'_word _ _ hi]
  · rw [splice_of_not_covers (mt (covers_index hnw ..).mp hcovers), if_neg hcovers, h addr',
      extractLsb'_word _ _ hi]

/-- The bytes of a core after the byte loop. -/
theorem Memory.read1b_writeBytes (m : Memory numReps) (hnw : m.nwords.toNat = 2 ^ k) (addr : Word)
    (data : List Byte) (a : Agent numReps) (addr' : Word) :
    (m.writeBytes addr data).read1b a.id addr' = PrivateMemory.storeBytes k
      (PrivateMemory.splice k (m.bytes a) (m.bytes none) addr data.length) addr data
      (byteCell k addr') := by
  have hagree := (m.agree_bytes hnw a).splice hnw (m.agree_bytes hnw none) addr data.length
  rw [read1b_eq_getByte, nwords_writeBytes, view_writeBytes_splice]
  exact (hagree.storeBytes hnw addr data).getByte addr'

/-- The bytes of a core after the word loop. -/
theorem Memory.read1b_writeWords (m : Memory numReps) (hnw : m.nwords.toNat = 2 ^ k) {addr : Word}
    {data : List Byte} (haddr : addr.toNat % 4 = 0) (hdata : data.length % 4 = 0)
    (a : Agent numReps) (addr' : Word) :
    (m.writeWords addr data).read1b a.id addr' =
      PrivateMemory.storeBytes k (m.bytes a) addr data (byteCell k addr') := by
  rw [read1b_eq_getByte, nwords_writeWords, view_writeWords]
  exact ((m.agree_bytes hnw a).storeWords hnw haddr hdata).getByte addr'

/-- A public write is local to the replicas: each of them then reads the written bytes, and at
every other address what it read before. -/
def WriteLocal (k : ℕ) (m : Memory numReps) (addr : Word) (data : List Byte) : Prop :=
  ∀ (i : Fin numReps) (addr' : Word), (m.write addr data).read1b (.replica i) addr' =
    PrivateMemory.storeBytes k (m.bytes (some i)) addr data (byteCell k addr')

/-- The bytes beside the written ones, in the words that a write touches, are the same for the
replicas and the primary. -/
def SharesTouchedWords (k : ℕ) (m : Memory numReps) (addr : Word) (data : List Byte) : Prop :=
  ∀ (i : Fin numReps) (addr' : Word), Covers (cell k) addr data.length (cell k addr') →
    ¬Covers (byteCell k) addr data.length (byteCell k addr') →
    m.read1b (.replica i) addr' = m.read1b .primary addr'

/-- A write is local exactly when the bytes beside the written ones were shared. -/
theorem writeLocal_iff (m : Memory numReps) (hnw : m.nwords.toNat = 2 ^ k) (addr : Word)
    (data : List Byte) : WriteLocal k m addr data ↔ SharesTouchedWords k m addr data := by
  rw [WriteLocal, SharesTouchedWords]
  rw [Memory.write]
  split
  · next haligned =>
    obtain ⟨haddr, hdata⟩ := haligned
    constructor
    · exact fun _ i addr' htouched hkept => absurd (covers_of_aligned haddr hdata htouched) hkept
    · exact fun _ i addr' => m.read1b_writeWords hnw haddr hdata (some i) addr'
  · refine forall_congr' fun i => forall_congr' fun addr' => ?_
    have hbytes := m.read1b_writeBytes hnw addr data (some i) addr'
    have hprimary := m.read1b_eq_bytes hnw none addr'
    have hreplica := m.read1b_eq_bytes hnw (some i) addr'
    change m.read1b .primary addr' = _ at hprimary
    change m.read1b (.replica i) addr' = _ at hreplica
    change (m.writeBytes addr data).read1b (.replica i) addr' = _ at hbytes
    rw [hbytes, hprimary, hreplica]
    constructor
    · intro h htouched hkept
      rw [storeBytes_of_not_covers hkept, storeBytes_of_not_covers hkept,
        PrivateMemory.splice, byteCell_div, if_pos htouched] at h
      exact h.symm
    · intro h
      refine storeBytes_congr fun hkept => ?_
      rw [PrivateMemory.splice, byteCell_div]
      split
      · next htouched => exact (h htouched hkept).symm
      · rfl

/-- After any history of accesses, a public write of any length at any address is local to the
replicas exactly when each of them sees the bytes beside the written ones as the primary does. -/
theorem publicWrite_local_iff (hnw : nw.toNat = 2 ^ k) (ifPrim : CoreMemoryIF)
    (ifReps : Fin numReps → CoreMemoryIF) (events : List (MemoryEvent numReps)) (addr : Word)
    (data : List Byte) :
    let m := events.foldl Memory.after (Memory.new ifPrim ifReps nw)
    WriteLocal k m addr data ↔ SharesTouchedWords k m addr data := by
  intro m
  have hrun := (PrimaryRefines.start (Memory.new ifPrim ifReps nw) hnw).run events
  exact writeLocal_iff m hrun.nwords addr data

/-- Whole words are written locally while a replica is ahead of the primary. -/
theorem wholeWord_local :
    let idle : CoreMemoryIF := ⟨0, 0, 0, 0, 0, 0, 0, 0, 0⟩
    let store : CoreMemoryIF := ⟨0, 0, 0, 0, 7, 15, 1, 0, 1⟩
    let m := [.driveReplica fun _ => store, .updateReplica fun _ => store].foldl Memory.after
      (Memory.new idle (fun _ : Fin 1 => idle) 4)
    WriteLocal 2 m 4 [1, 2, 3, 4] :=
  (publicWrite_local_iff (by decide) _ _ _ 4 [1, 2, 3, 4]).mpr
    fun _ _ htouched hkept => absurd (covers_of_aligned rfl rfl htouched) hkept

/-- A replica has stored 7 to the first word, which the primary has not reached yet. A public
write of one byte at address 1 makes the replica read 0 at address 0. -/
theorem leadingReplica_loses_store :
    let idle : CoreMemoryIF := ⟨0, 0, 0, 0, 0, 0, 0, 0, 0⟩
    let store : CoreMemoryIF := ⟨0, 0, 0, 0, 7, 15, 1, 0, 1⟩
    let m := [.driveReplica fun _ => store, .updateReplica fun _ => store].foldl Memory.after
      (Memory.new idle (fun _ : Fin 1 => idle) 4)
    ¬WriteLocal 2 m 1 [9] := by
  intro idle store m h
  exact absurd (h 0 0) (by decide)

end VeriCross
