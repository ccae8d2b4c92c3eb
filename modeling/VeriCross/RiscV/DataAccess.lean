import VeriCross.Memory.Bytes
import VeriCross.RiscV.Execution

/-!
# Loads and stores of the functional core

A load reads the memory directly, and a store puts lanes of a word on the memory interface. Both
are the load and the store of the manual at an address that the core makes of the effective one:
word accesses clear its low two bits and a half-word store the lowest one, while a half-word load
takes it as it is.
-/

namespace VeriCross

open RiscV

variable {numReps : ℕ} {k : ℕ}

/-- The address at which the functional core carries out a load. -/
def LoadOp.readAddr (addr : Word) : LoadOp → Word
  | lb | lbu | lh | lhu => addr
  | lw => addr &&& ~~~0x3

/-- The address at which the functional core carries out a store. -/
def StoreOp.writeAddr (addr : Word) : StoreOp → Word
  | sb => addr
  | sh => addr &&& ~~~0x1
  | sw => addr &&& ~~~0x3

/-! Loaded bytes. -/

/-- One byte as a word. -/
theorem bytesWord_one (b : Byte) : bytesWord [b] = b.setWidth 32 := by
  simp [bytesWord]

/-- Two bytes as a word. -/
theorem bytesWord_two (b0 b1 : Byte) : bytesWord [b0, b1] = (b1 ++ b0).setWidth 32 := by
  apply BitVec.eq_of_getLsbD_eq
  intro i hi
  simp only [bytesWord, List.foldr_cons, List.foldr_nil, BitVec.getLsbD_or,
    BitVec.getLsbD_shiftLeft, BitVec.getLsbD_setWidth, BitVec.getLsbD_append]
  grind

/-- Four bytes as a word. -/
theorem bytesWord_four (b0 b1 b2 b3 : Byte) :
    bytesWord [b0, b1, b2, b3] = b3 ++ b2 ++ b1 ++ b0 := by
  apply BitVec.eq_of_getLsbD_eq
  intro i hi
  simp only [bytesWord, List.foldr_cons, List.foldr_nil, BitVec.getLsbD_or,
    BitVec.getLsbD_shiftLeft, BitVec.getLsbD_setWidth, BitVec.getLsbD_append]
  grind

/-- Setting the high bits of a negative byte extends its sign. -/
theorem or_high_byte (b : Byte) :
    (b.setWidth 32 ||| if b.setWidth 32 &&& (0x80 : Word) ≠ 0 then 0xffffff00 else 0) =
      b.signExtend 32 :=
  BitFields.or_high_eq_signExtend b (by decide) (by decide)

/-- Setting the high bits of a negative half-word extends its sign. -/
theorem or_high_half (h : BitVec 16) :
    (h.setWidth 32 ||| if h.setWidth 32 &&& (0x8000 : Word) ≠ 0 then 0xffff0000 else 0) =
      h.signExtend 32 :=
  BitFields.or_high_eq_signExtend h (by decide) (by decide)

/-- The bytes that the primary core sees from an address on. -/
def Memory.bytesFrom (m : Memory numReps) (addr : Word) (d : ℕ) : Byte :=
  m.read1b .primary (addr + BitVec.ofNat 32 d)

/-- A load of the functional core is the load of the manual at its own address. -/
theorem execute_load (m : Memory numReps) (pc : Word) (reg : RegIndex → Word)
    (memif : CoreMemoryIF) (o : LoadOp) (rd rs1 : BitVec 5) (offset : BitVec 12) :
    let addr := reg (regNum rs1) + offset.signExtend 32
    ∃ baddr, execute m.read pc (RiscVInstruction.decode pc (Instr.load o rd rs1 offset).encode) reg
      memif = some ⟨putBack reg (some (rd, o.value (m.bytesFrom (o.readAddr addr)))), pc + 4,
        memif.load addr, baddr⟩ := by
  intro addr
  have hone : ∀ a, bytesWord (m.read a 1) = (m.bytesFrom a 0).setWidth 32 := by
    intro a
    rw [m.read_eq_map]
    exact bytesWord_one _
  have htwo : ∀ a, bytesWord (m.read a 2) =
      (m.bytesFrom a 1 ++ m.bytesFrom a 0).setWidth 32 := by
    intro a
    rw [m.read_eq_map]
    exact bytesWord_two _ _
  have hfour : ∀ a, bytesWord (m.read a 4) =
      m.bytesFrom a 3 ++ m.bytesFrom a 2 ++ m.bytesFrom a 1 ++ m.bytesFrom a 0 := by
    intro a
    rw [m.read_eq_map]
    exact bytesWord_four _ _ _ _
  obtain ⟨hrd, hrs1⟩ := (Instr.load o rd rs1 offset).operandsOf_decode pc
  rw [execute]
  rw [Instr.instrId_decode, Instr.imm_decode _ pc rfl, hrd, hrs1]
  simp only [regIndex_setWidth, hone, htwo, hfour, or_high_byte, or_high_half]
  cases o with
  | lb | lbu | lh | lhu | lw => exact ⟨_, rfl⟩

/-! Stored lanes. -/

/-- The lane at which the functional core puts a byte. -/
theorem toNat_and_three (addr : Word) : (addr &&& 0x3).toNat = addr.toNat % 4 :=
  BitFields.toNat_and_low addr 2 (by decide)

/-- The lane at which the functional core puts a half-word. -/
theorem toNat_and_two (addr : Word) : (addr &&& 0x2).toNat = (addr &&& ~~~0x1).toNat % 4 := by
  have hclear : (addr &&& ~~~(0x1 : Word)).toNat = addr.toNat - addr.toNat % 2 :=
    BitFields.toNat_and_not_low addr 1
  have hbit : addr &&& 0x2 = if addr.getLsbD 1 then 0x2 else 0 := BitVec.and_twoPow addr 1
  rw [hclear, hbit, BitVec.getLsbD, Nat.testBit_succ, Nat.testBit_zero]
  split
  · next h =>
    change 2 = _
    simp only [decide_eq_true_eq] at h
    omega
  · next h =>
    change 0 = _
    simp only [decide_eq_true_eq] at h
    omega

/-- The lane of a stored value and the value fit into one word. -/
theorem StoreOp.writeAddr_lane (o : StoreOp) (addr : Word) :
    (o.writeAddr addr).toNat % 4 + o.size ≤ 4 := by
  have hhalf : (addr &&& ~~~(0x1 : Word)).toNat = addr.toNat - addr.toNat % 2 :=
    BitFields.toNat_and_not_low addr 1
  have hword : (addr &&& ~~~(0x3 : Word)).toNat = addr.toNat - addr.toNat % 4 :=
    BitFields.toNat_and_not_low addr 2
  cases o with
  | sb => exact Nat.succ_le_of_lt (Nat.mod_lt _ (by decide))
  | sh =>
    simp only [writeAddr, size]
    omega
  | sw =>
    simp only [writeAddr, size]
    omega

/-- A store stays in the word of the effective address. -/
theorem StoreOp.writeAddr_div (o : StoreOp) (addr : Word) :
    (addr &&& ~~~0x3).toNat / 4 = (o.writeAddr addr).toNat / 4 := by
  have hhalf : (addr &&& ~~~(0x1 : Word)).toNat = addr.toNat - addr.toNat % 2 :=
    BitFields.toNat_and_not_low addr 1
  have hword : (addr &&& ~~~(0x3 : Word)).toNat = addr.toNat - addr.toNat % 4 :=
    BitFields.toNat_and_not_low addr 2
  cases o with
  | sb =>
    rw [writeAddr]
    omega
  | sh =>
    rw [writeAddr]
    omega
  | sw => rfl

/-- A store of the functional core puts the lanes of its own address on the interface. -/
theorem execute_store (read : PublicRead) (pc : Word) (reg : RegIndex → Word)
    (memif : CoreMemoryIF) (o : StoreOp) (rs1 rs2 : BitVec 5) (offset : BitVec 12) :
    let addr := reg (regNum rs1) + offset.signExtend 32
    let lane := (o.writeAddr addr).toNat % 4
    execute read pc (RiscVInstruction.decode pc (Instr.store o rs1 rs2 offset).encode) reg memif =
      some ⟨reg, pc + 4, memif.store addr (reg (regNum rs2) <<< (lane * 8))
        (BitVec.ofNat 32 (2 ^ o.size - 1) <<< lane), 0⟩ := by
  intro addr lane
  obtain ⟨hrs1, hrs2⟩ := (Instr.store o rs1 rs2 offset).operandsOf_decode pc
  rw [execute]
  rw [Instr.instrId_decode, Instr.imm_decode _ pc rfl, hrs1, hrs2]
  simp only [regIndex_setWidth, toNat_and_two, toNat_and_three]
  cases o with
  | sb | sh => rfl
  | sw =>
    have hclear : (addr &&& ~~~(0x3 : Word)).toNat = addr.toNat - addr.toNat % 4 :=
      BitFields.toNat_and_not_low addr 2
    have hlane : lane = 0 := by
      change (addr &&& ~~~0x3).toNat % 4 = 0
      omega
    rw [hlane, Nat.zero_mul, BitVec.shiftLeft_zero, BitVec.shiftLeft_zero]
    rfl

/-- Bytes stored within one word take its lanes in order. -/
theorem storeBytes_within {bytes : ℕ → Byte} {addr : Word} {data : List Byte}
    (h : addr.toNat % 4 + data.length ≤ 4) (j : ℕ) :
    PrivateMemory.storeBytes k bytes addr data j =
      if byteCell k addr ≤ j ∧ j < byteCell k addr + data.length then
        data.getD (j - byteCell k addr) 0
      else bytes j := by
  induction data generalizing bytes addr with
  | nil => 
    rw [if_neg (by simp only [List.length_nil]; omega)]
    rfl
  | cons b rest ih =>
    rw [List.length_cons] at h
    cases rest with
    | nil =>
      rw [PrivateMemory.storeBytes, PrivateMemory.storeBytes, Function.update_apply]
      by_cases hj : j = byteCell k addr
      · subst hj
        simp
      · rw [if_neg hj, if_neg (by simp only [List.length_cons, List.length_nil]; omega)]
    | cons b' rest =>
      rw [List.length_cons] at h
      have hcell : cell k (addr + 1) = cell k addr := by
        have hdiv : (addr + 1).toNat / 4 = addr.toNat / 4 := by bv_omega
        rw [cell, cell, hdiv]
      have hnext : byteCell k (addr + 1) = byteCell k addr + 1 := by
        rw [byteCell_eq, byteCell_eq, hcell]
        bv_omega
      rw [PrivateMemory.storeBytes, ih (by simp only [List.length_cons]; bv_omega), hnext,
        Function.update_apply]
      simp only [List.length_cons]
      by_cases hj : j = byteCell k addr
      · subst hj
        simp
      · by_cases hin : byteCell k addr < j ∧ j < byteCell k addr + (rest.length + 1 + 1)
        · rw [if_pos (by omega), if_pos (by omega),
            show j - byteCell k addr = j - (byteCell k addr + 1) + 1 by omega, List.getD_cons_succ]
        · rw [if_neg (by omega), if_neg hj, if_neg (by omega)]

/-- The mask of consecutive lanes. -/
theorem getLsbD_laneMask {lane size i : ℕ} (hi : i < 4) :
    (BitVec.ofNat 32 (2 ^ size - 1) <<< lane).getLsbD i =
      decide (lane ≤ i ∧ i < lane + size) := by
  rw [BitVec.getLsbD_shiftLeft, BitVec.getLsbD_ofNat, Nat.testBit_two_pow_sub_one]
  by_cases hlow : i < lane
  · simp [hlow, Nat.not_le.mpr hlow]
  · simp [hlow, Nat.not_lt.mp hlow, show i < 32 by omega, show i - lane < 32 by omega]
    omega

/-- The bytes of a word that was shifted to a lane. -/
theorem extractLsb'_shiftLeft_lane (data : Word) {lane i : ℕ} (h : lane + i < 4) :
    (data <<< (lane * 8)).extractLsb' (8 * (lane + i)) 8 = data.extractLsb' (8 * i) 8 := by
  apply BitVec.eq_of_getLsbD_eq
  intro b hb
  rw [BitVec.getLsbD_extractLsb', BitVec.getLsbD_extractLsb', BitVec.getLsbD_shiftLeft,
    show 8 * (lane + i) + b - lane * 8 = 8 * i + b by omega]
  simp only [show 8 * (lane + i) + b < 32 by omega, show ¬8 * (lane + i) + b < lane * 8 by omega,
    decide_true, decide_false, Bool.not_false, Bool.true_and]

/-- The lanes that the functional core puts on the interface are the bytes of the manual. -/
theorem storeLanes_eq_storeBytes (bytes : ℕ → Byte) (addr data : Word) (o : StoreOp) :
    let lane := (o.writeAddr addr).toNat % 4
    PrivateMemory.storeLanes k bytes (addr &&& ~~~0x3) (data <<< (lane * 8))
        (BitVec.ofNat 32 (2 ^ o.size - 1) <<< lane) =
      PrivateMemory.storeBytes k bytes (o.writeAddr addr) (o.bytes data) := by
  intro lane
  have hlane : lane + o.size ≤ 4 := o.writeAddr_lane addr
  have hlength : (o.bytes data).length = o.size := by
    rw [StoreOp.bytes, List.length_map, List.length_range]
  have hcell : cell k (addr &&& ~~~0x3) = cell k (o.writeAddr addr) := by
    rw [cell, cell, o.writeAddr_div]
  funext j
  have hj : j % 4 < 4 := Nat.mod_lt _ (by decide)
  rw [storeBytes_within (by rw [hlength]; exact hlane), PrivateMemory.storeLanes,
    getLsbD_laneMask hj, byteCell_eq, hlength, hcell]
  change (if j / 4 = cell k (o.writeAddr addr) ∧ _ then _ else _) =
    if 4 * cell k (o.writeAddr addr) + lane ≤ j ∧
        j < 4 * cell k (o.writeAddr addr) + lane + o.size then
      (o.bytes data).getD (j - (4 * cell k (o.writeAddr addr) + lane)) 0
    else _
  generalize cell k (o.writeAddr addr) = c
  by_cases hin : 4 * c + lane ≤ j ∧ j < 4 * c + lane + o.size
  · rw [if_pos ⟨by omega, by simp only [decide_eq_true_eq]; omega⟩, if_pos hin]
    obtain ⟨i, rfl⟩ : ∃ i, j = 4 * c + lane + i := ⟨j - (4 * c + lane), by omega⟩
    have hi : i < o.size := by omega
    have hmod : (4 * c + lane + i) % 4 = lane + i := by omega
    rw [hmod, extractLsb'_shiftLeft_lane data (by omega), Nat.add_sub_cancel_left, StoreOp.bytes,
      ← List.getElem_eq_getD (h := by simpa using hi), List.getElem_map, List.getElem_range]
  · rw [if_neg (by simp only [decide_eq_true_eq]; omega), if_neg hin]

/-- The bytes after the functional core stored its lanes in any memory: those at its own address
are the stored ones, and the others are kept. -/
theorem getByte_store (nw : Word) (f : WordMap) (o : StoreOp) (addr data x : Word) :
    let lane := (o.writeAddr addr).toNat % 4
    WordMap.getByte nw (WordMap.putWord nw f (addr &&& ~~~0x3)
        (WordMap.mergeMask (f (WordMap.index nw (addr &&& ~~~0x3))) (data <<< (lane * 8))
          (BitVec.ofNat 32 (2 ^ o.size - 1) <<< lane))) x =
      if WordMap.index nw x = WordMap.index nw (o.writeAddr addr) ∧
          lane ≤ x.toNat % 4 ∧ x.toNat % 4 < lane + o.size then
        data.extractLsb' (8 * (x.toNat % 4 - lane)) 8
      else WordMap.getByte nw f x := by
  intro lane
  have hlane : lane + o.size ≤ 4 := o.writeAddr_lane addr
  have hx : x.toNat % 4 < 4 := Nat.mod_lt _ (by decide)
  have hindex : WordMap.index nw (addr &&& ~~~0x3) = WordMap.index nw (o.writeAddr addr) :=
    WordMap.index_congr nw (o.writeAddr_div addr)
  rw [WordMap.getByte_eq, WordMap.getByte_eq, WordMap.putWord, Function.update_apply, hindex]
  by_cases hword : WordMap.index nw x = WordMap.index nw (o.writeAddr addr)
  · rw [if_pos hword, PrivateMemory.extractLsb'_mergeMask _ _ _ hx, getLsbD_laneMask hx, hword]
    by_cases hin : lane ≤ x.toNat % 4 ∧ x.toNat % 4 < lane + o.size
    · obtain ⟨i, hi⟩ : ∃ i, x.toNat % 4 = lane + i := ⟨x.toNat % 4 - lane, by omega⟩
      rw [if_pos (decide_eq_true hin), if_pos ⟨rfl, hin⟩, hi,
        extractLsb'_shiftLeft_lane data (by omega), Nat.add_sub_cancel_left]
    · rw [if_neg (by simpa using hin), if_neg fun h => hin h.2]
  · rw [if_neg hword, if_neg fun h => hword h.1]

end VeriCross
