import VeriCross.Sim.DataAccess

/-!
# A load after a store

A store and a load of one width use the same address, whatever its alignment, unless they are of
half-words and the address is odd. The load then starts at the second of the stored bytes and goes
on with the byte after them.
-/

namespace VeriCross

open RiscV

variable {n : ℕ} {β : Type}

/-- A property of both bytes of a half-word. -/
theorem forall_lt_two {P : ℕ → Prop} : (∀ d < 2, P d) ↔ P 0 ∧ P 1 := by
  refine ⟨fun h => ⟨h 0 (by decide), h 1 (by decide)⟩, fun ⟨h0, h1⟩ d hd => ?_⟩
  match d, hd with
  | 0, _ => exact h0
  | 1, _ => exact h1

/-- The low part of a word that a load of some width gives back, extended. -/
def LoadOp.extend (data : Word) : LoadOp → Word
  | lb => (data.setWidth 8).signExtend 32
  | lbu => (data.setWidth 8).setWidth 32
  | lh => (data.setWidth 16).signExtend 32
  | lhu => (data.setWidth 16).setWidth 32
  | lw => data

/-- A load gives back the low part of a word exactly when it reads the bytes of this part. -/
theorem LoadOp.value_eq_extend_iff (o : LoadOp) (byte : ℕ → Byte) (data : Word) :
    o.value byte = o.extend data ↔ ∀ d < o.size, byte d = data.extractLsb' (8 * d) 8 := by
  have hbyte : data.setWidth 8 = data.extractLsb' 0 8 := BitVec.setWidth_eq_extractLsb' (by decide)
  have hhalf : data.setWidth 16 = data.extractLsb' 8 8 ++ data.extractLsb' 0 8 := by
    rw [BitVec.extractLsb'_append_extractLsb'_eq_extractLsb' (by decide)]
    exact BitVec.setWidth_eq_extractLsb' (by decide)
  cases o with
  | lb =>
    simp only [value, extend, size, hbyte, Nat.lt_one_iff, forall_eq]
    exact BitFields.signExtend_inj (by decide)
  | lbu =>
    simp only [value, extend, size, hbyte, Nat.lt_one_iff, forall_eq]
    exact BitFields.setWidth_inj (by decide)
  | lh =>
    rw [value, extend, size, hhalf, BitFields.signExtend_inj (by decide), BitFields.append_inj]
    rw [forall_lt_two, Nat.mul_zero, Nat.mul_one]
  | lhu =>
    rw [value, extend, size, hhalf, BitFields.setWidth_inj (by decide), BitFields.append_inj]
    rw [forall_lt_two, Nat.mul_zero, Nat.mul_one]
  | lw =>
    have hword : value byte lw = PrivateMemory.word byte 0 := rfl
    rw [hword, extend, size]
    constructor
    · rintro rfl d hd
      rw [PrivateMemory.extractLsb'_word _ _ hd, Nat.mul_zero, Nat.zero_add]
    · intro h
      apply PrivateMemory.word_ext
      intro d hd
      rw [PrivateMemory.extractLsb'_word _ _ hd, Nat.mul_zero, Nat.zero_add, h d hd]

/-- A load and a store of one width use the same address, unless they are of half-words and the
address is odd. -/
theorem LoadOp.readAddr_eq_writeAddr {o' : LoadOp} {o : StoreOp} (hsize : o'.size = o.size)
    {addr : Word} (h : o = .sh → addr.toNat % 2 = 0) : o'.readAddr addr = o.writeAddr addr := by
  cases o with
  | sb =>
    cases o' with
    | lb | lbu => rfl
    | lh | lhu | lw => cases hsize
  | sh =>
    cases o' with
    | lh | lhu => exact (BitFields.and_not_low_of_aligned addr 1 (h rfl)).symm
    | lb | lbu | lw => cases hsize
  | sw =>
    cases o' with
    | lw => rfl
    | lb | lbu | lh | lhu => cases hsize

namespace Machine

variable {M : Machine n FunctionalState β}

/-- A load returns a value: it is logged, and it is in the destination register. -/
structure Returns (M : Machine n FunctionalState β) (rd : BitVec 5) (data : Word) : Prop where
  driven : (M.primCycle FunctionalCore.methods).driven = true
  result : (M.primCycle FunctionalCore.methods).machine.prim.instif.result = data
  reg : rd ≠ 0 → (M.primCycle FunctionalCore.methods).machine.prim.self.reg (regNum rd) = data

/-- A load of the same width gives a stored value back. For half-words at an odd address this
takes two equal bytes, and the same byte after them in the memory. -/
def ReadsBack (M : Machine n FunctionalState β) (o : StoreOp) (addr data : Word) : Prop :=
  o = .sh → addr.toNat % 2 = 1 →
    data.extractLsb' 8 8 = data.extractLsb' 0 8 ∧
      M.mem.read1b .primary (addr + 1) = data.extractLsb' 8 8

section Store

variable (hready : FunctionalCore.ready M.prim = true) {o : StoreOp} {rs1 rs2 : BitVec 5}
  {offset : BitVec 12}
  (hstore : FunctionalCore.fetch M.mem.read M.prim = (Instr.store o rs1 rs2 offset).encode)

include hready hstore

/-- The bytes that the core sees after a cycle with a store. -/
theorem read1b_primCycle_store (x : Word) :
    let addr := M.prim.self.reg (regNum rs1) + offset.signExtend 32
    let lane := (o.writeAddr addr).toNat % 4
    (M.primCycle FunctionalCore.methods).machine.mem.read1b .primary x =
      if WordMap.index M.mem.nwords x = WordMap.index M.mem.nwords (o.writeAddr addr) ∧
          lane ≤ x.toNat % 4 ∧ x.toNat % 4 < lane + o.size then
        (M.prim.self.reg (regNum rs2)).extractLsb' (8 * (x.toNat % 4 - lane)) 8
      else M.mem.read1b .primary x := by
  intro addr lane
  obtain ⟨-, -, -, -, hnwords, hview⟩ := primCycle_store hready hstore
  rw [Memory.read1b_primary, Memory.read1b_primary, hnwords, hview]
  exact getByte_store ..

/-- The stored bytes are seen at the address that the store used. -/
theorem bytesFrom_writeAddr {d : ℕ} (hd : d < o.size) :
    let addr := M.prim.self.reg (regNum rs1) + offset.signExtend 32
    (M.primCycle FunctionalCore.methods).machine.mem.bytesFrom (o.writeAddr addr) d =
      (M.prim.self.reg (regNum rs2)).extractLsb' (8 * d) 8 := by
  intro addr
  have hlane : (o.writeAddr addr).toNat % 4 + o.size ≤ 4 := o.writeAddr_lane addr
  have hshift : (o.writeAddr addr + BitVec.ofNat 32 d) >>> 2 = o.writeAddr addr >>> 2 := by
    bv_omega
  have hmod : (o.writeAddr addr + BitVec.ofNat 32 d).toNat % 4 =
      (o.writeAddr addr).toNat % 4 + d := by
    bv_omega
  rw [Memory.bytesFrom, read1b_primCycle_store hready hstore, if_pos, hmod,
    Nat.add_sub_cancel_left]
  rw [hmod, WordMap.index, hshift]
  exact ⟨rfl, Nat.le_add_right .., Nat.add_lt_add_left hd _⟩

/-- The byte after a stored half-word is kept. -/
theorem read1b_after_half (ho : o = .sh) :
    let addr := M.prim.self.reg (regNum rs1) + offset.signExtend 32
    (M.primCycle FunctionalCore.methods).machine.mem.read1b .primary (o.writeAddr addr + 2) =
      M.mem.read1b .primary (o.writeAddr addr + 2) := by
  intro addr
  have hlane : (o.writeAddr addr).toNat % 4 + o.size ≤ 4 := o.writeAddr_lane addr
  have hsize : o.size = 2 := by
    rw [ho]
    rfl
  rw [read1b_primCycle_store hready hstore, if_neg]
  rintro ⟨-, hlow, hhigh⟩
  change (o.writeAddr addr).toNat % 4 ≤ _ at hlow
  change _ < (o.writeAddr addr).toNat % 4 + o.size at hhigh
  bv_omega

/-- The bytes that a load of the same width reads are the stored ones exactly when it reads them
back. -/
theorem bytesFrom_readAddr_iff {o' : LoadOp} (hsize : o'.size = o.size) :
    let addr := M.prim.self.reg (regNum rs1) + offset.signExtend 32
    let data := M.prim.self.reg (regNum rs2)
    (∀ d < o'.size,
      (M.primCycle FunctionalCore.methods).machine.mem.bytesFrom (o'.readAddr addr) d =
        data.extractLsb' (8 * d) 8) ↔ M.ReadsBack o addr data := by
  intro addr data
  rw [ReadsBack]
  by_cases hodd : o = .sh ∧ addr.toNat % 2 = 1
  · obtain ⟨ho, hodd⟩ := hodd
    have hclear : (addr &&& ~~~(0x1 : Word)).toNat = addr.toNat - addr.toNat % 2 :=
      BitFields.toNat_and_not_low addr 1
    have hlow : addr = o.writeAddr addr + 1 := by
      rw [ho, StoreOp.writeAddr]
      bv_omega
    have hread : o'.readAddr addr = addr := by
      rw [ho] at hsize
      cases o' with
      | lh | lhu => rfl
      | lb | lbu | lw => cases hsize
    have hnext : addr + 1 = o.writeAddr addr + 2 := by bv_omega
    have hfirst : (M.primCycle FunctionalCore.methods).machine.mem.bytesFrom addr 0 =
        data.extractLsb' 8 8 := by
      have hbyte := bytesFrom_writeAddr hready hstore (d := 1) (by rw [ho]; decide)
      rw [← hbyte, Memory.bytesFrom, Memory.bytesFrom]
      exact congrArg _ (by rw [BitVec.add_zero]; exact hlow)
    have hsecond : (M.primCycle FunctionalCore.methods).machine.mem.bytesFrom addr 1 =
        M.mem.read1b .primary (addr + 1) := by
      rw [hnext]
      exact (congrArg _ hnext).trans (read1b_after_half hready hstore ho)
    have htwo : o'.size = 2 := by
      rw [hsize, ho]
      rfl
    rw [htwo, hread, forall_lt_two, hfirst, hsecond]
    simp only [ho, hodd, true_imp_iff, Nat.mul_zero, Nat.mul_one]
  · have haddr : o'.readAddr addr = o.writeAddr addr :=
      LoadOp.readAddr_eq_writeAddr hsize fun ho =>
        (Nat.mod_two_eq_zero_or_one _).resolve_right fun h => hodd ⟨ho, h⟩
    rw [haddr]
    refine iff_of_true (fun d hd => ?_) fun ho h => absurd ⟨ho, h⟩ hodd
    exact bytesFrom_writeAddr hready hstore (hsize ▸ hd)

end Store

/-- A store followed by a load of the same width from the same effective address returns the low
part of the stored register, extended, exactly when the load reads the stored value back. -/
theorem load_after_store_iff (hready : FunctionalCore.ready M.prim = true) {o : StoreOp}
    {o' : LoadOp} (hsize : o'.size = o.size) {rs1 rs2 rd rs1' : BitVec 5}
    {offset offset' : BitVec 12}
    (hstore : FunctionalCore.fetch M.mem.read M.prim = (Instr.store o rs1 rs2 offset).encode) :
    let M' := (M.primCycle FunctionalCore.methods).machine
    let addr := M.prim.self.reg (regNum rs1) + offset.signExtend 32
    FunctionalCore.fetch M'.mem.read M'.prim = (Instr.load o' rd rs1' offset').encode →
    M'.prim.self.reg (regNum rs1') + offset'.signExtend 32 = addr →
    (M'.Returns rd (o'.extend (M.prim.self.reg (regNum rs2))) ↔
      M.ReadsBack o addr (M.prim.self.reg (regNum rs2))) := by
  intro M' addr hload haddr
  obtain ⟨-, -, -, hready', -, -⟩ := primCycle_store hready hstore
  obtain ⟨hdriven, hreg, -, hresult, -⟩ := primCycle_load hready' hload
  have hvalue : (o'.value (M'.mem.bytesFrom (o'.readAddr addr)) =
      o'.extend (M.prim.self.reg (regNum rs2))) ↔ _ :=
    (o'.value_eq_extend_iff _ _).trans (bytesFrom_readAddr_iff hready hstore hsize)
  rw [← hvalue]
  rw [haddr] at hresult hreg
  refine ⟨fun h => hresult.symm.trans h.result, fun h => ⟨hdriven, hresult.trans h, fun hrd => ?_⟩⟩
  have hne : regNum rd ≠ regZero := fun heq => hrd (BitVec.eq_of_toNat_eq (congrArg Fin.val heq))
  rw [hreg, Function.update_of_ne hne, Function.update_self]
  exact h

end Machine

/-- A word stored at an unaligned address is loaded back from it. -/
theorem unaligned_word_returned :
    let M := playbackMachine [0x002120a3, 0x00112083] []
    let M' := (M.primCycle FunctionalCore.methods).machine
    M'.Returns 1 0x001e6400 := by
  intro M M'
  have hstore : FunctionalCore.fetch M.mem.read M.prim =
      (Instr.store .sw 2 2 1).encode := by
    decide +kernel
  have hload : FunctionalCore.fetch M'.mem.read M'.prim = (Instr.load .lw 1 2 1).encode := by
    decide +kernel
  have haddr : M'.prim.self.reg (regNum 2) + (1#12).signExtend 32 =
      M.prim.self.reg (regNum 2) + (1#12).signExtend 32 := by
    decide +kernel
  exact (Machine.load_after_store_iff rfl (by decide) hstore hload haddr).mpr fun h => by cases h

/-- A half-word stored at an odd address comes back without its low byte. -/
theorem odd_half_lost :
    let M := playbackMachine [0x002110a3, 0x00115083] []
    let M' := (M.primCycle FunctionalCore.methods).machine
    FunctionalCore.ready M.prim = true ∧
      FunctionalCore.fetch M.mem.read M.prim = (Instr.store .sh 2 2 1).encode ∧
      FunctionalCore.fetch M'.mem.read M'.prim = (Instr.load .lhu 1 2 1).encode ∧
      M'.prim.self.reg (regNum 2) = M.prim.self.reg (regNum 2) ∧
      ¬M'.Returns 1 (LoadOp.lhu.extend (M.prim.self.reg (regNum 2))) := by
  intro M M'
  refine ⟨rfl, ?_, ?_, ?_, fun h => ?_⟩
  · decide +kernel
  · decide +kernel
  · decide +kernel
  · have hlost : (M'.primCycle FunctionalCore.methods).machine.prim.instif.result ≠
        LoadOp.lhu.extend (M.prim.self.reg (regNum 2)) := by
      decide +kernel
    exact hlost h.result

end VeriCross
