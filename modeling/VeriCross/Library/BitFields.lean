import Mathlib.Data.BitVec

/-!
# Fields of bit vectors

A shift followed by a low mask reads a contiguous field, and masking with a power of two
tests one bit. These rules turn the shift-and-mask idiom of C sources into `extractLsb'` and
`getLsbD`, at every width.
-/

namespace BitFields

variable {w : ℕ}

/-- Shifting right and keeping the low `n` bits reads the `n`-bit field at the shift amount. -/
theorem ushiftRight_and_low (x : BitVec w) (start n : ℕ) :
    (x >>> start) &&& BitVec.ofNat w (2 ^ n - 1) = (x.extractLsb' start n).setWidth w := by
  apply BitVec.eq_of_getLsbD_eq
  intro i hi
  simp only [BitVec.getLsbD_and, BitVec.getLsbD_ushiftRight, BitVec.getLsbD_ofNat, hi,
    BitVec.getLsbD_setWidth, BitVec.getLsbD_extractLsb', Nat.testBit_two_pow_sub_one]
  simp [Bool.and_comm]

/-- Keeping the low `n` bits reads the field at position zero. -/
theorem and_low (x : BitVec w) (n : ℕ) :
    x &&& BitVec.ofNat w (2 ^ n - 1) = (x.extractLsb' 0 n).setWidth w := by
  simpa using ushiftRight_and_low x 0 n

/-- Keeping the low `n` bits takes the remainder by `2 ^ n`. -/
theorem toNat_and_low (x : BitVec w) (n : ℕ) (hn : n ≤ w) :
    (x &&& BitVec.ofNat w (2 ^ n - 1)).toNat = x.toNat % 2 ^ n := by
  have hle : 2 ^ n ≤ 2 ^ w := Nat.pow_le_pow_right (by decide) hn
  have hpos : 0 < 2 ^ n := Nat.two_pow_pos n
  rw [BitVec.toNat_and, BitVec.toNat_ofNat, Nat.mod_eq_of_lt (by omega),
    Nat.and_two_pow_sub_one_eq_mod]

/-- Clearing the low `n` bits takes the remainder by `2 ^ n` away. -/
theorem toNat_and_not_low (x : BitVec w) (n : ℕ) :
    (x &&& ~~~BitVec.ofNat w (2 ^ n - 1)).toNat = x.toNat - x.toNat % 2 ^ n := by
  have hshift : x &&& ~~~BitVec.ofNat w (2 ^ n - 1) = (x >>> n) <<< n := by
    apply BitVec.eq_of_getLsbD_eq
    intro i hi
    rw [BitVec.getLsbD_and, BitVec.getLsbD_not, BitVec.getLsbD_ofNat,
      Nat.testBit_two_pow_sub_one, BitVec.getLsbD_shiftLeft, BitVec.getLsbD_ushiftRight]
    by_cases hlow : i < n
    · simp [hi, hlow]
    · have hback : n + (i - n) = i := by omega
      simp [hi, hlow, hback]
  have hlt : x.toNat / 2 ^ n * 2 ^ n < 2 ^ w := (Nat.div_mul_le_self ..).trans_lt x.isLt
  rw [hshift, BitVec.toNat_shiftLeft, BitVec.toNat_ushiftRight, Nat.shiftLeft_eq,
    Nat.shiftRight_eq_div_pow, Nat.mod_eq_of_lt hlt]
  exact Nat.eq_sub_of_add_eq (Nat.div_add_mod' ..)

/-- Clearing the low `n` bits of a multiple of `2 ^ n` changes nothing. -/
theorem and_not_low_of_aligned (x : BitVec w) (n : ℕ) (h : x.toNat % 2 ^ n = 0) :
    x &&& ~~~BitVec.ofNat w (2 ^ n - 1) = x := by
  apply BitVec.eq_of_toNat_eq
  rw [toNat_and_not_low, h, Nat.sub_zero]

/-- Masking with a power of two tests a single bit. -/
theorem and_twoPow_ne_zero (x : BitVec w) (k : ℕ) :
    x &&& BitVec.twoPow w k ≠ 0 ↔ x.getLsbD k = true := by
  rw [BitVec.and_twoPow]
  by_cases h : x.getLsbD k
  · have hk : k < w := BitVec.lt_of_getLsbD h
    simp only [h, if_true, iff_true]
    intro hzero
    simpa [hk] using congrArg (BitVec.getLsbD · k) hzero
  · simp [h]

/-- Setting the high bits of a negative number extends its sign. -/
theorem or_high_eq_signExtend {v : ℕ} (x : BitVec w) (hw : 0 < w) (hv : w ≤ v) :
    (x.setWidth v ||| if x.setWidth v &&& BitVec.twoPow v (w - 1) ≠ 0 then
      ~~~BitVec.ofNat v (2 ^ w - 1) else 0) = x.signExtend v := by
  have hsign : (x.setWidth v).getLsbD (w - 1) = x.msb := by
    rw [BitVec.getLsbD_setWidth, BitVec.msb_eq_getLsbD_last, decide_eq_true (by omega),
      Bool.true_and]
  simp only [and_twoPow_ne_zero, hsign]
  apply BitVec.eq_of_getLsbD_eq
  intro i hi
  rw [BitVec.getLsbD_or, BitVec.getLsbD_setWidth, BitVec.getLsbD_signExtend,
    apply_ite (BitVec.getLsbD · i), BitVec.getLsbD_not, BitVec.getLsbD_ofNat,
    Nat.testBit_two_pow_sub_one]
  by_cases hlow : i < w
  · simp [hi, hlow]
  · simp [hi, hlow, BitVec.getLsbD_of_ge x i (by omega)]

/-- A field of a field is a field of the whole. -/
theorem extractLsb'_extractLsb' (x : BitVec w) (outer width start n : ℕ) (h : start + n ≤ width) :
    (x.extractLsb' outer width).extractLsb' start n = x.extractLsb' (outer + start) n := by
  ext i hi
  have hin : start + i < width := by omega
  simp only [BitVec.getElem_extractLsb', BitVec.getLsbD_extractLsb', hin, decide_true,
    Bool.true_and, Nat.add_assoc]

/-- Widening to a larger width loses nothing. -/
theorem setWidth_inj {v : ℕ} (h : w ≤ v) {x y : BitVec w} :
    x.setWidth v = y.setWidth v ↔ x = y := by
  refine ⟨fun heq => ?_, fun heq => heq ▸ rfl⟩
  have hcut := congrArg (BitVec.setWidth w) heq
  simpa [BitVec.setWidth_setWidth_of_le _ h] using hcut

/-- Extending the sign loses nothing. -/
theorem signExtend_inj {v : ℕ} (h : w ≤ v) {x y : BitVec w} :
    x.signExtend v = y.signExtend v ↔ x = y := by
  refine ⟨fun heq => ?_, fun heq => heq ▸ rfl⟩
  have hcut : ∀ z : BitVec w, (z.signExtend v).setWidth w = z := by
    intro z
    apply BitVec.eq_of_getLsbD_eq
    intro i hi
    rw [BitVec.getLsbD_setWidth, BitVec.getLsbD_signExtend, decide_eq_true hi,
      decide_eq_true (by omega), if_pos hi, Bool.true_and, Bool.true_and]
  rw [← hcut x, heq, hcut]

/-- Two parts determine the whole. -/
theorem append_inj {v : ℕ} {x x' : BitVec v} {y y' : BitVec w} :
    x ++ y = x' ++ y' ↔ y = y' ∧ x = x' := by
  refine ⟨fun h => ?_, fun ⟨hy, hx⟩ => hy ▸ hx ▸ rfl⟩
  have hlow := congrArg (BitVec.extractLsb' 0 w) h
  have hhigh := congrArg (BitVec.extractLsb' w v) h
  rw [BitVec.extractLsb'_append_eq_right, BitVec.extractLsb'_append_eq_right] at hlow
  rw [BitVec.extractLsb'_append_eq_left, BitVec.extractLsb'_append_eq_left] at hhigh
  exact ⟨hlow, hhigh⟩

end BitFields
