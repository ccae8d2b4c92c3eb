import VeriCross.Memory.Locality
import Mathlib.Tactic.IntervalCases

/-!
# Words in the memory

Data is written as the bytes of its words and is read back where it was written, at any alignment,
as long as it does not go around the whole memory.
-/

namespace VeriCross

open PrivateMemory

variable {numReps : ℕ} {k : ℕ}

/-! The bytes of words. -/

/-- The bytes of a word made of four bytes. -/
theorem wordBytes_bytesWord (b0 b1 b2 b3 : Byte) :
    wordBytes (bytesWord [b0, b1, b2, b3]) = [b0, b1, b2, b3] := by
  have h0 := extractLsb'_bytesWord b0 b1 b2 b3 (show 0 < 4 by decide)
  have h1 := extractLsb'_bytesWord b0 b1 b2 b3 (show 1 < 4 by decide)
  have h2 := extractLsb'_bytesWord b0 b1 b2 b3 (show 2 < 4 by decide)
  have h3 := extractLsb'_bytesWord b0 b1 b2 b3 (show 3 < 4 by decide)
  rw [wordBytes]
  rw [h0, h1, h2, h3]
  rfl

/-- The word made of the bytes of a word. -/
theorem bytesWord_wordBytes (w : Word) : bytesWord (wordBytes w) = w := by
  apply word_ext
  intro i hi
  rw [wordBytes, extractLsb'_bytesWord _ _ _ _ hi]
  interval_cases i <;> rfl

/-- A word has four bytes. -/
theorem length_flatMap_wordBytes (words : List Word) :
    (words.flatMap wordBytes).length = 4 * words.length := by
  induction words with
  | nil => rfl
  | cons w words ih =>
    rw [List.flatMap_cons, List.length_append, ih, List.length_cons, wordBytes]
    simp only [List.length_cons, List.length_nil]
    omega

/-- A byte of a list of words. -/
theorem getElem?_flatMap_wordBytes (words : List Word) (j : ℕ) {i : ℕ} (hi : i < 4) :
    (words.flatMap wordBytes)[4 * j + i]? = words[j]?.bind fun w => (wordBytes w)[i]? := by
  induction words generalizing j with
  | nil => rfl
  | cons w words ih =>
    have hlength : (wordBytes w).length = 4 := rfl
    rw [List.flatMap_cons]
    cases j with
    | zero =>
      rw [Nat.mul_zero, Nat.zero_add, List.getElem?_append_left (by omega)]
      rfl
    | succ j =>
      rw [List.getElem?_append_right (by omega),
        show 4 * (j + 1) + i - (wordBytes w).length = 4 * j + i by omega, ih]
      rfl

/-! Written data. -/

/-- A public read returns data whose bytes are in the array that agrees with the primary. -/
theorem Memory.read_of_bytes {m : Memory numReps} {bytes : ℕ → Byte}
    (h : Agree k m.nwords (m.view none) bytes) (addr : Word) (data : List Byte)
    (hdata : ∀ i (hi : i < data.length),
      bytes (byteCell k (addr + BitVec.ofNat 32 i)) = data[i]) :
    m.read addr data.length = data := by
  rw [read_of_agree h, Int.toNat_natCast]
  apply List.ext_getElem
  · simp
  · intro i hi hi'
    rw [List.getElem_map, List.getElem_range, hdata i hi']

/-- A word of a structure at an address, by its number. -/
def Memory.wordAt (m : Memory numReps) (addr : Word) (i : ℕ) : Word :=
  bytesWord (m.read (addr + BitVec.ofNat 32 (4 * i)) 4)

/-- Words whose bytes were stored last are read back. -/
theorem Memory.wordAt_of_agree {m : Memory numReps} (hk : k ≤ 30) {bytes : ℕ → Byte} {addr : Word}
    {words : List Word} (h : Agree k m.nwords (m.view none)
      (PrivateMemory.storeBytes k bytes addr (words.flatMap wordBytes)))
    (hfits : words.length ≤ 2 ^ k) {i : ℕ} {w : Word} (hw : words[i]? = some w) :
    m.wordAt addr i = w := by
  obtain ⟨hi, rfl⟩ := List.getElem?_eq_some_iff.mp hw
  have hlength := length_flatMap_wordBytes words
  have hread := read_of_bytes h (addr + BitVec.ofNat 32 (4 * i)) (wordBytes words[i]) fun d hd => by
    have hd4 : d < 4 := hd
    have hin : 4 * i + d < (words.flatMap wordBytes).length := by omega
    have hget := getElem?_flatMap_wordBytes words i hd4
    rw [List.getElem?_eq_getElem hin, hw, Option.bind_some, List.getElem?_eq_getElem hd,
      Option.some_inj] at hget
    rw [BitVec.add_assoc, ← BitVec.ofNat_add, storeBytes_getElem hk (by omega) hin, hget]
  rw [wordAt]
  exact (congrArg bytesWord hread).trans (bytesWord_wordBytes _)

/-- A public write of words is read back word by word. -/
theorem Memory.wordAt_write {m : Memory numReps} (hk : k ≤ 30) (hnw : m.nwords.toNat = 2 ^ k)
    (addr : Word) {words : List Word} (hfits : words.length ≤ 2 ^ k) {i : ℕ} {w : Word}
    (hw : words[i]? = some w) : (m.write addr (words.flatMap wordBytes)).wordAt addr i = w := by
  have hagree := (m.agree_bytes hnw none).put hnw addr (words.flatMap wordBytes)
  rw [← m.view_write addr _ none rfl, ← m.nwords_write addr (words.flatMap wordBytes)] at hagree
  exact wordAt_of_agree hk hagree hfits hw

end VeriCross
