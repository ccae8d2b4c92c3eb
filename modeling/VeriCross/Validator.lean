import VeriCross.Memory.Model
import VeriCross.RiscV.Fields

/-!
# The validator

`validate` compares the records of the two cores after each instruction: always the program
counter and the word, then the byte address of a load, the address and the masked data of a
store, or the result of another instruction that writes a register. It compares neither the
mask of a store nor the register number, and the records it accepts although their effects
differ are exactly those that differ there.
-/

namespace VeriCross

open RiscV

/-- The members of `Validator`: what the last comparison found. -/
structure Validator where
  addressMis : Bool
  writeDataMis : Bool
  faddr : Word
  vaddr : Word
  fdata : Word
  vdata : Word
  deriving DecidableEq, Repr

/-- The byte address of a load: the aligned address with the byte offset. -/
def CoreInstructionIF.loadAddr (iif : CoreInstructionIF) : Word :=
  (iif.dAddr &&& ~~~0x3) ||| iif.dBaddr.setWidth 32

/-- The data of a store under its mask. -/
def CoreInstructionIF.maskedData (iif : CoreInstructionIF) : Word :=
  iif.dWdata &&& expandWmask iif.dWmask

namespace Validator

/-- No difference found. -/
def clear : Validator :=
  { addressMis := false, writeDataMis := false, faddr := 0, vaddr := 0, fdata := 0, vdata := 0 }

/-- Compare the records of the functional and the verilated core. -/
def validate (fif vif : CoreInstructionIF) : Bool × Validator :=
  if fif.pc ≠ vif.pc ∨ fif.ir ≠ vif.ir then (false, clear)
  else
    let info := RiscVInstruction.decode fif.pc fif.ir
    if info.isLoad then
      let addressMis := fif.loadAddr ≠ vif.loadAddr
      (!addressMis,
        { clear with addressMis := addressMis, faddr := fif.loadAddr, vaddr := vif.loadAddr })
    else if info.isStore then
      let addressMis := fif.dAddr ≠ vif.dAddr
      let writeDataMis := fif.maskedData ≠ vif.maskedData
      (!addressMis && !writeDataMis,
        { addressMis := addressMis
          writeDataMis := writeDataMis
          faddr := fif.dAddr
          vaddr := vif.dAddr
          fdata := fif.maskedData
          vdata := vif.maskedData })
    else if info.writesRd then (fif.result = vif.result, clear)
    else (true, clear)

/-- The validator accepts the pair. -/
abbrev accepts (fif vif : CoreInstructionIF) : Bool := (validate fif vif).1

end Validator

/-- Two stores change every memory in the same way. -/
def SameStore (fif vif : CoreInstructionIF) : Prop :=
  ∀ (numReps : ℕ) (m : Memory numReps) (id : CoreId numReps),
    m.writeMask id fif.dAddr fif.dWdata fif.dWmask = m.writeMask id vif.dAddr vif.dWdata vif.dWmask

/-- When the pair is accepted, the instructions are the same and so are their effects. Loads read
the same byte: the same one of the four of the same word, when the byte offsets are below four. -/
def NoMissedDivergence (fif vif : CoreInstructionIF) : Prop :=
  Validator.accepts fif vif = true →
    fif.pc = vif.pc ∧ fif.ir = vif.ir ∧
    let info := RiscVInstruction.decode fif.pc fif.ir
    (info.isStore = true → SameStore fif vif) ∧
    (info.isLoad = true → fif.loadAddr = vif.loadAddr ∧
      (fif.dBaddr.toNat < 4 → vif.dBaddr.toNat < 4 →
        fif.dAddr.toNat / 4 = vif.dAddr.toNat / 4 ∧ fif.dBaddr = vif.dBaddr)) ∧
    (info.isStore = false → info.isLoad = false → info.writesRd = true →
      fif.rd = vif.rd ∧ fif.result = vif.result)

/-- The pairs that differ only in what is not compared: stores of one address and masked data
under different masks, and register writes of one result to different registers. -/
def UncomparedDifference (fif vif : CoreInstructionIF) : Prop :=
  fif.pc = vif.pc ∧ fif.ir = vif.ir ∧
  let info := RiscVInstruction.decode fif.pc fif.ir
  ((info.isStore = true ∧ fif.dAddr = vif.dAddr ∧ fif.maskedData = vif.maskedData ∧
      expandWmask fif.dWmask ≠ expandWmask vif.dWmask) ∨
    (info.isStore = false ∧ info.isLoad = false ∧ info.writesRd = true ∧
      fif.result = vif.result ∧ fif.rd ≠ vif.rd))

/-- No entry of the dispatch is both a load and a store. -/
theorem classify_load_not_store (op funct3 funct7 immI : Word) :
    (classify op funct3 funct7 immI).2 &&& logLoad = 0 ∨
      (classify op funct3 funct7 immI).2 &&& logStore = 0 := by
  have hentries : ∀ e ∈ dispatchEntries, e.2 &&& logLoad = 0 ∨ e.2 &&& logStore = 0 := by
    decide
  exact hentries _ (classify_mem ..)

/-- No decoded instruction is both a load and a store. -/
theorem isLoad_of_isStore (pc ir : Word)
    (h : (RiscVInstruction.decode pc ir).isStore = true) :
    (RiscVInstruction.decode pc ir).isLoad = false := by
  have hstore : (RiscVInstruction.decode pc ir).attr &&& logStore ≠ 0 := of_decide_eq_true h
  apply decide_eq_false
  rw [not_not]
  unfold RiscVInstruction.decode at hstore ⊢
  split_ifs at hstore ⊢ with hlow
  · exact BitVec.zero_and
  · exact (classify_load_not_store _ _ _ _).resolve_right hstore

/-- Acceptance in terms of the compared fields. -/
theorem accepts_iff (fif vif : CoreInstructionIF) :
    Validator.accepts fif vif = true ↔
      fif.pc = vif.pc ∧ fif.ir = vif.ir ∧
      let info := RiscVInstruction.decode fif.pc fif.ir
      if info.isLoad then fif.loadAddr = vif.loadAddr
      else if info.isStore then fif.dAddr = vif.dAddr ∧ fif.maskedData = vif.maskedData
      else info.writesRd = true → fif.result = vif.result := by
  rw [Validator.accepts, Validator.validate]
  by_cases hpc : fif.pc = vif.pc
  · by_cases hir : fif.ir = vif.ir
    · simp only [hpc, hir, ne_eq, not_true_eq_false, or_self, if_false, true_and]
      split_ifs with hload hstore hrd <;> simp [*]
    · simp [hpc, hir]
  · simp [hpc]

/-- Merging masked data into a word of ones shows which bits the mask selects. -/
theorem eq_of_merge_ones {data mask data' mask' : Word} (hdata : data &&& mask = data' &&& mask')
    (hword : (0xffffffff &&& ~~~mask) ||| (data &&& mask) =
      (0xffffffff &&& ~~~mask') ||| (data' &&& mask')) : mask = mask' := by
  apply BitVec.eq_of_getLsbD_eq
  intro i hi
  have hone : (0xffffffff : Word).getLsbD i = true := by
    clear hdata hword
    revert i
    decide
  have hbit := congrArg (BitVec.getLsbD · i) hword
  have hmasked := congrArg (BitVec.getLsbD · i) hdata
  simp only [BitVec.getLsbD_or, BitVec.getLsbD_and, BitVec.getLsbD_not, hone, hi,
    decide_true] at hbit hmasked
  revert hbit hmasked
  generalize mask.getLsbD i = a
  generalize mask'.getLsbD i = b
  generalize data.getLsbD i = c
  generalize data'.getLsbD i = d
  revert a b c d
  decide

/-- Stores of one address and masked data are the same exactly when they have one mask. -/
theorem sameStore_iff {fif vif : CoreInstructionIF} (haddr : fif.dAddr = vif.dAddr)
    (hdata : fif.maskedData = vif.maskedData) :
    SameStore fif vif ↔ expandWmask fif.dWmask = expandWmask vif.dWmask := by
  unfold CoreInstructionIF.maskedData at hdata
  constructor
  · intro h
    -- on a memory full of ones the merged word shows which bytes the mask selects
    let ones : Memory 0 :=
      { Memory.new ⟨0, 0, 0, 0, 0, 0, 0, 0, 0⟩ Fin.elim0 memWords with mem := fun _ => 0xffffffff }
    have hword := congrFun (congrArg Memory.mem (h 0 ones .all)) (ones.wordAddr fif.dAddr)
    simp only [Memory.writeMask, Memory.write4b, Memory.read4b, ← haddr, if_true,
      Function.update_self] at hword
    exact eq_of_merge_ones hdata hword
  · intro hmask numReps m id
    unfold Memory.writeMask
    dsimp only
    rw [haddr, hdata, hmask]

/-- The byte address of a load names a byte of a word. -/
theorem CoreInstructionIF.toNat_loadAddr {iif : CoreInstructionIF} (h : iif.dBaddr.toNat < 4) :
    iif.loadAddr.toNat = 4 * (iif.dAddr.toNat / 4) + iif.dBaddr.toNat := by
  have hword : (iif.dAddr &&& ~~~0x3).toNat = 4 * (iif.dAddr.toNat / 4) := by
    rw [show (iif.dAddr &&& ~~~0x3).toNat = _ from BitFields.toNat_and_not_low iif.dAddr 2]
    omega
  rw [loadAddr, BitVec.toNat_or, hword, BitVec.toNat_setWidth, Nat.mod_eq_of_lt (by omega)]
  exact (Nat.two_pow_add_eq_or_of_lt (i := 2) h _).symm

/-- Loads of one byte address read one byte of one word. -/
theorem eq_of_loadAddr_eq {fif vif : CoreInstructionIF} (h : fif.loadAddr = vif.loadAddr)
    (hf : fif.dBaddr.toNat < 4) (hv : vif.dBaddr.toNat < 4) :
    fif.dAddr.toNat / 4 = vif.dAddr.toNat / 4 ∧ fif.dBaddr = vif.dBaddr := by
  have hnat := congrArg BitVec.toNat h
  rw [CoreInstructionIF.toNat_loadAddr hf, CoreInstructionIF.toNat_loadAddr hv] at hnat
  refine ⟨by omega, BitVec.eq_of_toNat_eq (by omega)⟩

/-- The validator misses no divergence exactly when the pair differs in nothing that is not
compared. -/
theorem noMissedDivergence_iff (fif vif : CoreInstructionIF) :
    NoMissedDivergence fif vif ↔ ¬UncomparedDifference fif vif := by
  rw [NoMissedDivergence, UncomparedDifference]
  rw [accepts_iff]
  dsimp only
  constructor
  · rintro h ⟨hpc, hir, hdiff⟩
    rcases hdiff with ⟨hstore, haddr, hdata, hmask⟩ | ⟨hstore, hload, hrd, hresult, hne⟩
    · have hload := isLoad_of_isStore _ _ hstore
      obtain ⟨-, -, hsame, -⟩ := h ⟨hpc, hir, by simp [hload, hstore, haddr, hdata]⟩
      exact hmask ((sameStore_iff haddr hdata).mp (hsame hstore))
    · obtain ⟨-, -, -, -, hwrite⟩ := h ⟨hpc, hir, by simp [hload, hstore, hresult]⟩
      exact hne (hwrite hstore hload hrd).1
  · rintro h ⟨hpc, hir, heffect⟩
    refine ⟨hpc, hir, fun hstore => ?_, fun hload => ?_, fun hstore hload hrd => ?_⟩
    · have hload := isLoad_of_isStore _ _ hstore
      simp only [hload, hstore, Bool.false_eq_true, if_false, if_true] at heffect
      obtain ⟨haddr, hdata⟩ := heffect
      rw [sameStore_iff haddr hdata]
      by_contra hmask
      exact h ⟨hpc, hir, .inl ⟨hstore, haddr, hdata, hmask⟩⟩
    · rw [if_pos hload] at heffect
      exact ⟨heffect, eq_of_loadAddr_eq heffect⟩
    · simp only [hload, hstore, Bool.false_eq_true, if_false] at heffect
      refine ⟨?_, heffect hrd⟩
      by_contra hne
      exact h ⟨hpc, hir, .inr ⟨hstore, hload, hrd, heffect hrd, hne⟩⟩

/-- A store of a zero byte and a store of a zero half word to the same address, both reported
for `sb zero, 0(sp)`, are accepted as one. -/
theorem accepts_zero_byte_as_zero_half :
    let fif : CoreInstructionIF := ⟨1, 0x00010000, 0x00010023, 0, 0, 0x001e6400, 0, 0x1, 0⟩
    let vif : CoreInstructionIF := ⟨1, 0x00010000, 0x00010023, 0, 0, 0x001e6400, 0, 0x3, 0⟩
    ¬NoMissedDivergence fif vif := by
  intro fif vif h
  obtain ⟨-, -, hsame, -⟩ := h (by decide)
  have hmask : SameStore fif vif ↔ _ := sameStore_iff rfl (by decide)
  exact absurd (hmask.mp (hsame (by decide))) (by decide)

end VeriCross
