import VeriCross.Loader.Image
import VeriCross.RiscV.Execution
import Mathlib.Tactic.IntervalCases

/-!
# The boot jump

The first instruction is a jump that the loader encodes from the distance to `_start`, and the
three sections share the memory, whose word indices wrap around. The loader checks neither that
the encoding can hold the distance nor that the sections lie apart. The exact addresses and
sizes under which a valid load boots are given.
-/

namespace VeriCross

open PrivateMemory

variable {numReps : ℕ}

/-! The jump. -/

/-- The boot jump is the standard encoding of a `jal` that links nothing. -/
theorem Loader.makeJal_eq_encode (imm : Word) :
    makeJal imm = (Instr.jal 0 (imm.extractLsb' 1 20)).encode := by
  apply BitVec.eq_of_getLsbD_eq
  intro i hi
  rw [makeJal, Instr.encode, layoutUpper]
  simp only [BitVec.getLsbD_append, BitVec.getLsbD_extractLsb', BitVec.getLsbD_or,
    BitVec.getLsbD_and, BitVec.getLsbD_shiftLeft]
  interval_cases i <;> simp

/-- The distance from the initial program counter fits into a `jal`: it is even and in the range
of its offset. -/
def JumpReaches (startAddr : Word) : Prop :=
  (startAddr - initialPc).toNat % 2 = 0 ∧ -2 ^ 20 ≤ (startAddr - initialPc).toInt ∧
    (startAddr - initialPc).toInt < 2 ^ 20

instance (startAddr : Word) : Decidable (JumpReaches startAddr) :=
  inferInstanceAs (Decidable (_ ∧ _ ∧ _))

/-- A `jal` to a distance goes there exactly when the distance fits. -/
theorem jumpReaches_iff (startAddr : Word) :
    initialPc + (((startAddr - initialPc).extractLsb' 1 20) ++ 0#1).signExtend 32 = startAddr ↔
      JumpReaches startAddr := by
  have hsub : ∀ offset : Word, initialPc + offset = startAddr ↔ offset = startAddr - initialPc := by
    intro offset
    rw [BitVec.eq_sub_iff_add_eq, BitVec.add_comm]
  rw [hsub, JumpReaches]
  generalize startAddr - initialPc = offset
  have hlt := offset.isLt
  rw [← BitVec.toInt_inj, BitVec.toInt_signExtend_of_le (by decide), BitVec.toInt_append_zero,
    BitVec.toInt_extractLsb', BitVec.toInt_eq_toNat_bmod, Nat.shiftRight_eq_div_pow, Int.bmod_def,
    Int.bmod_def]
  omega

/-- The functional core executes a `jal` that links nothing and goes to the given address. -/
structure JumpsTo (read : PublicRead) (c : Core FunctionalState) (target : Word) : Prop where
  driven : (FunctionalCore.drive read c).1 = true
  jal : (FunctionalCore.instruction read c).instrId = .jal
  rd : (FunctionalCore.instruction read c).rd = 0
  pc : (FunctionalCore.drive read c).2.self.pc = target

/-- The jump that the loader made, fetched from the initial program counter, goes to `_start`
exactly when the distance fits. -/
theorem jumpsTo_iff {read : PublicRead} {c : Core FunctionalState}
    (hready : FunctionalCore.ready c = true) (hpc : c.self.pc = initialPc) (startAddr : Word)
    (hfetch : FunctionalCore.fetch read c = Loader.makeJal (startAddr - initialPc)) :
    JumpsTo read c startAddr ↔ JumpReaches startAddr := by
  have hinst : FunctionalCore.instruction read c = RiscVInstruction.decode c.self.pc
      (Instr.jal 0 ((startAddr - initialPc).extractLsb' 1 20)).encode := by
    rw [FunctionalCore.instruction, hfetch, Loader.makeJal_eq_encode]
  have hx := execute_control read c.self.pc c.self.reg (FunctionalCore.start c).memif
    (i := .jal 0 ((startAddr - initialPc).extractLsb' 1 20)) rfl (by simp)
  have hid := Instr.instrId_decode (.jal 0 ((startAddr - initialPc).extractLsb' 1 20)) c.self.pc
  have hrd := Instr.operandsOf_decode (.jal 0 ((startAddr - initialPc).extractLsb' 1 20)) c.self.pc
  rw [← hinst] at hx hid hrd
  have hdrive := FunctionalCore.drive_of_execute hready hx
  have hnext : (FunctionalCore.drive read c).2.self.pc = initialPc +
      (((startAddr - initialPc).extractLsb' 1 20) ++ 0#1).signExtend 32 := by
    rw [hdrive, ← hpc]
    rfl
  rw [← jumpReaches_iff, ← hnext]
  exact ⟨fun h => h.pc, fun h => ⟨by rw [hdrive], hid, hrd, h⟩⟩

/-! The sections. -/

/-- The words of the memory that a section occupies. -/
def Section.Occupies (m : Memory numReps) (s : Section) (w : Word) : Prop :=
  Covers m.wordAddr s.addr s.length.toNat w

/-- The words that a section occupies, by their numbers around the memory: they start at the
word of its address. -/
theorem Section.occupies_iff {m : Memory numReps} (hnw : m.nwords = memWords) (s : Section)
    (w : Word) :
    s.Occupies m w ↔ w.toNat < 0x80000 ∧ s.length.toNat ≠ 0 ∧
      (w.toNat + 0x80000 - s.addr.toNat / 4 % 0x80000) % 0x80000 <
        (s.addr.toNat % 4 + s.length.toNat + 3) / 4 := by
  have hcell : ∀ addr : Word, m.wordAddr addr = w ↔ addr.toNat / 4 % 0x80000 = w.toNat := by
    intro addr
    have hpow : m.nwords.toNat = 2 ^ 19 := by
      rw [hnw]
      rfl
    have hindex := toNat_index hpow addr
    rw [← BitVec.toNat_inj]
    exact Eq.congr_left hindex
  obtain ⟨addr, length, data⟩ := s
  simp only [Occupies, Covers, hcell]
  generalize length.toNat = size
  have hlt := addr.isLt
  constructor
  · rintro ⟨d, hd, hw⟩
    rw [BitVec.toNat_add, BitVec.toNat_ofNat] at hw
    omega
  · rintro ⟨hw, hsize, hin⟩
    -- the first byte of the word, or the first byte of the section
    refine ⟨4 * ((w.toNat + 0x80000 - addr.toNat / 4 % 0x80000) % 0x80000) - addr.toNat % 4, ?_, ?_⟩
    · omega
    · rw [BitVec.toNat_add, BitVec.toNat_ofNat]
      omega

/-- The sections lie apart. Words are counted around the memory from the one after the jump: the
stack starts at word `0x758ff` and must end before the jump, and the binary, unless it is empty,
must lie before or after the stack. -/
def SectionsApart (textAddr size : Word) (stackCount : ℕ) : Prop :=
  let first := (textAddr.toNat / 4 + 0x80000 - 0x4001) % 0x80000
  let count := (textAddr.toNat % 4 + size.toNat + 3) / 4
  stackCount ≤ 0xa700 ∧
    (size.toNat = 0 ∨ first + count ≤ 0x758ff ∨
      (0x758ff + stackCount ≤ first ∧ first + count ≤ 0x7ffff))

instance (textAddr size : Word) (stackCount : ℕ) :
    Decidable (SectionsApart textAddr size stackCount) :=
  inferInstanceAs (Decidable (_ ∧ (_ ∨ _ ∨ (_ ∧ _))))

/-- The sections of a loader occupy different words exactly when they lie apart. -/
theorem sectionsApart_iff {m : Memory numReps} (hnw : m.nwords = memWords) (textAddr size : Word)
    (image stack jump : List Word) {stackCount : ℕ} (hpos : 0 < stackCount)
    (hsmall : stackCount < 2 ^ 29) :
    ([⟨textAddr, size, image⟩, ⟨initialSp, BitVec.ofNat 32 (4 * stackCount), stack⟩,
        ⟨initialPc, 4, jump⟩].Pairwise fun s t : Section =>
          ∀ w, ¬(s.Occupies m w ∧ t.Occupies m w)) ↔
      SectionsApart textAddr size stackCount := by
  have hlength : (BitVec.ofNat 32 (4 * stackCount)).toNat = 4 * stackCount := by
    rw [BitVec.toNat_ofNat]
    omega
  have hsp : initialSp.toNat = 0x1e6400 := rfl
  have hpc : initialPc.toNat = 0x10000 := rfl
  have hfour : (4 : Word).toNat = 4 := rfl
  have htext := textAddr.isLt
  simp only [List.pairwise_cons, List.mem_cons, List.not_mem_nil, or_false, forall_eq_or_imp,
    forall_eq, Section.occupies_iff hnw, hlength, hsp, hpc, hfour, false_implies, implies_true,
    and_true, List.Pairwise.nil, SectionsApart]
  constructor
  · rintro ⟨⟨hstack, hjump⟩, hboth⟩
    -- the word of the jump, the first word of the stack and the first word of the binary
    have hat : (BitVec.ofNat 32 (textAddr.toNat / 4 % 0x80000)).toNat =
        textAddr.toNat / 4 % 0x80000 := by
      rw [BitVec.toNat_ofNat]
      omega
    have hboth' := hboth 0x4000#32
    have hjump' := hjump 0x4000#32
    have hstack' := hstack 0x79900#32
    have hstack'' := hstack (BitVec.ofNat 32 (textAddr.toNat / 4 % 0x80000))
    rw [hat] at hstack''
    simp only [BitVec.toNat_ofNat] at hboth' hjump' hstack'
    omega
  · rintro ⟨hstack, himage⟩
    refine ⟨⟨fun w => ?_, fun w => ?_⟩, fun w => ?_⟩
    · omega
    · omega
    · omega

/-! The start of the program. -/

/-- The sections of the loader occupy different words of the memory, and the first instruction
jumps to `_start`. -/
structure Boots {β : Type} (M : Machine numReps FunctionalState β) (ld : Loader)
    (startAddr : Word) : Prop where
  apart : ld.sections.Pairwise fun s t => ∀ w, ¬(s.Occupies M.mem w ∧ t.Occupies M.mem w)
  jumps : JumpsTo M.mem.read M.prim startAddr

/-- The first instruction word is the jump of the loader, which is written last. -/
theorem fetch_boot {β : Type} {binFile dumpFile spFile : String} {files : LoaderFiles}
    {ld : Loader} (hnew : Loader.new binFile dumpFile spFile files = some ld)
    (hvalid : ld.valid = true) {bin : List Byte} {dump sp : List Char}
    (hbin : files.bin = some bin) (hdump : files.dump = some dump) (hsp : files.sp = some sp)
    (instif : CoreInstructionIF) (memif : CoreMemoryIF) (reps : Fin numReps → Core β)
    (ifPrim : CoreMemoryIF) (ifReps : Fin numReps → CoreMemoryIF) :
    let M := boot instif memif reps ifPrim ifReps ld.sections ld.brkAddr
    FunctionalCore.fetch M.mem.read M.prim =
      Loader.makeJal (Loader.startAddr dump - initialPc) := by
  obtain ⟨-, hagree⟩ := agree_boot instif memif reps ifPrim ifReps ld.sections ld.brkAddr
  rw [Loader.loadBytes_new hnew hvalid hbin hdump hsp] at hagree
  have hlength : (wordBytes (Loader.makeJal (Loader.startAddr dump - initialPc))).length = 4 := rfl
  have hread := Memory.read_of_bytes hagree initialPc
    (wordBytes (Loader.makeJal (Loader.startAddr dump - initialPc)))
    fun i hi => storeBytes_getElem (by decide) (hlength.trans_le (by decide)) hi
  exact (congrArg bytesWord hread).trans (bytesWord_wordBytes _)

/-- A valid load boots exactly when its sections lie apart and the jump reaches `_start`. -/
theorem boots_iff {β : Type} (binFile dumpFile spFile : String) (files : LoaderFiles)
    {ld : Loader} (hnew : Loader.new binFile dumpFile spFile files = some ld)
    (hvalid : ld.valid = true) {bin : List Byte} {dump sp : List Char}
    (hbin : files.bin = some bin) (hdump : files.dump = some dump) (hsp : files.sp = some sp)
    (instif : CoreInstructionIF) (memif : CoreMemoryIF) (reps : Fin numReps → Core β)
    (ifPrim : CoreMemoryIF) (ifReps : Fin numReps → CoreMemoryIF) :
    Boots (boot instif memif reps ifPrim ifReps ld.sections ld.brkAddr) ld
        (Loader.startAddr dump) ↔
      SectionsApart (Loader.textAddr dump) (Loader.binSize bin) (Loader.stackWords sp).length ∧
        JumpReaches (Loader.startAddr dump) := by
  obtain ⟨hpos, hsmall, hsections, -⟩ := Loader.new_valid hnew hvalid hbin hdump hsp
  have hfetch := fetch_boot hnew hvalid hbin hdump hsp instif memif reps ifPrim ifReps
  have hjumps := jumpsTo_iff rfl rfl _ hfetch
  obtain ⟨hwords, -⟩ := agree_boot instif memif reps ifPrim ifReps ld.sections ld.brkAddr
  have hapart := sectionsApart_iff hwords (Loader.textAddr dump) (Loader.binSize bin)
    (Loader.imageWords (bin.take (Loader.binSize bin).toNat)) (Loader.stackWords sp)
    [Loader.makeJal (Loader.startAddr dump - initialPc)] (by omega) hsmall
  rw [← hsections] at hapart
  exact ⟨fun h => ⟨hapart.mp h.apart, hjumps.mp h.jumps⟩,
    fun h => ⟨hapart.mpr h.1, hjumps.mpr h.2⟩⟩

/-- A binary of one word boots. -/
theorem word_boots :
    let dump := "00010010 <_start>:\n".toList
    let sp := "00000001\n001e6410\n00000000\n00000000\n".toList
    let files : LoaderFiles := ⟨none, some [0x6f, 0, 0, 0], some dump, some sp⟩
    let idle : CoreMemoryIF := ⟨0, 0, 0, 0, 0, 0, 0, 0, 0⟩
    let reps : Fin 0 → Core Unit := Fin.elim0
    ∃ ld, Loader.new "a.bin" "a.objdump" "a_sp.txt" files = some ld ∧
      Boots (boot ⟨0, 0, 0, 0, 0, 0, 0, 0, 0⟩ idle reps idle Fin.elim0
        ld.sections ld.brkAddr) ld (Loader.startAddr dump) :=
  ⟨_, rfl, (boots_iff "a.bin" "a.objdump" "a_sp.txt" ⟨none, some [0x6f, 0, 0, 0], some _,
    some "00000001\n001e6410\n00000000\n00000000\n".toList⟩ rfl rfl rfl rfl rfl _ _ _ _ _).mpr
    ⟨by decide, by decide⟩⟩

/-- A program at a distance of `2 ^ 20` is out of range of the jump, which goes back instead. -/
theorem far_start_missed :
    let dump := "00110000 <_start>:\n".toList
    let sp := "00000001\n001e6410\n00000000\n00000000\n".toList
    let files : LoaderFiles := ⟨none, some [0x6f, 0, 0, 0], some dump, some sp⟩
    let idle : CoreMemoryIF := ⟨0, 0, 0, 0, 0, 0, 0, 0, 0⟩
    let reps : Fin 0 → Core Unit := Fin.elim0
    ∃ ld, Loader.new "a.bin" "a.objdump" "a_sp.txt" files = some ld ∧ ld.valid = true ∧
      Loader.startAddr dump = 0x00110000 ∧
      ¬Boots (boot ⟨0, 0, 0, 0, 0, 0, 0, 0, 0⟩ idle reps idle Fin.elim0
        ld.sections ld.brkAddr) ld (Loader.startAddr dump) :=
  ⟨_, rfl, rfl, by decide, fun h => absurd h.jumps.pc (by decide +kernel)⟩

end VeriCross
