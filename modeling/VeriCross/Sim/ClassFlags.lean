import VeriCross.Sim.DataAccess

/-!
# The class flags of the decoder

The logger and the validator classify an instruction by the attribute bits that the decoder sets,
while the functional core executes it by its identifier. For every known instruction the bits say
what the core does: which data access it requests, how many lanes it stores and whether it writes
a register. A refused word leaves registers, counters and memory alone.
-/

namespace VeriCross

open RiscV

/-- The part of an attribute that describes the logged effect. -/
def RiscV.logMask : Word := 0x01f8

/-- The logged effect of an instruction. -/
def InstrId.logFlags : InstrId → Word
  | lb => logRd ||| logLd1b ||| logLdsgn
  | lh => logRd ||| logLd2b ||| logLdsgn
  | lw => logRd ||| logLd4b
  | lbu => logRd ||| logLd1b
  | lhu => logRd ||| logLd2b
  | sb => logSt1b
  | sh => logSt2b
  | sw => logSt4b
  | unknown | beq | bne | blt | bge | bltu | bgeu | fence | fencei | ecall | ebreak | mret | wfi =>
    logNone
  | _ => logRd

/-- The dispatch gives every known instruction the flags of its effect. -/
theorem classify_logFlags (op funct3 funct7 immI : Word) :
    (classify op funct3 funct7 immI).1 ≠ .unknown →
      (classify op funct3 funct7 immI).2 &&& logMask =
        (classify op funct3 funct7 immI).1.logFlags := by
  have hentries : ∀ e ∈ dispatchEntries, e.1 ≠ .unknown → e.2 &&& logMask = e.1.logFlags := by
    decide +kernel
  exact hentries _ (classify_mem ..)

/-- The mask selects consecutive lanes of one word, as many as the flag of the attribute says. -/
def StoreMask (attr mask : Word) : Prop :=
  ∃ lane size, lane + size ≤ 4 ∧ mask = BitVec.ofNat 32 (2 ^ size - 1) <<< lane ∧
    (size = 1 ∧ attr &&& logStore = logSt1b ∨ size = 2 ∧ attr &&& logStore = logSt2b ∨
      size = 4 ∧ attr &&& logStore = logSt4b)

/-- What an execution leaves is what the flags of the attribute say. -/
structure Execution.MatchesFlags (x : Execution) (attr : Word) (rd : RegIndex)
    (reg : RegIndex → Word) : Prop where
  load : x.memif.dRe = 1 ↔ attr &&& logLoad ≠ 0
  store : x.memif.dWe = 1 ↔ attr &&& logStore ≠ 0
  mask : attr &&& logStore ≠ 0 → StoreMask attr x.memif.dWmask
  frame : ∀ r, r ≠ rd ∨ attr &&& logRd = 0 → x.reg r = reg r

namespace Execution

variable {reg : RegIndex → Word} {rd : RegIndex} {memif : CoreMemoryIF}

/-- An execution without a data access. -/
theorem matchesFlags_idle {attr : Word} (hre : memif.dRe = 0) (hwe : memif.dWe = 0)
    (hload : attr &&& logLoad = 0) (hstore : attr &&& logStore = 0) (npc : Word)
    {reg' : RegIndex → Word} (hframe : ∀ r, r ≠ rd ∨ attr &&& logRd = 0 → reg' r = reg r) :
    MatchesFlags ⟨reg', npc, memif, 0⟩ attr rd reg where
  load := by
    refine iff_of_false (fun h => ?_) (not_not_intro hload)
    rw [hre] at h
    exact absurd h (by decide)
  store := by
    refine iff_of_false (fun h => ?_) (not_not_intro hstore)
    rw [hwe] at h
    exact absurd h (by decide)
  mask := fun h => absurd hstore h
  frame := hframe

/-- An execution of a load. -/
theorem matchesFlags_load {attr : Word} (hwe : memif.dWe = 0) (hload : attr &&& logLoad ≠ 0)
    (hstore : attr &&& logStore = 0) (hrd : attr &&& logRd ≠ 0) (npc addr data : Word)
    (baddr : Byte) :
    MatchesFlags ⟨Function.update reg rd data, npc, memif.load addr, baddr⟩ attr rd reg where
  load := iff_of_true rfl hload
  store := by
    refine iff_of_false (fun h => ?_) (not_not_intro hstore)
    rw [show (memif.load addr).dWe = 0 from hwe] at h
    exact absurd h (by decide)
  mask := fun h => absurd hstore h
  frame := by
    rintro r (hr | hflag)
    · exact Function.update_of_ne hr ..
    · exact absurd hflag hrd

/-- An execution of a store. -/
theorem matchesFlags_store {attr : Word} (hre : memif.dRe = 0) (hload : attr &&& logLoad = 0)
    (hstore : attr &&& logStore ≠ 0) (npc addr data : Word) {mask : Word}
    (hmask : StoreMask attr mask) :
    MatchesFlags ⟨reg, npc, memif.store addr data mask, 0⟩ attr rd reg where
  load := by
    refine iff_of_false (fun h => ?_) (not_not_intro hload)
    rw [show (memif.store addr data mask).dRe = 0 from hre] at h
    exact absurd h (by decide)
  store := iff_of_true rfl hstore
  mask := fun _ => hmask
  frame := fun _ _ => rfl

end Execution

/-- Every branch of the `switch` does what the flags of its instruction say. -/
theorem execute_matchesFlags (read : PublicRead) (pc : Word) (inst : RiscVInstruction)
    (reg : RegIndex → Word) {memif : CoreMemoryIF} (hre : memif.dRe = 0) (hwe : memif.dWe = 0)
    {x : Execution} (hx : execute read pc inst reg memif = some x) :
    x.MatchesFlags inst.instrId.logFlags (regIndex inst.rd) reg := by
  have hresult : ∀ (data : Word) r, r ≠ regIndex inst.rd ∨ logRd &&& logRd = 0 →
      Function.update reg (regIndex inst.rd) data r = reg r := by
    rintro data r (hr | hflag)
    · exact Function.update_of_ne hr ..
    · exact absurd hflag (by decide)
  have hbyte : ∀ addr : Word, StoreMask logSt1b ((0x1 : Word) <<< (addr &&& 0x3).toNat) := by
    intro addr
    refine ⟨(addr &&& 0x3).toNat, 1, ?_, rfl, .inl ⟨rfl, rfl⟩⟩
    rw [toNat_and_three]
    omega
  have hhalf : ∀ addr : Word, StoreMask logSt2b ((0x3 : Word) <<< (addr &&& 0x2).toNat) := by
    intro addr
    refine ⟨(addr &&& 0x2).toNat, 2, ?_, rfl, .inr (.inl ⟨rfl, rfl⟩)⟩
    rw [toNat_and_two]
    exact StoreOp.sh.writeAddr_lane addr
  have hword : StoreMask logSt4b 0xf := ⟨0, 4, by decide, rfl, .inr (.inr ⟨rfl, rfl⟩)⟩
  unfold execute at hx
  cases hinst : inst.instrId <;> rw [hinst] at hx <;> cases hx <;>
    first
    | exact Execution.matchesFlags_idle hre hwe (by decide) (by decide) _ fun _ _ => rfl
    | exact Execution.matchesFlags_idle hre hwe (by decide) (by decide) _ (hresult _)
    | exact Execution.matchesFlags_load hwe (by decide) (by decide) (by decide) _ _ _ _
    | exact Execution.matchesFlags_store hre (by decide) (by decide) _ _ _ (hbyte _)
    | exact Execution.matchesFlags_store hre (by decide) (by decide) _ _ _ (hhalf _)
    | exact Execution.matchesFlags_store hre (by decide) (by decide) _ _ _ hword

/-- A known instruction has the flags of its effect. -/
theorem decode_logFlags (pc ir : Word) (h : (RiscVInstruction.decode pc ir).instrId ≠ .unknown) :
    (RiscVInstruction.decode pc ir).attr &&& logMask =
      (RiscVInstruction.decode pc ir).instrId.logFlags := by
  by_cases hlow : ir &&& 0x3 = 0x3
  · rw [decode_of_full pc ir hlow] at h ⊢
    exact classify_logFlags _ _ _ _ h
  · exact absurd (decode_of_short pc ir hlow) h

/-- The bits of an attribute outside the logged effect do not matter. -/
theorem Execution.MatchesFlags.congr {x : Execution} {attr : Word} {rd : RegIndex}
    {reg : RegIndex → Word} (h : x.MatchesFlags (attr &&& logMask) rd reg) :
    x.MatchesFlags attr rd reg := by
  have hload : attr &&& logMask &&& logLoad = attr &&& logLoad := BitVec.and_assoc ..
  have hstore : attr &&& logMask &&& logStore = attr &&& logStore := BitVec.and_assoc ..
  have hrd : attr &&& logMask &&& logRd = attr &&& logRd := BitVec.and_assoc ..
  obtain ⟨hre, hwe, hmask, hframe⟩ := h
  rw [hload] at hre
  rw [hstore] at hwe
  rw [hrd] at hframe
  rw [StoreMask, hstore] at hmask
  exact ⟨hre, hwe, hmask, hframe⟩

namespace FunctionalCore

/-- A successful call of `drive` does what the flags of the decoded word say. Register zero is
the only other register that it writes. -/
structure FollowsFlags (read : PublicRead) (c : Core FunctionalState) : Prop where
  load : (drive read c).2.memif.dRe = 1 ↔ (instruction read c).attr &&& logLoad ≠ 0
  store : (drive read c).2.memif.dWe = 1 ↔ (instruction read c).attr &&& logStore ≠ 0
  exclusive : ¬((drive read c).2.memif.dRe = 1 ∧ (drive read c).2.memif.dWe = 1)
  mask : (instruction read c).attr &&& logStore ≠ 0 →
    StoreMask (instruction read c).attr (drive read c).2.memif.dWmask
  frame : ∀ r, r ≠ regZero →
    r ≠ regIndex (instruction read c).rd ∨ (instruction read c).attr &&& logRd = 0 →
    (drive read c).2.self.reg r = c.self.reg r
  zero : (drive read c).2.self.reg regZero = 0

/-- A failed call of `drive` leaves the state of the core and its counters. A refused word also
leaves the interfaces without a request and without a valid record. -/
structure LeavesState (read : PublicRead) (c : Core FunctionalState) : Prop where
  self : (drive read c).2.self = c.self
  cntInst : (drive read c).2.cntInst = c.cntInst
  cntCycle : (drive read c).2.cntCycle = c.cntCycle
  refused : ready c = true → (drive read c).2.memif.dRe = 0 ∧ (drive read c).2.memif.dWe = 0 ∧
    (drive read c).2.instif.valid = 0

/-- Every successful call of `drive` follows the flags, whatever word was fetched. -/
theorem followsFlags {read : PublicRead} {c : Core FunctionalState}
    (h : (drive read c).1 = true) : FollowsFlags read c := by
  obtain ⟨hready, hknown⟩ := (drive_fst read c).mp h
  obtain ⟨x, hx⟩ := Option.ne_none_iff_exists'.mp
    (mt (execute_eq_none_iff read c.self.pc (instruction read c) c.self.reg (start c).memif).mp
      hknown)
  have hd := drive_of_execute hready hx
  have hflags := execute_matchesFlags _ _ _ _ rfl rfl hx
  rw [instruction, ← decode_logFlags _ _ hknown] at hflags
  obtain ⟨hload, hstore, hmask, hframe⟩ := hflags.congr
  have hexclusive := isLoad_of_isStore c.self.pc (fetch read c)
  have hmemif : (drive read c).2.memif = x.memif := by
    rw [hd]
    rfl
  have hreg : (drive read c).2.self.reg = Function.update x.reg regZero 0 := by
    rw [hd]
    rfl
  exact
    { load := by
        rw [hmemif]
        exact hload
      store := by
        rw [hmemif]
        exact hstore
      exclusive := by
        rw [hmemif, hload, hstore]
        rintro ⟨hl, hs⟩
        exact of_decide_eq_false (hexclusive (decide_eq_true hs)) hl
      mask := by
        rw [hmemif]
        exact hmask
      frame := by
        intro r hzero hr
        rw [hreg, Function.update_of_ne hzero]
        exact hframe r hr
      zero := by
        rw [hreg]
        exact Function.update_self .. }

/-- Every failed call of `drive` leaves the state. -/
theorem leavesState {read : PublicRead} {c : Core FunctionalState}
    (h : (drive read c).1 = false) : LeavesState read c := by
  rcases drive_cases read c with ⟨hnot, hd⟩ | ⟨-, -, hd⟩ | ⟨-, -, x, -, hd⟩
  · exact
      { self := by rw [hd]
        cntInst := by rw [hd]
        cntCycle := by rw [hd]
        refused := fun hready => absurd (hready.symm.trans hnot) Bool.true_eq_false.mp }
  · exact
      { self := by rw [hd]; rfl
        cntInst := by rw [hd]; rfl
        cntCycle := by rw [hd]; rfl
        refused := fun _ => by rw [hd]; exact ⟨rfl, rfl, rfl⟩ }
  · rw [hd] at h
    cases h

end FunctionalCore

/-- Whatever word is fetched in whatever state, a successful `drive` does what the class flags
say, up to register zero, which it clears; a failed one leaves the state, and after a refused word
the memory of the primary core stays as it is. -/
theorem classFlags_truthful {n : ℕ} {β : Type} :
    (∀ (read : PublicRead) (c : Core FunctionalState),
      ((FunctionalCore.drive read c).1 = true → FunctionalCore.FollowsFlags read c) ∧
      ((FunctionalCore.drive read c).1 = false → FunctionalCore.LeavesState read c)) ∧
    ∀ M : Machine n FunctionalState β, (FunctionalCore.drive M.mem.read M.prim).1 = false →
      FunctionalCore.ready M.prim = true → ∀ x,
      (M.primCycle FunctionalCore.methods).machine.mem.read1b .primary x =
        M.mem.read1b .primary x := by
  refine ⟨fun read c => ⟨FunctionalCore.followsFlags, FunctionalCore.leavesState⟩, ?_⟩
  intro M hfailed hready x
  have hidle := ((FunctionalCore.leavesState hfailed).refused hready).2.1
  rw [primCycle_functional]
  refine Memory.read1b_congr ?_ (Machine.nwords_memUpdate ..) x
  rw [Machine.view_memUpdate]
  exact WordMap.request_of_dWe hidle ..

/-- With one replica, the first word is a store, and a word of zeros is refused. -/
theorem reset_truthful :
    let M := playbackMachine [0x00212023] []
    let M' := playbackMachine [0x00000000] []
    FunctionalCore.FollowsFlags M.mem.read M.prim ∧
      ∀ x, (M'.primCycle FunctionalCore.methods).machine.mem.read1b .primary x =
        M'.mem.read1b .primary x := by
  intro M M'
  have hdriven : (FunctionalCore.drive M.mem.read M.prim).1 = true := by
    decide +kernel
  have hrefused : (FunctionalCore.drive M'.mem.read M'.prim).1 = false := by
    decide +kernel
  obtain ⟨hdrive, hmemory⟩ := classFlags_truthful (n := 1) (β := WrapperState Playback)
  exact ⟨(hdrive _ _).1 hdriven, hmemory M' hrefused rfl⟩

/-- A store clears a register zero that was not zero, though it writes no register by its
flags. -/
theorem store_clears_zero :
    let c := FunctionalCore.writeReg
      (FunctionalCore.bindMemory
        (FunctionalCore.new ⟨0, 0, 0, 0, 0, 0, 0, 0, 0⟩ ⟨0, 0, 0, 0, 0, 0, 0, 0, 0⟩)) regZero 5
    let read : PublicRead := fun _ _ => wordBytes 0x00212023
    (FunctionalCore.drive read c).1 = true ∧
      (FunctionalCore.instruction read c).attr &&& logRd = 0 ∧
      (FunctionalCore.drive read c).2.self.reg regZero ≠ c.self.reg regZero := by
  decide +kernel

end VeriCross
