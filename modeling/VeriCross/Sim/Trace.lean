import VeriCross.Memory.Words
import VeriCross.Sim.ClassFlags
import VeriCross.Sim.Single

/-!
# The instruction trace

A log entry does not copy the result of a load or the word that a store leaves: it recomputes them
from a word of memory read after the access, the byte offset, the mask and the class flags. This
gives what the functional core did, also when the entry is printed many instructions later.
-/

namespace VeriCross

open RiscV

variable {n : ℕ} {β : Type}

/-! Reading the lanes of a word. -/

/-- The word of an address does not depend on its low two bits. -/
theorem WordMap.index_clear (nw addr : Word) : index nw (addr &&& ~~~0x3) = index nw addr := by
  have hclear : (addr &&& ~~~(0x3 : Word)).toNat = addr.toNat - addr.toNat % 4 :=
    BitFields.toNat_and_not_low addr 2
  exact index_congr nw (by omega)

/-- Reading an aligned word. -/
theorem Memory.bytesWord_read (m : Memory n) {addr : Word} (haddr : addr.toNat % 4 = 0) :
    bytesWord (m.read addr 4) = m.view none (WordMap.index m.nwords addr) := by
  have hread : m.read addr 4 = wordBytes (m.read4b .primary addr) := by
    rw [read, if_pos ⟨haddr, by decide⟩]
    simp
  rw [hread, bytesWord_wordBytes, read4b_eq_view]
  rfl

/-- The word that an access at an address is made to. -/
theorem Memory.bytesWord_read_clear (m : Memory n) (addr : Word) :
    bytesWord (m.read (addr &&& ~~~0x3) 4) = m.view none (WordMap.index m.nwords addr) := by
  have hclear : (addr &&& ~~~(0x3 : Word)).toNat = addr.toNat - addr.toNat % 4 :=
    BitFields.toNat_and_not_low addr 2
  rw [m.bytesWord_read (by omega), WordMap.index_clear]

/-- Reading a byte selects it from its word. -/
theorem Memory.bytesWord_read_one (m : Memory n) (addr : Word) :
    bytesWord (m.read addr 1) =
      ((bytesWord (m.read (addr &&& ~~~0x3) 4)).extractLsb' (8 * (addr.toNat % 4)) 8).setWidth
        32 := by
  rw [m.bytesWord_read_clear, ← WordMap.getByte_eq, m.read_eq_map, ← m.read1b_primary]
  simp [bytesWord_one]

/-- Reading an aligned half-word selects it from its word. -/
theorem Memory.bytesWord_read_two (m : Memory n) {addr : Word} (haddr : addr.toNat % 2 = 0) :
    bytesWord (m.read addr 2) =
      ((bytesWord (m.read (addr &&& ~~~0x3) 4)).extractLsb' (8 * (addr.toNat % 4)) 16).setWidth
        32 := by
  have hnext : (addr + 1).toNat = addr.toNat + 1 := by bv_omega
  have hindex : WordMap.index m.nwords (addr + 1) = WordMap.index m.nwords addr :=
    WordMap.index_congr _ (by omega)
  have hread : m.read addr 2 = [m.read1b .primary addr, m.read1b .primary (addr + 1)] := by
    rw [m.read_eq_map]
    simp [List.range_succ]
  rw [hread, bytesWord_two, read1b_primary, read1b_primary, WordMap.getByte_eq, WordMap.getByte_eq,
    hindex, hnext, m.bytesWord_read_clear, show (addr.toNat + 1) % 4 = addr.toNat % 4 + 1 by omega]
  congr 1
  apply BitVec.eq_of_getLsbD_eq
  intro i hi
  rw [BitVec.getLsbD_append, BitVec.getLsbD_extractLsb', BitVec.getLsbD_extractLsb',
    BitVec.getLsbD_extractLsb']
  by_cases hlow : i < 8
  · simp [hlow, hi]
  · rw [show 8 * (addr.toNat % 4 + 1) + (i - 8) = 8 * (addr.toNat % 4) + i by omega]
    simp [hlow, hi]
    omega

/-- Storing the selected bytes again makes no difference. -/
theorem WordMap.mergeMask_mergeMask (old data mask : Word) :
    mergeMask (mergeMask old data mask) data mask =
      mergeMask old data mask := by
  rw [mergeMask, mergeMask]
  generalize expandWmask mask = bits
  apply BitVec.eq_of_getLsbD_eq
  intro i hi
  simp only [BitVec.getLsbD_or, BitVec.getLsbD_and, BitVec.getLsbD_not, hi, decide_true,
    Bool.true_and]
  cases bits.getLsbD i <;> simp

/-! The second implementation of loads and stores. -/

namespace RiscVLogInfo

variable {attr w : Word} {baddr : Byte}

/-- The result of a load of a byte. -/
theorem loadResult_byte (hwidth : attr &&& logLoad = logLd1b) :
    loadResult attr w baddr =
      let b := w.extractLsb' (8 * baddr.toNat) 8
      if attr &&& logLdsgn ≠ 0 then b.signExtend 32 else b.setWidth 32 := by
  have hone : attr &&& logLd1b ≠ 0 := by
    rw [show logLd1b = logLoad &&& logLd1b from rfl, ← BitVec.and_assoc, hwidth]
    decide
  have htwo : ¬attr &&& logLd2b ≠ 0 := by
    rw [show logLd2b = logLoad &&& logLd2b from rfl, ← BitVec.and_assoc, hwidth]
    decide
  have hlane : (w >>> (8 * baddr.toNat)) &&& 0xff =
      (w.extractLsb' (8 * baddr.toNat) 8).setWidth 32 :=
    BitFields.ushiftRight_and_low w _ 8
  unfold loadResult
  dsimp only
  rw [if_pos hwidth, if_pos hone, if_neg htwo, Nat.mul_comm, hlane, or_high_byte]

/-- The result of a load of a half-word. -/
theorem loadResult_half (hwidth : attr &&& logLoad = logLd2b) :
    loadResult attr w baddr =
      let h := w.extractLsb' (8 * baddr.toNat) 16
      if attr &&& logLdsgn ≠ 0 then h.signExtend 32 else h.setWidth 32 := by
  have hone : ¬attr &&& logLd1b ≠ 0 := by
    rw [show logLd1b = logLoad &&& logLd1b from rfl, ← BitVec.and_assoc, hwidth]
    decide
  have htwo : attr &&& logLd2b ≠ 0 := by
    rw [show logLd2b = logLoad &&& logLd2b from rfl, ← BitVec.and_assoc, hwidth]
    decide
  have hlane : (w >>> (8 * baddr.toNat)) &&& 0xffff =
      (w.extractLsb' (8 * baddr.toNat) 16).setWidth 32 :=
    BitFields.ushiftRight_and_low w _ 16
  unfold loadResult
  dsimp only
  rw [hwidth, if_neg (show ¬logLd2b = logLd1b by decide), if_pos rfl, if_neg hone, if_pos htwo,
    Nat.mul_comm, hlane, or_high_half]

/-- The result of a load of a word. -/
theorem loadResult_word (hwidth : attr &&& logLoad = logLd4b) (hsign : attr &&& logLdsgn = 0) :
    loadResult attr w 0 = w := by
  unfold loadResult
  dsimp only
  rw [hwidth, hsign, if_neg (by decide), if_neg (by decide), if_neg (by decide)]
  exact BitVec.and_allOnes

end RiscVLogInfo

/-- How many bytes an instruction accesses, or one if it accesses no data. -/
def InstrId.accessSize : InstrId → ℕ
  | lh | lhu | sh => 2
  | lw | sw => 4
  | _ => 1

/-- The data address of the next instruction is naturally aligned. -/
def FunctionalCore.Aligned (read : PublicRead) (c : Core FunctionalState) : Prop :=
  let inst := instruction read c
  (c.self.reg (regIndex inst.rs1) + inst.imm).toNat % inst.instrId.accessSize = 0

/-- The loads. -/
theorem InstrId.load_cases {i : InstrId} (h : i.logFlags &&& logLoad ≠ 0) :
    i = lb ∨ i = lh ∨ i = lw ∨ i = lbu ∨ i = lhu := by
  revert h
  cases i <;> decide

/-- The stores. -/
theorem InstrId.store_cases {i : InstrId} (h : i.logFlags &&& logStore ≠ 0) :
    i = sb ∨ i = sh ∨ i = sw := by
  revert h
  cases i <;> decide

/-- What a load leaves is what the logger recomputes. -/
theorem execute_loadResult (m : Memory n) {pc : Word} {inst : RiscVInstruction}
    {reg : RegIndex → Word} {memif : CoreMemoryIF}
    (hflags : inst.attr &&& logMask = inst.instrId.logFlags) (hload : inst.isLoad = true)
    (haligned : (reg (regIndex inst.rs1) + inst.imm).toNat % inst.instrId.accessSize = 0)
    {x : Execution} (hx : execute m.read pc inst reg memif = some x) :
    (∃ addr, x.memif = memif.load addr) ∧ x.reg (regIndex inst.rd) =
      RiscVLogInfo.loadResult inst.attr (bytesWord (m.read x.memif.dAddr 4)) x.baddr := by
  have hwidth : inst.attr &&& logLoad = inst.instrId.logFlags &&& logLoad := by
    rw [← hflags, BitVec.and_assoc]
    rfl
  have hsign : inst.attr &&& logLdsgn = inst.instrId.logFlags &&& logLdsgn := by
    rw [← hflags, BitVec.and_assoc]
    rfl
  have hthree (addr : Word) : ((addr &&& 0x3).setWidth 8).toNat = addr.toNat % 4 := by
    rw [BitVec.toNat_setWidth, toNat_and_three]
    omega
  have htwo {addr : Word} (h : addr.toNat % 2 = 0) :
      ((addr &&& 0x2).setWidth 8).toNat = addr.toNat % 4 := by
    have hclear : addr &&& ~~~0x1 = addr := BitFields.and_not_low_of_aligned addr 1 h
    rw [BitVec.toNat_setWidth, toNat_and_two, hclear]
    omega
  have hclass : inst.instrId.logFlags &&& logLoad ≠ 0 := hwidth ▸ of_decide_eq_true hload
  unfold execute at hx
  rcases InstrId.load_cases hclass with hinst | hinst | hinst | hinst | hinst <;>
    rw [hinst] at hx hwidth hsign haligned <;> cases hx <;>
    refine ⟨⟨_, rfl⟩, (Function.update_self ..).trans ?_⟩ <;> dsimp only [CoreMemoryIF.load]
  · rw [m.bytesWord_read_one, or_high_byte, RiscVLogInfo.loadResult_byte hwidth, hsign, hthree]
    rfl
  · rw [m.bytesWord_read_two haligned, or_high_half, RiscVLogInfo.loadResult_half hwidth, hsign,
      htwo haligned]
    rfl
  · exact (RiscVLogInfo.loadResult_word hwidth hsign).symm
  · rw [m.bytesWord_read_one, RiscVLogInfo.loadResult_byte hwidth, hsign, hthree]
    rfl
  · rw [m.bytesWord_read_two haligned, RiscVLogInfo.loadResult_half hwidth, hsign, htwo haligned]
    rfl

/-- A store is only put on the memory interface. -/
theorem execute_storeRequest {read : PublicRead} {pc : Word} {inst : RiscVInstruction}
    {reg : RegIndex → Word} {memif : CoreMemoryIF}
    (hflags : inst.attr &&& logMask = inst.instrId.logFlags) (hstore : inst.isStore = true)
    {x : Execution} (hx : execute read pc inst reg memif = some x) :
    ∃ addr data mask, x.memif = memif.store addr data mask := by
  have hclass : inst.instrId.logFlags &&& logStore ≠ 0 := by
    have h : inst.attr &&& logStore ≠ 0 := of_decide_eq_true hstore
    rw [← hflags, BitVec.and_assoc]
    exact h
  unfold execute at hx
  rcases InstrId.store_cases hclass with hinst | hinst | hinst <;>
    rw [hinst] at hx <;> cases hx <;> exact ⟨_, _, _, rfl⟩

/-- The entry, once its fields are recomputed, holds what an instruction left: its register if it
has one other than register zero, and the word stored to. -/
structure RiscVLogInfo.Reports (info : RiscVLogInfo) (inst : RiscVInstruction)
    (M : Machine n FunctionalState β) : Prop where
  decoded : info.inst = some inst
  rd : info.getLog.2.iif.rd = inst.rd
  result : regIndex inst.rd ≠ regZero →
    info.getLog.2.iif.result = M.prim.self.reg (regIndex inst.rd)
  memData : inst.isStore = true →
    info.getLog.2.memData = bytesWord (M.mem.read info.getLog.2.iif.dAddr 4)

/-- Calling `getLog` simulates the access. -/
theorem RiscVLogInfo.getLog_snd {info : RiscVLogInfo} {inst : RiscVInstruction}
    (h : info.inst = some inst) : info.getLog.2 = info.simulateAccess inst := by
  unfold getLog
  rw [h]

/-- A store on the interface is carried out on its word. -/
theorem WordMap.request_store {memif : CoreMemoryIF} (hen : memif.en ≠ 0) (hre : memif.dRe = 0)
    (addr data mask nw : Word) (f : WordMap) :
    request nw (memif.store addr data mask) f =
      Function.update f (index nw addr) (mergeMask (f (index nw addr)) data mask) := by
  rw [← index_clear]
  exact if_pos ⟨hen, hre, (by decide : (1 : Word) ≠ 0)⟩

/-- The entry made of the record of an execution reports the instruction, once the memory has
carried out its request. -/
theorem reports_of_execute (m : Memory n) {M' : Machine n FunctionalState β} {pc ir : Word}
    {inst : RiscVInstruction} {reg : RegIndex → Word} {memif : CoreMemoryIF} {x : Execution}
    (hinst : RiscVInstruction.decode pc ir = inst) (hknown : inst.instrId ≠ .unknown)
    (hen : memif.en ≠ 0) (hre : memif.dRe = 0)
    (haligned : (reg (regIndex inst.rs1) + inst.imm).toNat % inst.instrId.accessSize = 0)
    (hx : execute m.read pc inst reg memif = some x)
    (hreg : M'.prim.self.reg = Function.update x.reg regZero 0)
    (hinstif : M'.prim.instif = ⟨1, pc, ir, inst.rd, x.reg (regIndex inst.rd), x.memif.dAddr,
      x.memif.dWdata, x.memif.dWmask, x.baddr⟩)
    (hview : M'.mem.view none = WordMap.request m.nwords x.memif (m.view none))
    (hnwords : M'.mem.nwords = m.nwords) :
    (RiscVLogInfo.new M'.mem.read M'.prim.instif).Reports inst M' := by
  have hflags : inst.attr &&& logMask = inst.instrId.logFlags := by
    rw [← hinst] at hknown ⊢
    exact decode_logFlags _ _ hknown
  have hresult : regIndex inst.rd ≠ regZero →
      x.reg (regIndex inst.rd) = M'.prim.self.reg (regIndex inst.rd) := by
    intro hrd
    rw [hreg, Function.update_of_ne hrd]
  rw [hinstif, RiscVLogInfo.new]
  dsimp only
  rw [if_pos (show (1 : Word) ≠ 0 by decide), hinst]
  by_cases hstore : inst.isStore = true
  · obtain ⟨addr, data, mask, hmemif⟩ := execute_storeRequest hflags hstore hx
    rw [hmemif, WordMap.request_store hen hre] at hview
    have hword : bytesWord (M'.mem.read (addr &&& ~~~0x3) 4) =
        WordMap.mergeMask (m.view none (WordMap.index m.nwords addr)) data mask := by
      rw [M'.mem.bytesWord_read_clear, hnwords, hview, Function.update_self]
    refine ⟨rfl, ?_, fun hrd => ?_, fun _ => ?_⟩ <;>
      rw [RiscVLogInfo.getLog_snd rfl, RiscVLogInfo.simulateAccess, if_pos hstore]
    · exact hresult hrd
    · dsimp only
      rw [hstore, Bool.or_true, if_pos rfl, hmemif]
      exact (congrArg (WordMap.mergeMask · data mask) hword).trans
        ((WordMap.mergeMask_mergeMask ..).trans hword.symm)
  · by_cases hload : inst.isLoad = true
    · obtain ⟨⟨addr, hmemif⟩, hvalue⟩ := execute_loadResult m hflags hload haligned hx
      rw [hmemif, WordMap.request_load] at hview
      refine ⟨rfl, ?_, fun hrd => ?_, fun h => absurd h hstore⟩ <;>
        rw [RiscVLogInfo.getLog_snd rfl, RiscVLogInfo.simulateAccess, if_neg hstore, if_pos hload]
      dsimp only
      rw [hload, Bool.true_or, if_pos rfl, Memory.read_congr hview hnwords, ← hvalue, hresult hrd]
    · refine ⟨rfl, ?_, fun hrd => ?_, fun h => absurd h hstore⟩ <;>
        rw [RiscVLogInfo.getLog_snd rfl, RiscVLogInfo.simulateAccess, if_neg hstore, if_neg hload]
      exact hresult hrd

/-- After a cycle that retires an instruction with an aligned data address, if any, the entry made
of the record reports the instruction. The replicas may have stored in between. -/
theorem reports_of_primCycle {M M' : Machine n FunctionalState β}
    (hdriven : (M.primCycle FunctionalCore.methods).driven = true)
    (haligned : FunctionalCore.Aligned M.mem.read M.prim)
    (hself : M'.prim.self = (M.primCycle FunctionalCore.methods).machine.prim.self)
    (hinstif : M'.prim.instif = (M.primCycle FunctionalCore.methods).machine.prim.instif)
    (hview : M'.mem.view none = (M.primCycle FunctionalCore.methods).machine.mem.view none)
    (hnwords : M'.mem.nwords = (M.primCycle FunctionalCore.methods).machine.mem.nwords) :
    (RiscVLogInfo.new M'.mem.read M'.prim.instif).Reports
      (FunctionalCore.instruction M.mem.read M.prim) M' := by
  have hdrive : (FunctionalCore.drive M.mem.read M.prim).1 = true := by
    rw [primCycle_functional] at hdriven
    exact hdriven
  obtain ⟨hready, hknown⟩ := (FunctionalCore.drive_fst ..).mp hdrive
  obtain ⟨x, hx⟩ := Option.ne_none_iff_exists'.mp (mt (execute_eq_none_iff M.mem.read M.prim.self.pc
    (FunctionalCore.instruction M.mem.read M.prim) M.prim.self.reg
      (FunctionalCore.start M.prim).memif).mp hknown)
  rw [Machine.primCycle_of_execute hready hx] at hself hinstif hview hnwords
  dsimp only at hview hnwords
  rw [Machine.view_memUpdate] at hview
  rw [Machine.nwords_memUpdate] at hnwords
  exact reports_of_execute M.mem rfl hknown (by exact (by decide : (1 : Word) ≠ 0)) rfl haligned hx
    (congrArg FunctionalState.reg hself) hinstif hview hnwords

/-! The entries of the main loops. -/

variable {args : SimArgs} {host : Host} {V : CoreMethods β}

variable (args V) in
/-- The entry made in the next iteration of concurrent execution. -/
def iterationInfo (s : ConcurrentState β) : RiscVLogInfo :=
  RiscVLogInfo.new (nextRun args V s).machine.mem.read (nextRound args V s).fif

variable (args V) in
/-- If the functional core retires an instruction with an aligned data address, if any, in the next
iteration, the entry reports what this instruction left. -/
def ReportsIteration (s : ConcurrentState β) (info : RiscVLogInfo) : Prop :=
  (functionalStep args s.machine).driven = true →
    FunctionalCore.Aligned s.machine.mem.read s.machine.prim →
      info.Reports (FunctionalCore.instruction s.machine.mem.read s.machine.prim)
        (nextRun args V s).machine

/-- The entry of an iteration reports its instruction, with the memory after the cycles of the
verilated core. -/
theorem reports_iterationInfo (s : ConcurrentState β) :
    ReportsIteration args V s (iterationInfo args V s) := by
  intro hdriven haligned
  have hsame : (functionalStep args s.machine).machine.SamePrimary (nextRun args V s).machine :=
    samePrimary_verilatedStep ..
  have hstep : (functionalStep args s.machine).driven =
        (s.machine.primCycle FunctionalCore.methods).driven ∧
      (functionalStep args s.machine).machine.mem =
        (s.machine.primCycle FunctionalCore.methods).machine.mem ∧
      (functionalStep args s.machine).machine.prim.self =
        (s.machine.primCycle FunctionalCore.methods).machine.prim.self ∧
      (functionalStep args s.machine).machine.prim.instif =
        (s.machine.primCycle FunctionalCore.methods).machine.prim.instif := by
    rw [functionalStep]
    split <;> exact ⟨rfl, rfl, rfl, rfl⟩
  obtain ⟨hd, hmem, hself, hinstif⟩ := hstep
  exact reports_of_primCycle (hd.symm.trans hdriven) haligned
    ((congrArg Core.self hsame.prim).trans hself) ((congrArg Core.instif hsame.prim).trans hinstif)
    (hsame.view.trans (congrArg (Memory.view · none) hmem))
    (hsame.nwords.trans (congrArg Memory.nwords hmem))

/-- Every entry in the ring buffer was made in an iteration before. -/
theorem logBuffer_of_reaches {M : Machine 1 FunctionalState β} {k : ℕ} {t : ConcurrentState β}
    (h : (concurrentLoop args host V).Reaches (concurrentStart V M) k t) {slot : ℕ}
    {info : RiscVLogInfo} (hslot : t.logBuffer slot = some info) :
    ∃ j s, j < k ∧ (concurrentLoop args host V).Reaches (concurrentStart V M) j s ∧
      info = iterationInfo args V s := by
  refine h.invariant (I := fun k t => t.logBuffer slot = some info → ∃ j s, j < k ∧
    (concurrentLoop args host V).Reaches (concurrentStart V M) j s ∧ info = iterationInfo args V s)
    nofun (fun k t hreach _ ih hslot => ?_) hslot
  have hold (hslot : t.logBuffer slot = some info) : ∃ j s, j < k + 1 ∧
      (concurrentLoop args host V).Reaches (concurrentStart V M) j s ∧
        info = iterationInfo args V s := by
    obtain ⟨j, s, hj, hinfo⟩ := ih hslot
    exact ⟨j, s, hj.trans (Nat.lt_succ_self k), hinfo⟩
  change (concurrentBody args host V t).logBuffer slot = some info at hslot
  cases haccepted : (nextRound args V t).accepted with
  | false =>
    rw [(concurrentBody_of_rejected haccepted).2.2] at hslot
    exact hold hslot
  | true =>
    rw [logBuffer_of_accepted haccepted] at hslot
    by_cases hN : 0 < args.mismatchInsts.toInt
    · rw [if_pos hN, Function.update_apply] at hslot
      split at hslot
      · exact ⟨k, t, Nat.lt_succ_self k, hreach, (Option.some.inj hslot).symm⟩
      · exact hold hslot
    · rw [if_neg hN] at hslot
      exact hold hslot

/-- In single and in concurrent execution of any program, the entry made for an instruction with an
aligned data address, if any, reports what this instruction left, and so do the entries that the
ring buffer holds later on. -/
theorem trace_truthful (args : SimArgs) (host : Host) (V : CoreMethods β)
    (M : Machine 0 FunctionalState FunctionalState) (M' : Machine 1 FunctionalState β) :
    (∀ k t, (singleLoop args host FunctionalCore.methods).Reaches
        (singleStart FunctionalCore.methods M) k t →
      let c := t.machine.memDrive.primCycle FunctionalCore.methods
      let info := RiscVLogInfo.new c.machine.mem.read c.machine.prim.instif
      (singleBody args host FunctionalCore.methods t).log =
          (if args.log then t.log ++ [info.getLog.1] else t.log) ∧
        (c.driven = true → FunctionalCore.Aligned t.machine.mem.read t.machine.prim →
          info.Reports (FunctionalCore.instruction t.machine.mem.read t.machine.prim)
            c.machine)) ∧
      ∀ k t, (concurrentLoop args host V).Reaches (concurrentStart V M') k t →
        ((nextRound args V t).accepted = true → (concurrentBody args host V t).log =
          if args.log then t.log ++ [(iterationInfo args V t).getLog.1] else t.log) ∧
        ReportsIteration args V t (iterationInfo args V t) ∧
        ∀ slot info, t.logBuffer slot = some info →
          ∃ j s, j < k ∧ (concurrentLoop args host V).Reaches (concurrentStart V M') j s ∧
            info = iterationInfo args V s ∧ ReportsIteration args V s info := by
  constructor
  · intro k t _ c info
    refine ⟨rfl, fun hdriven haligned => ?_⟩
    exact reports_of_primCycle hdriven haligned rfl rfl rfl rfl
  · intro k t h
    refine ⟨fun h => (concurrentBody_of_accepted h).2.2.2, reports_iterationInfo t, ?_⟩
    intro slot info hslot
    obtain ⟨j, s, hj, hreach, rfl⟩ := logBuffer_of_reaches h hslot
    exact ⟨j, s, hj, hreach, rfl, reports_iterationInfo s⟩

/-- With one replica, the entry of a store of the stack pointer reports the word on the stack. -/
theorem stack_traced :
    let V := RVCorePCore.methods Playback.top
    let args : SimArgs := ⟨10, 2, false⟩
    let s := concurrentStart V (playbackMachine [0x00212023]
      [⟨1, 0x00010000, 0x00212023, 0, 0, 0x001e6400, 0x001e6400, 0xf, 0⟩])
    (iterationInfo args V s).getLog.2.memData = 0x001e6400 := by
  intro V args s
  have hdriven : (functionalStep args s.machine).driven = true := by
    decide +kernel
  have haligned : FunctionalCore.Aligned s.machine.mem.read s.machine.prim := by
    unfold FunctionalCore.Aligned
    decide +kernel
  have hstore : (FunctionalCore.instruction s.machine.mem.read s.machine.prim).isStore = true := by
    decide +kernel
  have memif : CoreMemoryIF := ⟨0, 0, 0, 0, 0, 0, 0, 0, 0⟩
  have M : Machine 0 FunctionalState FunctionalState :=
    boot ⟨0, 0, 0, 0, 0, 0, 0, 0, 0⟩ memif nofun memif nofun [] 0
  obtain ⟨-, hreports, -⟩ := (trace_truthful args (fun _ => default) V M _).2 0 s .start
  rw [(hreports hdriven haligned).memData hstore]
  decide +kernel

end VeriCross
