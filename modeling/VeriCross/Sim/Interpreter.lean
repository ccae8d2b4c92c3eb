import VeriCross.RiscV.Program
import VeriCross.Sim.Manual

/-!
# The simulator is an interpreter of programs

The loops are compared with the interpreter of a list of instructions. The image, the encoding,
the memory, the fetch and the decoder of the functional core do not appear in its results.
-/

namespace VeriCross

open RiscV SysCall

variable {k : ℕ} {h : Hart}

namespace Machine

variable {n : ℕ} {β : Type} {M : Machine n FunctionalState β}

/-- A cycle in which the functional core retires an instruction counts it. -/
theorem primCycle_cntInst (hdriven : (M.primCycle FunctionalCore.methods).driven = true) :
    (M.primCycle FunctionalCore.methods).machine.prim.cntInst = M.prim.cntInst + 1 := by
  rw [primCycle_functional] at hdriven ⊢
  exact (FunctionalCore.drive_cntInst ..).trans (if_pos hdriven)

/-- Stopping the cores leaves the state of the hart. -/
theorem Models.haltCores (hM : M.Models k h) : M.haltCores.Models k h :=
  ⟨hM.reg, hM.pc, hM.nwords, hM.bytes, hM.zero, hM.memory⟩

/-- The memory interface is driven before a cycle. -/
theorem Models.memDrive (hM : M.Models k h) : M.memDrive.Models k h :=
  ⟨hM.reg, hM.pc, hM.nwords, hM.bytes, hM.zero, hM.memory⟩

end Machine

section Loops

variable {args : SimArgs} {host : Host}

variable (args host) in
/-- What an iteration of the single loop that retires an instruction does to the counter and the
halt flag. -/
theorem prim_singleBody {t : SingleState FunctionalState} (hgoing : t.machine.prim.halt = false)
    (hdriven : (t.machine.memDrive.primCycle FunctionalCore.methods).driven = true) :
    let c := t.machine.memDrive.primCycle FunctionalCore.methods
    let t' := singleBody args host FunctionalCore.methods t
    t'.machine.prim.cntInst = t.machine.prim.cntInst + 1 ∧
      (t'.machine.prim.halt = true ↔ args.maxInsts ≤ t.machine.prim.cntInst + 1 ∨
        FunctionalCore.fetch t.machine.mem.read t.machine.prim = 0x00000073 ∧
          c.machine.readReg FunctionalCore.registers regA7 = scExit) := by
  intro c t'
  have hmachine := machine_singleBody args host hdriven
  have hcount : c.machine.prim.cntInst = t.machine.prim.cntInst + 1 :=
    Machine.primCycle_cntInst hdriven
  have hhalt : c.machine.prim.halt = false := (primCycle_halt _).trans hgoing
  obtain ⟨hcnt, hstop⟩ := Machine.afterInst_prim host FunctionalCore.registers c.machine
    (FunctionalCore.fetch t.machine.mem.read t.machine.prim)
  rw [hcount] at hcnt
  rw [hhalt] at hstop
  dsimp only at hmachine
  rw [show t' = singleBody args host FunctionalCore.methods t from rfl, hmachine]
  dsimp only [Machine.setPrim]
  rw [hcnt, hstop]
  refine ⟨rfl, ?_⟩
  simp

variable (args host) in
/-- An iteration of the single loop executes an instruction without an environment. -/
theorem Machine.Models.singleBody_exec {t : SingleState FunctionalState}
    (hM : t.machine.Models k h) (hgoing : t.machine.prim.halt = false) {i : Instr}
    (hencodes : i.Encodes (h.wordAt k h.pc)) (huser : i.isUser = true)
    (hdomain : i.InDomain h.reg h.pc) :
    let t' := VeriCross.singleBody args host FunctionalCore.methods t
    t'.machine.Models k (i.exec k h) ∧ t'.machine.prim.cntInst = t.machine.prim.cntInst + 1 ∧
      (t'.machine.prim.halt = true ↔ args.maxInsts ≤ t.machine.prim.cntInst + 1) := by
  intro t'
  obtain ⟨hdriven, hcycle⟩ :=
    hM.memDrive.exec (hM.ready hgoing) hencodes huser hdomain
  obtain ⟨hcnt, hhalt⟩ := prim_singleBody args host hgoing hdriven
  have hother : FunctionalCore.fetch t.machine.mem.read t.machine.prim ≠ 0x00000073 := by
    rw [hM.fetch]
    exact Instr.word_of_isUser hencodes huser
  refine ⟨?_, hcnt, ?_⟩
  · rw [show t' = VeriCross.singleBody args host FunctionalCore.methods t from rfl,
      machine_singleBody args host hdriven, Machine.afterInst, if_neg hother]
    exact hcycle.setHalt _
  · rw [hhalt]
    exact or_iff_left fun hecall => hother hecall.1

variable (args host) in
/-- An iteration of the single loop interprets an instruction of a program that the memory
holds. -/
theorem Machine.Models.singleBody_step {t : SingleState FunctionalState}
    (hM : t.machine.Models k h) (hgoing : t.machine.prim.halt = false) {p : Program}
    (hheld : p.Held k h.bytes) {h' : Hart} (hstep : p.step k h = some h') :
    let t' := VeriCross.singleBody args host FunctionalCore.methods t
    t'.machine.Models k h' ∧ t'.machine.prim.cntInst = t.machine.prim.cntInst + 1 ∧
      (t'.machine.prim.halt = true ↔ args.maxInsts ≤ t.machine.prim.cntInst + 1) := by
  obtain ⟨i, hat, huser, hdomain, -, rfl⟩ := Program.step_eq_some_iff.mp hstep
  have hencodes : i.Encodes (h.wordAt k h.pc) := hheld.wordAt hat ▸ i.encodes_encode
  exact hM.singleBody_exec args host hgoing hencodes huser hdomain

variable (args host) in
/-- An iteration of the single loop at a call of exit is the last one. -/
theorem Machine.Models.singleBody_exit {t : SingleState FunctionalState}
    (hM : t.machine.Models k h) (hgoing : t.machine.prim.halt = false) {p : Program}
    (hheld : p.Held k h.bytes) (hat : p.at? h.pc = some (.env .ecall))
    (hexit : h.reg regA7 = scExit) :
    let t' := VeriCross.singleBody args host FunctionalCore.methods t
    t'.machine.Models k { h with pc := h.pc + 4 } ∧
      t'.machine.prim.cntInst = t.machine.prim.cntInst + 1 ∧ t'.machine.prim.halt = true := by
  intro t'
  have hfetch := hheld.wordAt hat
  obtain ⟨hdriven, hcycle⟩ := hM.memDrive.exec_ecall (hM.ready hgoing) hfetch
  obtain ⟨hcnt, hhalt⟩ := prim_singleBody args host hgoing hdriven
  have hecall : FunctionalCore.fetch t.machine.mem.read t.machine.prim = 0x00000073 :=
    hM.fetch.trans hfetch
  have hnumber : (t.machine.memDrive.primCycle FunctionalCore.methods).machine.readReg
      FunctionalCore.registers regA7 = scExit :=
    (congrFun hcycle.reg regA7).trans hexit
  refine ⟨?_, hcnt, hhalt.mpr (.inr ⟨hecall, hnumber⟩)⟩
  rw [show t' = VeriCross.singleBody args host FunctionalCore.methods t from rfl,
    machine_singleBody args host hdriven, Machine.afterInst, if_pos hecall,
    Machine.emulate_of_exit host _ hnumber]
  exact hcycle.haltCores.setHalt _

/-- The functional core of a loop has interpreted a number of instructions, and goes on as long as
the limit allows. -/
structure Interpreted {m : ℕ} {β : Type} (args : SimArgs) (k n : ℕ)
    (M : Machine m FunctionalState β) (h : Hart) : Prop where
  models : M.Models k h
  count : M.prim.cntInst.toNat = n
  halt : M.prim.halt = true ↔ max 1 args.maxInsts.toNat ≤ n

section Interpreted

variable {m n : ℕ} {β : Type} {M : Machine m FunctionalState β}

/-- A core that has not started has interpreted nothing. -/
theorem Interpreted.zero (hM : M.Models k h) (hcnt : M.prim.cntInst = 0)
    (hhalt : M.prim.halt = false) : Interpreted args k 0 M h := by
  refine ⟨hM, congrArg BitVec.toNat hcnt, ?_⟩
  rw [hhalt]
  exact iff_of_false Bool.false_ne_true (by omega)

/-- Counting one more instruction does not wrap below the limit. -/
theorem Interpreted.count_succ (hM : Interpreted args k n M h)
    (hn : n < max 1 args.maxInsts.toNat) : (M.prim.cntInst + 1).toNat = n + 1 := by
  have hlimit := args.maxInsts.isLt
  have hcount := hM.count
  bv_omega

/-- Below the limit the loop goes on. -/
theorem Interpreted.going (hM : Interpreted args k n M h) (hn : n < max 1 args.maxInsts.toNat) :
    M.prim.halt = false := by
  rw [← Bool.not_eq_true, hM.halt]
  omega

/-- While the functional core runs it is below the limit. -/
theorem Interpreted.below (hM : Interpreted args k n M h) (hgoing : M.prim.halt = false) :
    n < max 1 args.maxInsts.toNat := by
  have hnot := mt hM.halt.mpr (by rw [hgoing]; exact Bool.false_ne_true)
  omega

/-- The next instruction is interpreted, too, if it is counted and the core is stopped at the
limit. -/
theorem Interpreted.succ (hM : Interpreted args k n M h) (hn : n < max 1 args.maxInsts.toNat)
    {M' : Machine m FunctionalState β} {h' : Hart} (hM' : M'.Models k h')
    (hcnt : M'.prim.cntInst = M.prim.cntInst + 1)
    (hhalt : M'.prim.halt = true ↔ args.maxInsts ≤ M.prim.cntInst + 1) :
    Interpreted args k (n + 1) M' h' := by
  have hcount := hM.count_succ hn
  refine ⟨hM', hcnt ▸ hcount, hhalt.trans ?_⟩
  rw [BitVec.le_def, hcount]
  omega

end Interpreted

variable (host) in
/-- The loop interprets a program that the memory holds at its start. -/
theorem interpreted_of_run {t : SingleState FunctionalState}
    (ht : Interpreted args k 0 t.machine h) {p : Program} (hheld : p.Held k h.bytes) {n : ℕ}
    (hn : n ≤ max 1 args.maxInsts.toNat) {h' : Hart} (hrun : p.run k h n = some h') :
    ∃ t', (singleLoop args host FunctionalCore.methods).Reaches t n t' ∧
      Interpreted args k n t'.machine h' := by
  induction n generalizing h' with
  | zero =>
    cases hrun
    exact ⟨t, .start, ht⟩
  | succ n ih =>
    obtain ⟨h₁, hbefore, hstep⟩ := Program.run_succ_eq_some_iff.mp hrun
    obtain ⟨u, hreach, hu⟩ := ih (by omega) hbefore
    have hgoing := hu.going hn
    obtain ⟨hmodels, hcnt, hhalt⟩ :=
      hu.models.singleBody_step args host hgoing (hheld.run hbefore) hstep
    exact ⟨_, hreach.next ((singleLoop_guard ..).mpr hgoing), hu.succ hn hmodels hcnt hhalt⟩

section Concurrent

variable {β : Type} {V : CoreMethods β}

variable (args host V) in
/-- A regular iteration of the concurrent loop counts an instruction of the functional core, and
stops it at the limit and at a call of exit. -/
theorem prim_of_regular {s : ConcurrentState β} (hgoing : s.machine.prim.halt = false)
    (hmemory : s.machine.prim.self.memory = true) (haccepted : (nextRound args V s).accepted = true)
    (hretired : (nextRound args V s).functional ≠ none) :
    (concurrentBody args host V s).machine.prim.cntInst = s.machine.prim.cntInst + 1 ∧
      ((concurrentBody args host V s).machine.prim.halt = true ↔
        args.maxInsts ≤ s.machine.prim.cntInst + 1 ∨
          (nextRound args V s).emulated = some scExit) := by
  obtain ⟨hcnt, hhalt⟩ := concurrentBody_prim args host V hgoing hmemory
  rw [if_neg hretired] at hcnt
  refine ⟨hcnt, ?_⟩
  rw [hhalt, hcnt, haccepted]
  simp [hretired]

variable (args V) in
/-- In an iteration that retires an instruction the shown word is the fetched one. -/
theorem ir_nextRound {s : ConcurrentState β} (hM : s.machine.Models k h)
    (hgoing : s.machine.prim.halt = false) (hretired : (nextRound args V s).functional ≠ none) :
    (nextRound args V s).fif.ir = h.wordAt k h.pc := by
  have hspec := functionalStep_spec args hgoing hM.memory
  have hdriven := mt (nextRound_functional_eq_none_iff s).mpr hretired
  rw [Bool.not_eq_false] at hdriven
  rw [nextRound_fif, (hspec.instif hdriven).2, hM.fetch]

variable (args host V) in
/-- A regular iteration of the concurrent loop interprets an instruction of a program that the
memory holds. -/
theorem Machine.Models.concurrentBody_step {s : ConcurrentState β} (hM : s.machine.Models k h)
    (hgoing : s.machine.prim.halt = false) (haccepted : (nextRound args V s).accepted = true)
    (hretired : (nextRound args V s).functional ≠ none) {p : Program} (hheld : p.Held k h.bytes)
    {h' : Hart} (hstep : p.step k h = some h') :
    let s' := VeriCross.concurrentBody args host V s
    s'.machine.Models k h' ∧ s'.machine.prim.cntInst = s.machine.prim.cntInst + 1 ∧
      (s'.machine.prim.halt = true ↔ args.maxInsts ≤ s.machine.prim.cntInst + 1) := by
  intro s'
  obtain ⟨i, hat, huser, hdomain, -, hexec⟩ := Program.step_eq_some_iff.mp hstep
  have hencodes : i.Encodes (h.wordAt k h.pc) := hheld.wordAt hat ▸ i.encodes_encode
  obtain ⟨-, hcycle⟩ := hM.exec (hM.ready hgoing) hencodes huser hdomain
  have hother := Instr.word_of_isUser hencodes huser
  obtain ⟨hcnt, hhalt⟩ := prim_of_regular args host V hgoing hM.memory haccepted hretired
  refine ⟨?_, hcnt, hhalt.trans (or_iff_left fun hexit => ?_)⟩
  · change (VeriCross.concurrentBody args host V s).machine.Models k h'
    rw [machine_of_regular args host V hgoing hM.memory haccepted hretired, Machine.afterInst,
      if_neg (by rwa [hM.fetch]), ← hexec]
    exact hcycle.nextRun args V hgoing
  · exact hother ((ir_nextRound args V hM hgoing hretired).symm.trans
      ((nextRound_emulated_iff s scExit).mp hexit).2.1)

variable (args host V) in
/-- A regular iteration of the concurrent loop at a call of exit is the last one. -/
theorem Machine.Models.concurrentBody_exit {s : ConcurrentState β} (hM : s.machine.Models k h)
    (hgoing : s.machine.prim.halt = false) (haccepted : (nextRound args V s).accepted = true)
    (hretired : (nextRound args V s).functional ≠ none) {p : Program} (hheld : p.Held k h.bytes)
    (hat : p.at? h.pc = some (.env .ecall)) (hexit : h.reg regA7 = scExit) :
    let s' := VeriCross.concurrentBody args host V s
    s'.machine.Models k { h with pc := h.pc + 4 } ∧
      s'.machine.prim.cntInst = s.machine.prim.cntInst + 1 ∧ s'.machine.prim.halt = true := by
  intro s'
  have hfetch : h.wordAt k h.pc = 0x00000073 := hheld.wordAt hat
  obtain ⟨-, hcycle⟩ := hM.exec_ecall (hM.ready hgoing) hfetch
  have hnext := hcycle.nextRun args V hgoing
  have hnumber : (VeriCross.nextRun args V s).machine.readReg FunctionalCore.registers regA7 =
      scExit :=
    (congrFun hnext.reg regA7).trans hexit
  obtain ⟨hcnt, hhalt⟩ := prim_of_regular args host V hgoing hM.memory haccepted hretired
  refine ⟨?_, hcnt, hhalt.mpr (.inr ?_)⟩
  · change (VeriCross.concurrentBody args host V s).machine.Models k _
    rw [machine_of_regular args host V hgoing hM.memory haccepted hretired, Machine.afterInst,
      if_pos (hM.fetch.trans hfetch), Machine.emulate_of_exit host _ hnumber]
    exact hnext.haltCores
  · exact (nextRound_emulated_iff s scExit).mpr
      ⟨haccepted, (ir_nextRound args V hM hgoing hretired).trans hfetch, hnumber⟩

/-- Regular iterations of the concurrent loop interpret a program that the memory holds. -/
theorem interpreted_of_regular {s s' : ConcurrentState β} {n : ℕ}
    (hreach : (concurrentLoop args host V).Reaches s n s') (hregular : Regular s')
    (hs : Interpreted args k 0 s.machine h) {p : Program} (hheld : p.Held k h.bytes) {h' : Hart}
    (hrun : p.run k h n = some h') : Interpreted args k n s'.machine h' := by
  induction hreach generalizing h' with
  | start =>
    cases hrun
    exact hs
  | @next n u _ hguard ih =>
    obtain ⟨h₁, hbefore, hstep⟩ := Program.run_succ_eq_some_iff.mp hrun
    obtain ⟨hgoing, -⟩ := concurrentLoop_guard.mp hguard
    obtain ⟨hregular, haccepted, hretired⟩ := forall_rounds_concurrentBody.mp hregular
    have hu := ih hregular hbefore
    obtain ⟨hmodels, hcnt, hhalt⟩ := hu.models.concurrentBody_step args host V hgoing haccepted
      hretired (hheld.run hbefore) hstep
    exact hu.succ (hu.below hgoing) hmodels hcnt hhalt

end Concurrent

end Loops

/-- Both loops interpret the programs. As many instructions of a program as the limit allows,
whose encodings are in the image, leave the functional core of the single loop with the registers,
the program counter, the memory and the count of an interpreter of the list of instructions; then
the loop returns at the limit, and with a call of exit. A concurrent run that is regular does the
same with any replica: its functional core stops exactly at the limit, and an iteration with a call
of exit is the last one. -/
theorem program_interpreted {β : Type} (args : SimArgs) (host : Host) (V : CoreMethods β)
    (instif : CoreInstructionIF) (memif : CoreMemoryIF) (rep : Core β)
    (ifPrim ifRep : CoreMemoryIF) (sections : List Section) (brkAddr : Word) (p : Program)
    (hheld : p.Held 19 (Hart.booted sections).bytes) {n : ℕ} {h : Hart}
    (hrun : p.run 19 (Hart.booted sections) n = some h)
    (hn : n ≤ max 1 args.maxInsts.toNat) :
    let L := singleLoop args host FunctionalCore.methods
    let start := singleStart FunctionalCore.methods
      (boot instif memif Fin.elim0 ifPrim Fin.elim0 sections brkAddr)
    let L' := concurrentLoop args host V
    let start' := concurrentStart V
      (boot instif memif (fun _ => rep) ifPrim (fun _ => ifRep) sections brkAddr)
    (∃ t, L.Reaches start n t ∧ t.machine.Models 19 h ∧ t.machine.prim.cntInst.toNat = n ∧
      (L.guard t = false ↔ n = max 1 args.maxInsts.toNat) ∧
      (n < max 1 args.maxInsts.toNat → p.at? h.pc = some (.env .ecall) → h.reg regA7 = scExit →
        ∃ t', L.Reaches start (n + 1) t' ∧ L.guard t' = false ∧
          t'.machine.Models 19 { h with pc := h.pc + 4 } ∧
          t'.machine.prim.cntInst.toNat = n + 1)) ∧
    (∀ s, L'.Reaches start' n s → Regular s →
      s.machine.Models 19 h ∧ s.machine.prim.cntInst.toNat = n ∧
        (s.machine.prim.halt = true ↔ n = max 1 args.maxInsts.toNat) ∧
        (n = max 1 args.maxInsts.toNat → L'.guard s = false)) ∧
    ∀ s, L'.Reaches start' (n + 1) s → Regular s → p.at? h.pc = some (.env .ecall) →
      h.reg regA7 = scExit →
        L'.guard s = false ∧ s.machine.Models 19 { h with pc := h.pc + 4 } ∧
          s.machine.prim.cntInst.toNat = n + 1 := by
  intro L start L' start'
  have hstart : Interpreted args 19 0 start.machine (Hart.booted sections) :=
    .zero (models_boot instif memif (Fin.elim0 : Fin 0 → Core FunctionalState) ifPrim Fin.elim0
      sections brkAddr) rfl rfl
  have hboot := models_boot instif memif (fun _ : Fin 1 => rep) ifPrim (fun _ => ifRep) sections
    brkAddr
  have hstart' : Interpreted args 19 0 start'.machine (Hart.booted sections) :=
    .zero ⟨hboot.reg, hboot.pc, hboot.nwords, hboot.bytes, hboot.zero, hboot.memory⟩ rfl rfl
  refine ⟨?_, fun s hreach hregular => ?_, fun s hreach hregular hat hexit => ?_⟩
  · obtain ⟨t, hreach, ht⟩ := interpreted_of_run host hstart hheld hn hrun
    refine ⟨t, hreach, ht.models, ht.count, ?_, fun hbelow hat hexit => ?_⟩
    · change (!t.machine.prim.halt) = false ↔ _
      rw [Bool.not_eq_false', ht.halt]
      omega
    · have hgoing := ht.going hbelow
      obtain ⟨hmodels, hcnt, hhalt⟩ :=
        ht.models.singleBody_exit args host hgoing (hheld.run hrun) hat hexit
      exact ⟨_, hreach.next ((singleLoop_guard ..).mpr hgoing), congrArg (!·) hhalt, hmodels,
        hcnt ▸ ht.count_succ hbelow⟩
  · have hs := interpreted_of_regular hreach hregular hstart' hheld hrun
    refine ⟨hs.models, hs.count, ?_, fun hlimit => ?_⟩
    · rw [hs.halt]
      omega
    · exact concurrentLoop_exit.mpr (.inl (hs.halt.mpr hlimit.ge))
  · obtain ⟨u, hu, hguard, rfl⟩ := WhileLoop.reaches_succ_iff.mp hreach
    obtain ⟨hgoing, -⟩ := concurrentLoop_guard.mp hguard
    obtain ⟨hbefore, haccepted, hretired⟩ := forall_rounds_concurrentBody.mp hregular
    have hinterpreted := interpreted_of_regular hu hbefore hstart' hheld hrun
    obtain ⟨hmodels, hcnt, hhalt⟩ := hinterpreted.models.concurrentBody_exit args host V hgoing
      haccepted hretired (hheld.run hrun) hat hexit
    exact ⟨concurrentLoop_exit.mpr (.inl hhalt), hmodels,
      (congrArg BitVec.toNat hcnt).trans (hinterpreted.count_succ (hinterpreted.below hgoing))⟩

/-- The section that holds the encoded instructions. -/
def Program.toSection (p : Program) : Section where
  addr := p.base
  length := BitVec.ofNat 32 p.bytes.length
  data := p.code.map Instr.encode

/-- An image holds a program whose section is loaded last. -/
theorem Program.held_booted (p : Program) (hfits : p.bytes.length ≤ 4 * 2 ^ 19)
    (sections : List Section) : p.Held 19 (Hart.booted (sections ++ [p.toSection])).bytes := by
  have hlength : p.toSection.length.toNat = 4 * p.toSection.data.length := by
    rw [toSection, List.length_map, ← p.length_bytes, BitVec.toNat_ofNat]
    omega
  have hbytes : p.toSection.bytes = p.bytes := Section.bytes_eq hlength
  intro d hd
  change loadBytes 19 _ (sections ++ [p.toSection]) _ = _
  rw [loadBytes, List.foldl_append, List.foldl_cons, List.foldl_nil, hbytes]
  exact storeBytes_getElem (by decide) hfits hd

/-- A program that calls exit returns after two instructions. -/
theorem exit_interpreted :
    let V := RVCorePCore.methods Playback.top
    let host : Host := fun _ => default
    let args : SimArgs := ⟨10, 0, false⟩
    let zero : CoreInstructionIF := ⟨0, 0, 0, 0, 0, 0, 0, 0, 0⟩
    let memif : CoreMemoryIF := ⟨0, 0, 0, 0, 0, 0, 0, 0, 0⟩
    let rep := CoreWrapper.new zero memif
      { rest := [⟨1, 0x00010000, 0x05d00893, 17, 93, 0, 0, 0, 0⟩]
        shown := zero
        reg := fun _ => 0 }
    let p : Program := ⟨initialPc, [.opImm .addi 17 0 93, .env .ecall]⟩
    let h := (Instr.opImm .addi 17 0 93).exec 19 (Hart.booted [p.toSection])
    let L := singleLoop args host FunctionalCore.methods
    let start := singleStart FunctionalCore.methods
      (boot zero memif Fin.elim0 memif Fin.elim0 [p.toSection] 0)
    let L' := concurrentLoop args host V
    let start' := concurrentStart V
      (boot zero memif (fun _ => rep) memif (fun _ => memif) [p.toSection] 0)
    (∃ t, L.Reaches start (1 + 1) t ∧ L.guard t = false ∧
      t.machine.Models 19 { h with pc := h.pc + 4 } ∧ t.machine.prim.cntInst.toNat = 1 + 1) ∧
    ∀ s, L'.Reaches start' (1 + 1) s → Regular s →
      L'.guard s = false ∧ s.machine.Models 19 { h with pc := h.pc + 4 } ∧
        s.machine.prim.cntInst.toNat = 1 + 1 := by
  intro V host args zero memif rep p h L start L' start'
  have hfits : p.bytes.length ≤ 4 * 2 ^ 19 := by
    rw [p.length_bytes]
    decide
  have hheld : p.Held 19 (Hart.booted ([] ++ [p.toSection])).bytes := p.held_booted hfits []
  have hrun : p.run 19 (Hart.booted [p.toSection]) 1 = some h := by
    have hat : p.at? initialPc = some (.opImm .addi 17 0 93) := by
      simp [p, Program.at?]
    refine Program.run_succ_eq_some_iff.mpr ⟨Hart.booted [p.toSection], rfl, ?_⟩
    exact Program.step_eq_some_iff.mpr ⟨_, hat, rfl, trivial, trivial, rfl⟩
  have hat : p.at? h.pc = some (.env .ecall) := by
    have hpc : h.pc = initialPc + 4 := rfl
    rw [hpc]
    simp [p, Program.at?, initialPc]
  have hexit : h.reg regA7 = scExit := rfl
  obtain ⟨⟨t, -, -, -, -, hcall⟩, -, hcall'⟩ := program_interpreted args host V zero memif rep memif
    memif [p.toSection] 0 p hheld hrun (by decide)
  exact ⟨hcall (by decide) hat hexit, fun s hs hregular => hcall' s hs hregular hat hexit⟩

end VeriCross
