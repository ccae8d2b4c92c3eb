import VeriCross.Benchmark.Arguments
import VeriCross.Loader.Boot
import VeriCross.Main.Returns

/-!
# From the files to the program

`main` starts a binary with the stack image that the script made from a command line. The boot jump
leaves a hart at `_start` whose registers and memory are those that a C program expects, and from
there the functional core follows the manual until the program calls exit or the limit is reached.
The number of instructions that is printed counts the jump, too.
-/

namespace VeriCross

open MakeArgs RiscV SysCall PrivateMemory

/-! The hart at `_start`. -/

namespace Hart

/-- A hart is at an address with an empty stack, and holds a binary and an argument vector. -/
structure StartsAt (h : Hart) (startAddr textAddr : Word) (bin : List Byte)
    (argv : List (List Byte)) : Prop where
  pc : h.pc = startAddr
  reg : ∀ r, h.reg r = if r = regSp then initialSp else 0
  binary : BytesAt (fun addr => h.bytes (byteCell 19 addr)) textAddr bin
  arguments : ∃ ptrs, ArgumentVector (fun addr => h.bytes (byteCell 19 addr)) initialSp ptrs argv

/-- The hart after the jump to `_start`. -/
def started (sections : List Section) (startAddr : Word) : Hart :=
  { booted sections with pc := startAddr }

/-- The next instruction is one on which the functional core follows the manual, or a call of the
environment. -/
def Covered (k : ℕ) (h : Hart) : Prop :=
  ∃ i : Instr, i.Encodes (h.wordAt k h.pc) ∧
    (i = .env .ecall ∨ i.isUser = true ∧ i.InDomain h.reg h.pc)

/-- The next instruction calls exit. -/
def Exits (k : ℕ) (h : Hart) : Prop :=
  (Instr.env .ecall).Encodes (h.wordAt k h.pc) ∧ h.reg regA7 = scExit

/-- A step that does not call exit. -/
def Continues (k : ℕ) (h : Hart) (i : Instr) (h' : Hart) : Prop := Step k h i h' ∧ ¬h.Exits k

/-- The runs without a call of exit. -/
abbrev LiveRun (k : ℕ) : Hart → List Instr → Hart → Prop := LabelledRun (Continues k)

end Hart

/-- A core in the state of a hart has its next instruction. -/
theorem Machine.Models.covered_iff {n k : ℕ} {β : Type} {M : Machine n FunctionalState β} {h : Hart}
    (hM : M.Models k h) : M.Covered ↔ h.Covered k := by
  rw [Covered, Hart.Covered, hM.fetch, hM.reg, hM.pc]

/-- The public read is that of the hart. -/
theorem Machine.Models.read1b {n k : ℕ} {β : Type} {M : Machine n FunctionalState β} {h : Hart}
    (hM : M.Models k h) :
    M.mem.read1b .primary = fun addr => h.bytes (byteCell k addr) := by
  funext addr
  rw [Memory.read1b_primary, hM.bytes.getByte]

/-! The boot jump. -/

section Boot

variable {binFile dumpFile spFile : String} {files : LoaderFiles} {ld : Loader}
  (hnew : Loader.new binFile dumpFile spFile files = some ld) (hvalid : ld.valid = true)
  {bin : List Byte} {dump sp : List Char} (hbin : files.bin = some bin)
  (hdump : files.dump = some dump) (hsp : files.sp = some sp)

include hnew hvalid hbin hdump hsp

/-- The hart that has booted is at the jump to `_start`. -/
theorem exec_boot (hreaches : JumpReaches (Loader.startAddr dump)) :
    ∃ i : Instr, i.Encodes ((Hart.booted ld.sections).wordAt 19 (Hart.booted ld.sections).pc) ∧
      i.isUser = true ∧ i.InDomain (Hart.booted ld.sections).reg (Hart.booted ld.sections).pc ∧
      i.exec 19 (Hart.booted ld.sections) =
        Hart.started ld.sections (Loader.startAddr dump) := by
  let zero : CoreInstructionIF := ⟨0, 0, 0, 0, 0, 0, 0, 0, 0⟩
  let memif : CoreMemoryIF := ⟨0, 0, 0, 0, 0, 0, 0, 0, 0⟩
  let offset := (Loader.startAddr dump - initialPc).extractLsb' 1 20
  have hfetch := fetch_boot hnew hvalid hbin hdump hsp zero memif
    (Fin.elim0 : Fin 0 → Core FunctionalState) memif Fin.elim0
  have hmodels := models_boot zero memif (Fin.elim0 : Fin 0 → Core FunctionalState) memif Fin.elim0
    ld.sections ld.brkAddr
  have hword : (Hart.booted ld.sections).wordAt 19 initialPc = (Instr.jal 0 offset).encode :=
    hmodels.fetch.symm.trans (hfetch.trans (Loader.makeJal_eq_encode _))
  refine ⟨.jal 0 offset, hword, rfl, trivial, ?_⟩
  · have htarget := (jumpReaches_iff _).mpr hreaches
    rw [← htarget]
    rfl

end Boot

section Started

variable {binFile dumpFile spFile : String} {files : LoaderFiles} {ld : Loader}
  (hnew : Loader.new binFile dumpFile spFile files = some ld) (hvalid : ld.valid = true)
  {bin : List Byte} {dump : List Char} {argv : List (List Char)} (hbin : files.bin = some bin)
  (hdump : files.dump = some dump) (hsp : files.sp = some (writeArgs (image spBase argv)))

include hnew hvalid hbin hdump hsp

/-- A binary between the jump and the stack is started with the arguments. -/
theorem startsAt_started (hfits : spBase + imageSize argv ≤ 4 * memWords.toNat)
    (hlow : initialPc.toNat + 4 ≤ (Loader.textAddr dump).toNat)
    (hhigh : (Loader.textAddr dump).toNat + (Loader.binSize bin).toNat ≤ initialSp.toNat) :
    (Hart.started ld.sections (Loader.startAddr dump)).StartsAt (Loader.startAddr dump)
      (Loader.textAddr dump) (bin.take (Loader.binSize bin).toNat) (argv.map encode) := by
  let zero : CoreInstructionIF := ⟨0, 0, 0, 0, 0, 0, 0, 0, 0⟩
  let memif : CoreMemoryIF := ⟨0, 0, 0, 0, 0, 0, 0, 0, 0⟩
  have hmodels := models_boot zero memif (Fin.elim0 : Fin 0 → Core FunctionalState) memif Fin.elim0
    ld.sections ld.brkAddr
  have hlength := length_image spBase argv
  have hwhole : (image spBase argv).length % 4 = 0 := by rw [hlength, imageSize_mod]
  have hcount := Loader.length_stackWords hwhole
  have hbase : initialSp.toNat = spBase := rfl
  refine ⟨rfl, fun r => Function.update_apply (fun _ => 0) regSp initialSp r, ?_, ?_⟩
  · intro d b hd
    obtain ⟨hlt, hb⟩ := List.getElem?_eq_some_iff.mp hd
    rw [List.length_take, lt_min_iff] at hlt
    rw [List.getElem_take] at hb
    rw [← hb]
    exact Loader.loadBytes_image hnew hvalid hbin hdump hsp _ hlow hhigh (by omega) hlt.1 hlt.2
  · have hstack := bytesAt_stack hnew hvalid hbin hdump hsp hwhole (by omega) zero memif
      (Fin.elim0 : Fin 0 → Core FunctionalState) memif Fin.elim0 none
    have hbytes := hmodels.read1b
    change BytesAt (Memory.read1b _ .primary) _ _ at hstack
    rw [hbytes] at hstack
    exact ⟨_, argumentVector hstack⟩

end Started

/-! The run from `_start`. -/

section Run

variable {k : ℕ} {args : SimArgs} {host : Host} {h : Hart}

variable (args host) in
/-- An iteration of the single loop at a covered instruction: one step of the hart, and the last one
at the limit and at a call of exit. -/
theorem Machine.Models.singleBody_covered {t : SingleState FunctionalState}
    (hM : t.machine.Models k h) (hgoing : t.machine.prim.halt = false) (hcovered : h.Covered k) :
    let t' := VeriCross.singleBody args host FunctionalCore.methods t
    (∃ i h', Hart.Step k h i h' ∧ t'.machine.Models k h') ∧
      t'.machine.prim.cntInst = t.machine.prim.cntInst + 1 ∧
      (t'.machine.prim.halt = true ↔ args.maxInsts ≤ t.machine.prim.cntInst + 1 ∨ h.Exits k) := by
  intro t'
  have hready := hM.ready hgoing
  obtain ⟨hdriven, -⟩ :=
    hM.memDrive.step host FunctionalCore.registers hready (hM.memDrive.covered_iff.mpr hcovered)
  obtain ⟨hcnt, hhalt⟩ := prim_singleBody args host hgoing hdriven
  refine ⟨hM.singleBody args host hgoing (hM.covered_iff.mpr hcovered), hcnt, hhalt.trans ?_⟩
  refine or_congr_right ?_
  rw [Hart.Exits, hM.fetch]
  refine and_congr_right fun hecall => ?_
  -- at an `ecall` the cycle leaves the registers
  obtain ⟨-, hcycle⟩ := hM.memDrive.exec_ecall hready hecall
  have hreg := congrFun hcycle.reg regA7
  exact Eq.congr_left hreg

/-- The loop is at a head after a number of steps of the hart. -/
def Follows (k : ℕ) (h₀ : Hart) (j : ℕ) (t : SingleState FunctionalState) : Prop :=
  ∃ trace h, trace.length = j ∧ Hart.LiveRun k h₀ trace h ∧ t.machine.Models k h

/-- The heads at which the loop goes on follow the hart. -/
theorem follows_of_reaches {s t : SingleState FunctionalState} {h₀ : Hart} {j : ℕ}
    (hreach : (singleLoop args host FunctionalCore.methods).Reaches s j t)
    (hstart : s.machine.Models k h₀)
    (hcovered : ∀ trace h, trace.length < j → Hart.LiveRun k h₀ trace h → h.Covered k)
    (hgoing : t.machine.prim.halt = false) : Follows k h₀ j t := by
  induction hreach with
  | start => exact ⟨[], h₀, rfl, .start, hstart⟩
  | @next j u hreach hguard ih =>
    have hbefore := (singleLoop_guard ..).mp hguard
    obtain ⟨trace, h, hlength, hrun, hM⟩ :=
      ih (fun trace h hlt => hcovered trace h (Nat.lt_succ_of_lt hlt)) hbefore
    obtain ⟨⟨i, h', hstep, hM'⟩, -, hhalt⟩ :=
      hM.singleBody_covered args host hbefore (hcovered trace h (by omega) hrun)
    have hexits : ¬h.Exits k := by
      intro hexits
      have hhalted := hhalt.mpr (.inr hexits)
      rw [show (singleBody args host FunctionalCore.methods u).machine.prim.halt = false
        from hgoing] at hhalted
      cases hhalted
    refine ⟨trace ++ [i], h', ?_, hrun.next ⟨hstep, hexits⟩, hM'⟩
    rw [List.length_append, hlength, List.length_singleton]

/-- Where the loop ends, the hart is at the limit or calls exit. -/
theorem ends_of_reaches {s u : SingleState FunctionalState} {h₀ : Hart} {j : ℕ}
    (hu : (singleLoop args host FunctionalCore.methods).Reaches s j u)
    (hgoing : u.machine.prim.halt = false)
    (hexit : (singleBody args host FunctionalCore.methods u).machine.prim.halt = true)
    (hstart : s.machine.Models k h₀)
    (hcovered : ∀ trace h, trace.length ≤ j → Hart.LiveRun k h₀ trace h → h.Covered k) :
    (singleBody args host FunctionalCore.methods u).machine.prim.cntInst =
        u.machine.prim.cntInst + 1 ∧
      ∃ trace h, Hart.LiveRun k h₀ trace h ∧ (trace.length = j ∧ h.Exits k ∨
        trace.length = j + 1 ∧ args.maxInsts ≤ u.machine.prim.cntInst + 1) := by
  obtain ⟨trace, h, hlength, hrun, hM⟩ :=
    follows_of_reaches hu hstart (fun trace h hlt => hcovered trace h hlt.le) hgoing
  obtain ⟨⟨i, h', hstep, -⟩, hcnt, hhalt⟩ :=
    hM.singleBody_covered args host hgoing (hcovered trace h hlength.le hrun)
  refine ⟨hcnt, ?_⟩
  by_cases hexits : h.Exits k
  · exact ⟨trace, h, hrun, .inl ⟨hlength, hexits⟩⟩
  · refine ⟨trace ++ [i], h', hrun.next ⟨hstep, hexits⟩, .inr ⟨?_, ?_⟩⟩
    · rw [List.length_append, hlength, List.length_singleton]
    · exact (hhalt.mp hexit).resolve_right hexits

end Run

/-- The single loop, from the boot jump to its end: it counts the jump and the instructions of the
program, and the call of exit. -/
theorem singleLoop_of_boot {args : SimArgs} {host : Host} {start t : SingleState FunctionalState}
    {booted h₀ : Hart} {i : Instr} {k : ℕ} (hM : start.machine.Models k booted)
    (hgoing : start.machine.prim.halt = false) (hcnt : start.machine.prim.cntInst = 0)
    (hencodes : i.Encodes (booted.wordAt k booted.pc)) (huser : i.isUser = true)
    (hdomain : i.InDomain booted.reg booted.pc) (hexec : i.exec k booted = h₀)
    (hreturns : (singleLoop args host FunctionalCore.methods).Returns start t)
    (hcovered : ∀ trace h, trace.length + 1 < max 1 args.maxInsts.toNat →
      Hart.LiveRun k h₀ trace h → h.Covered k) :
    ∃ trace h, Hart.LiveRun k h₀ trace h ∧
      (t.machine.prim.cntInst.toNat = trace.length + 1 ∧
          t.machine.prim.cntInst.toNat = max 1 args.maxInsts.toNat ∨
        t.machine.prim.cntInst.toNat = trace.length + 2 ∧ h.Exits k) := by
  obtain ⟨n, hreach, hexit⟩ := hreturns
  have hhalted : t.machine.prim.halt = true := by
    have hnot : (!t.machine.prim.halt) = false := hexit
    simpa using hnot
  obtain ⟨hM₁, hcnt₁, hhalt₁⟩ := hM.singleBody_exec args host hgoing hencodes huser hdomain
  rw [hexec] at hM₁
  rw [hcnt] at hcnt₁ hhalt₁
  cases n with
  | zero =>
    cases hreach
    rw [hgoing] at hhalted
    cases hhalted
  | succ n =>
    obtain ⟨hguard, hrest⟩ := hreach.tail
    cases n with
    | zero =>
      cases hrest
      refine ⟨[], h₀, .start, .inl ⟨congrArg BitVec.toNat hcnt₁, ?_⟩⟩
      have hlimit := hhalt₁.mp hhalted
      rw [BitVec.le_def] at hlimit
      change _ ≤ 1 at hlimit
      rw [max_eq_left hlimit]
      exact congrArg BitVec.toNat hcnt₁
    | succ j =>
      obtain ⟨u, hu, hguard', rfl⟩ := WhileLoop.reaches_succ_iff.mp hrest
      have hgoing' := (singleLoop_guard ..).mp hguard'
      obtain ⟨hcount, hbelow⟩ := (counting_of_reaches hcnt (hu.head hguard)).going hgoing'
      have hj : j + 1 < args.maxInsts.toNat := hbelow.resolve_left (Nat.succ_ne_zero j)
      obtain ⟨hlast, trace, h, hrun, hends⟩ := ends_of_reaches hu hgoing' hhalted hM₁
        fun trace h hlength => hcovered trace h (by omega)
      have htotal : (u.machine.prim.cntInst + 1).toNat = j + 2 := toNat_succ_of_below hcount hbelow
      have hfinal : ((singleLoop args host FunctionalCore.methods).body
          u).machine.prim.cntInst.toNat = j + 2 := (congrArg BitVec.toNat hlast).trans htotal
      rw [hfinal]
      refine ⟨trace, h, hrun, ?_⟩
      rcases hends with ⟨hlength, hexits⟩ | ⟨hlength, hlimit⟩
      · exact .inr ⟨by omega, hexits⟩
      · rw [BitVec.le_def, htotal] at hlimit
        exact .inl ⟨by omega, by omega⟩

/-- From the files to the program. For every accepted command line without a core model, a binary
that lies between the jump and the stack and a stack file that the script wrote from an argument
string, the program is started at `_start` with its arguments. If it keeps to the instructions and
operands on which the functional core follows the manual, whatever the environment answers, `main`
returns zero and prints the length of a run of the manual from `_start` without a call of exit, plus
the jump: at the limit, or with the call of exit that follows. -/
theorem main_follows_manual {τ υ ρ : Type} (B : Build τ υ ρ) (env : Environment) (name : String)
    (options : List GetoptResult) (operands : List String) {s : ArgState}
    (hcheck : checkarg options operands = some (s, .success)) (hproc : s.args.procOnly = false)
    (hcore : s.args.coreType = "") {argStr : List Char} {bin mem : List Byte} {dump : List Char}
    (hfits : spBase + imageSize (argStr.splitOn ' ') ≤ 4 * memWords.toNat)
    (hmem : genArgs argStr spBase = some mem)
    (hfiles : env.files s.args.baseDir s.args.binFile s.args.dumpFile s.args.spFile =
      ⟨none, some bin, some dump, some (writeArgs mem)⟩)
    (hrefuses : env.refuses s.args = none) (hstart : Loader.startAddr dump ≠ 0)
    (hreaches : JumpReaches (Loader.startAddr dump))
    (hlow : initialPc.toNat + 4 ≤ (Loader.textAddr dump).toNat)
    (hhigh : (Loader.textAddr dump).toNat + bin.length ≤ initialSp.toNat) :
    ∃ h₀ : Hart, h₀.StartsAt (Loader.startAddr dump) (Loader.textAddr dump)
        (bin.take (bin.length / 4 * 4)) ((argStr.splitOn ' ').map encode) ∧
      ((∀ trace h, trace.length + 1 < max 1 s.args.maxInsts.toNat →
          Hart.LiveRun 19 h₀ trace h → h.Covered 19) →
        ∃ fuel o trace h, main B env fuel name options operands = some o ∧ o.status = 0 ∧
          o.err = [] ∧ Hart.LiveRun 19 h₀ trace h ∧ ∃ count : ℕ,
            o.out.getLast? = some s!"## Processor stopped after executing {count} insts." ∧
            (count = trace.length + 1 ∧ count = max 1 s.args.maxInsts.toNat ∨
              count = trace.length + 2 ∧ h.Exits 19)) := by
  have hmemory : 4 * memWords.toNat = 2 ^ 21 := rfl
  have hspAddr : initialSp.toNat = 0x1e6400 := rfl
  obtain rfl : image spBase (argStr.splitOn ' ') = mem :=
    Option.some_inj.mp ((genArgs_eq argStr spBase (by omega)).symm.trans hmem)
  have hsmall : bin.length < 2 ^ 31 := by omega
  obtain ⟨ld, hnew, hvalid⟩ := Loader.exists_valid_image s.args.binFile s.args.dumpFile
    s.args.spFile (List.splitOn_ne_nil ' ' argStr) hfits hsmall hstart
  have hload : env.loader s.args = some ld := by
    rw [Environment.loader, hfiles]
    exact hnew
  have hcores : B.cores s.args = some .functional := by
    rw [Build.cores, hproc, hcore]
    rfl
  have hsize := Loader.toNat_binSize bin
  have hwhole : (Loader.binSize bin).toNat = bin.length / 4 * 4 := by omega
  have hstarts := startsAt_started hnew hvalid rfl rfl rfl hfits hlow (by omega)
  rw [hwhole] at hstarts
  refine ⟨_, hstarts, fun hcovered => ?_⟩
  obtain ⟨fuel, r, hr⟩ := (Cores.exists_simulate_iff B s.args.simArgs env.host ld.sections
    ld.brkAddr .functional (by intro V hconcurrent; cases hconcurrent)).mpr id
  have hrun := runSimulation_of_accepts hcores ⟨hload, hvalid, hrefuses⟩ fuel
  rw [hr, Option.map_some] at hrun
  obtain ⟨t, ht, rfl⟩ := Option.map_eq_some_iff.mp hr
  obtain ⟨i, hencodes, huser, hdomain, hexec⟩ := exec_boot hnew hvalid rfl rfl rfl hreaches
  obtain ⟨trace, h, hlive, hcount⟩ := singleLoop_of_boot (models_boot B.functionalInstif
    B.functionalMemif (Fin.elim0 : Fin 0 → Core FunctionalState) B.ifPrim Fin.elim0 ld.sections
    ld.brkAddr) rfl rfl hencodes huser hdomain hexec (WhileLoop.returns_of_run ht) hcovered
  let r : LoopResult := ⟨t.machine.prim.cntInst, [], t.log⟩
  refine ⟨fuel, r.outcome s.args, trace, h, ?_, rfl, rfl, hlive, _, r.getLast?_out s.args, hcount⟩
  rw [main, hcheck]
  exact hrun

/-- A word whose bytes lie at an address is fetched from there. -/
theorem Hart.wordAt_of_bytesAt {k : ℕ} {h : Hart} {addr w : Word}
    (hbytes : BytesAt (fun addr => h.bytes (byteCell k addr)) addr (wordBytes w)) :
    h.wordAt k addr = w := by
  have hbyte : ∀ d b, (wordBytes w)[d]? = some b → h.bytesFrom k addr d = b := hbytes
  rw [wordAt, LoadOp.value, hbyte 0 _ rfl, hbyte 1 _ rfl, hbyte 2 _ rfl, hbyte 3 _ rfl]
  exact (bytesWord_four ..).symm.trans (bytesWord_wordBytes w)

/-- Jumps are the instructions that are decoded as jumps. -/
theorem Instr.eq_jal_of_id {i : Instr} (hid : i.id = .jal) : ∃ rd imm, i = .jal rd imm := by
  cases i with
  | jal rd imm => exact ⟨rd, imm, rfl⟩
  | load o | store o | branch o | opImm o | shift o | op o | env o | csrReg o | csrImm o =>
    cases o <;> simp [id] at hid
  | _ => simp [id] at hid

/-- The jump to itself leaves the hart as it is. -/
theorem Instr.exec_selfJump {k : ℕ} {h : Hart} {i : Instr} (hi : i.Encodes 0x0000006f) :
    i.exec k h = h := by
  have hjal : ∃ rd imm, i = .jal rd imm := by
    cases i with
    | fence => exact absurd hi.1 (by decide)
    | fencei => exact absurd hi.1 (by decide)
    | _ =>
      have hid := congrArg (fun ir => (RiscVInstruction.decode 0 ir).instrId) hi
      rw [instrId_decode] at hid
      exact eq_jal_of_id hid.symm
  obtain ⟨rd, imm, rfl⟩ := hjal
  have hir : 0x0000006f = (Instr.jal rd imm).encode := hi
  have hrd : _ = rd.setWidth 32 := (Instr.jal rd imm).operandsOf_decode 0
  have himm := (Instr.jal rd imm).imm_decode 0 rfl
  rw [← hir] at hrd himm
  have hzero : rd = 0 := by
    have hword : (RiscVInstruction.decode 0 0x0000006f).rd = 0 := by decide
    have hnat := congrArg BitVec.toNat (hword.symm.trans hrd)
    rw [BitVec.toNat_setWidth] at hnat
    have hlt := rd.isLt
    apply BitVec.eq_of_toNat_eq
    change 0 = _ at hnat
    change _ = 0
    omega
  have hpc : h.pc + (imm ++ 0#1).signExtend 32 = h.pc := by
    rw [← himm]
    exact BitVec.add_zero h.pc
  subst hzero
  change { h with pc := h.pc + (imm ++ 0#1).signExtend 32 } = h
  rw [hpc]

/-- A program that jumps to itself is stopped at the limit of the command line. -/
theorem selfJump_follows_manual :
    let argv := ["./a".toList]
    let env := programEnvironment [0x6f, 0, 0, 0] "00010010 <_start>:\n".toList
      (writeArgs (image spBase argv))
    ∃ fuel o, main (playbackBuild []) env fuel "vericross" [⟨'i', 0, "10"⟩] ["image", "a", "a"] =
        some o ∧ o.status = 0 ∧
      o.out.getLast? = some "## Processor stopped after executing 10 insts." := by
  intro argv env
  have hargv : "./a".toList.splitOn ' ' = argv := List.splitOn_eq_singleton (by decide)
  have hsize : imageSize argv = 20 := by
    rw [imageSize, List.flatMap_singleton, length_argData]
    decide
  have hfits : spBase + imageSize ("./a".toList.splitOn ' ') ≤ 4 * memWords.toNat := by
    rw [hargv, hsize]
    decide
  have hmem := genArgs_eq "./a".toList spBase (hfits.trans (by decide))
  rw [hargv] at hmem
  obtain ⟨h₀, hstarts, hruns⟩ := main_follows_manual (playbackBuild []) env "vericross"
    [⟨'i', 0, "10"⟩] ["image", "a", "a"] rfl rfl rfl hfits hmem rfl rfl (by decide)
    (by decide) (by decide) (by decide)
  have hword : h₀.wordAt 19 h₀.pc = 0x0000006f := by
    rw [hstarts.pc]
    exact Hart.wordAt_of_bytesAt hstarts.binary
  have hnot : ¬(Instr.env .ecall).Encodes (h₀.wordAt 19 h₀.pc) := by
    intro hecall
    have hwords : (0x0000006f : Word) = (Instr.env .ecall).encode := hword.symm.trans hecall
    exact absurd hwords (by decide)
  have hstays : ∀ trace h, Hart.LiveRun 19 h₀ trace h → h = h₀ := by
    intro trace h hrun
    induction hrun with
    | start => rfl
    | next _ hstep ih =>
      subst ih
      rcases hstep.1 with ⟨hi, -⟩ | ⟨hecall, -⟩
      · rw [hword] at hi
        exact Instr.exec_selfJump hi
      · exact absurd hecall hnot
  obtain ⟨fuel, o, trace, h, hmain, hstatus, -, hrun, count, hlast, hcount⟩ :=
    hruns fun trace h _ hrun => by
      obtain rfl := hstays trace h hrun
      exact ⟨.jal 0 0, hword, .inr ⟨rfl, trivial⟩⟩
  obtain rfl := hstays trace h hrun
  have hten : count = 10 := hcount.elim (fun hlimit => hlimit.2) fun hexit => absurd hexit.2.1 hnot
  rw [hten] at hlast
  exact ⟨fuel, o, hmain, hstatus, hlast⟩

end VeriCross
