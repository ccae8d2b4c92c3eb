import VeriCross.Sim.Steps
import VeriCross.SysCall.Primitives

/-!
# What one iteration can do

From the two steps follows everything an iteration of the main loop can do to the counters, the
halt flags and the output, in terms of its round.
-/

namespace VeriCross

open RiscV SysCall

variable {β : Type} {args : SimArgs} {host : Host} {V : CoreMethods β}

section Round

variable (args V)

/-- The verilated step that follows the functional step in the next iteration. -/
def nextRun (s : ConcurrentState β) : VerilatedRun β :=
  verilatedStep args V (functionalStep args s.machine).machine s.cycleCount

/-- The round of the next iteration. -/
def nextRound (s : ConcurrentState β) : Round :=
  let f := functionalStep args s.machine
  let v := nextRun args V s
  let fif := v.machine.prim.instif
  let vif := (v.machine.reps 0).instif
  { functional := if f.driven then some f.machine.prim.instif else none
    verilated := v.retired
    fif := fif
    vif := vif
    accepted := Validator.accepts fif vif
    emulated :=
      if Validator.accepts fif vif && decide (fif.ir = 0x00000073) then
        some (v.machine.readReg FunctionalCore.registers regA7)
      else none }

end Round

/-- An iteration adds its round. -/
theorem rounds_concurrentBody (s : ConcurrentState β) :
    (concurrentBody args host V s).rounds = s.rounds ++ [nextRound args V s] := by
  rw [concurrentBody]
  dsimp only
  split <;> rfl

/-- What all the rounds after an iteration satisfy, those before and its own do. -/
theorem forall_rounds_concurrentBody {Q : Round → Prop} {s : ConcurrentState β} :
    (∀ r ∈ (concurrentBody args host V s).rounds, Q r) ↔
      (∀ r ∈ s.rounds, Q r) ∧ Q (nextRound args V s) := by
  rw [rounds_concurrentBody, List.forall_mem_append, List.forall_mem_singleton]

/-- The machine after an iteration, from the machine after both steps. -/
theorem machine_concurrentBody (s : ConcurrentState β) :
    (concurrentBody args host V s).machine =
      if (nextRound args V s).accepted = false then (nextRun args V s).machine.haltCores
      else if (nextRound args V s).emulated.isSome then
        (nextRun args V s).machine.emulate host FunctionalCore.registers V.toRegisterMethods
      else (nextRun args V s).machine := by
  have hsome : ∀ (c : Bool) (x : Word), (if c then some x else none).isSome = c := by
    intro c x
    cases c <;> rfl
  rw [concurrentBody, nextRound]
  dsimp only
  rw [hsome]
  rw [nextRun, Validator.accepts]
  split <;> rfl

/-- An accepted pair prints nothing, puts the functional record into the ring buffer and is
logged. -/
theorem concurrentBody_of_accepted {s : ConcurrentState β}
    (h : (nextRound args V s).accepted = true) :
    let info := RiscVLogInfo.new (nextRun args V s).machine.mem.read (nextRound args V s).fif
    (concurrentBody args host V s).out = s.out ∧
      (concurrentBody args host V s).logBuffer =
        (if 0 < args.mismatchInsts.toInt then
          Function.update s.logBuffer
            ((nextRun args V s).machine.prim.cntInst.toNat % args.mismatchInsts.toNat) (some info)
        else s.logBuffer) ∧
      (concurrentBody args host V s).overflow = s.overflow ∧
      (concurrentBody args host V s).log =
        if args.log then s.log ++ [info.getLog.1] else s.log := by
  have hverdict : Validator.accepts _ _ = true := h
  unfold Validator.accepts nextRun at hverdict
  rw [concurrentBody]
  dsimp only
  rw [if_neg]
  · exact ⟨rfl, rfl, rfl, rfl⟩
  · rw [hverdict]
    decide

/-- An accepted pair prints nothing. -/
theorem out_of_accepted {s : ConcurrentState β} (h : (nextRound args V s).accepted = true) :
    (concurrentBody args host V s).out = s.out :=
  (concurrentBody_of_accepted h).1

/-- The report of a mismatch starts with a failure. -/
theorem mismatch_mem_mismatchLines (logBuffer : ℕ → Option RiscVLogInfo) (vld : Validator)
    (M : Machine 1 FunctionalState β) :
    .mismatch M.prim.cntInst ∈ mismatchLines args logBuffer vld M := by
  simp only [mismatchLines, List.append_assoc]
  exact List.mem_cons_self

/-- An accepted pair puts the functional record into the ring buffer. -/
theorem logBuffer_of_accepted {s : ConcurrentState β} (h : (nextRound args V s).accepted = true) :
    (concurrentBody args host V s).logBuffer =
      if 0 < args.mismatchInsts.toInt then
        Function.update s.logBuffer
          ((nextRun args V s).machine.prim.cntInst.toNat % args.mismatchInsts.toNat)
          (some (RiscVLogInfo.new (nextRun args V s).machine.mem.read (nextRound args V s).fif))
      else s.logBuffer :=
  (concurrentBody_of_accepted h).2.1

/-- A mismatch is reported with the ring buffer and the counter after both steps, unless an index
overflows, and leaves the ring buffer. -/
theorem concurrentBody_of_rejected {s : ConcurrentState β}
    (h : (nextRound args V s).accepted = false) :
    (∃ vld, (concurrentBody args host V s).out =
        s.out ++ mismatchLines args s.logBuffer vld (nextRun args V s).machine) ∧
      (concurrentBody args host V s).overflow =
        (s.overflow || reportOverflows args s.logBuffer (nextRun args V s).machine) ∧
      (concurrentBody args host V s).logBuffer = s.logBuffer := by
  have hverdict : Validator.accepts _ _ = false := h
  unfold Validator.accepts nextRun at hverdict
  rw [concurrentBody]
  dsimp only
  rw [if_pos hverdict]
  exact ⟨⟨_, rfl⟩, rfl, rfl⟩

/-- A size that is positive as an `int`. -/
theorem toNat_of_toInt_pos {x : Word} (h : 0 < x.toInt) : 0 < x.toNat ∧ x.toNat < 0x80000000 := by
  have hcond := BitVec.toInt_eq_toNat_cond x
  split at hcond <;> omega

/-- Mapping succeeds when it does for all the elements. -/
theorem mapM_eq_some {α β : Type} {f : α → Option β} {g : α → β} {xs : List α}
    (h : ∀ x ∈ xs, f x = some (g x)) : xs.mapM f = some (xs.map g) := by
  induction xs with
  | nil => rfl
  | cons x xs ih =>
    rw [List.mapM_cons, h x List.mem_cons_self, ih fun y hy => h y (List.mem_cons_of_mem x hy)]
    rfl

/-- The lines of the report are what the buffer holds at the indices, when these fit. -/
theorem historyLines_of_fits {logBuffer : ℕ → Option RiscVLogInfo} {cntInst : Counter}
    (hfits : cntInst.toNat % args.mismatchInsts.toNat + args.mismatchInsts.toNat ≤ 0x80000000) :
    historyLines args logBuffer cntInst =
      some ((List.range args.mismatchInsts.toNat).filterMap fun i =>
        (logBuffer ((cntInst.toNat + i) % args.mismatchInsts.toNat)).map fun info =>
          .history (args.mismatchInsts.toNat - i) info.getLog.1) := by
  have hindex : ∀ i ∈ List.range args.mismatchInsts.toNat,
      historyIndex args (cntInst.toNat % args.mismatchInsts.toNat) i =
        some ((cntInst.toNat + i) % args.mismatchInsts.toNat) := by
    intro i hi
    rw [List.mem_range] at hi
    rw [historyIndex, if_pos (by omega), Nat.mod_add_mod]
  unfold historyLines
  dsimp only
  rw [mapM_eq_some fun i hi => by rw [hindex i hi, Option.map_some], Option.map_some,
    List.filterMap_map]
  rfl

/-- With a history of at most `2 ^ 30` instructions no index overflows. -/
theorem reportOverflows_eq_false (hsmall : args.mismatchInsts.toNat ≤ 0x40000000)
    (logBuffer : ℕ → Option RiscVLogInfo) (M : Machine 1 FunctionalState β) :
    reportOverflows args logBuffer M = false := by
  rw [reportOverflows, Bool.and_eq_false_imp, decide_eq_true_eq]
  intro hN
  have hstart := Nat.mod_lt M.prim.cntInst.toNat (toNat_of_toInt_pos hN).1
  rw [historyLines_of_fits (by omega)]
  rfl

/-- With a history of at most `2 ^ 30` instructions a run is defined. -/
theorem overflow_of_reaches (hsmall : args.mismatchInsts.toNat ≤ 0x40000000)
    {M : Machine 1 FunctionalState β} {k : ℕ} {t : ConcurrentState β}
    (h : (concurrentLoop args host V).Reaches (concurrentStart V M) k t) : t.overflow = false := by
  refine h.invariant (I := fun _ t => t.overflow = false) rfl fun k t _ _ ih => ?_
  change (concurrentBody args host V t).overflow = false
  cases haccepted : (nextRound args V t).accepted with
  | false =>
    rw [(concurrentBody_of_rejected haccepted).2.1, ih, reportOverflows_eq_false hsmall]
    rfl
  | true => exact (concurrentBody_of_accepted haccepted).2.2.1.trans ih

variable (host) in
/-- A mismatch is reported with the ring buffer and the counter after both steps. -/
theorem out_of_rejected {s : ConcurrentState β} (h : (nextRound args V s).accepted = false) :
    ∃ vld, (concurrentBody args host V s).out =
      s.out ++ mismatchLines args s.logBuffer vld (nextRun args V s).machine :=
  (concurrentBody_of_rejected h).1

variable (host) in
/-- A mismatch is reported. -/
theorem reported_of_mismatch {s : ConcurrentState β} (h : (nextRound args V s).accepted = false) :
    ∃ line ∈ (concurrentBody args host V s).out, line.isFailure = true := by
  obtain ⟨vld, hout⟩ := out_of_rejected host h
  rw [hout]
  exact ⟨_, List.mem_append_right _ (mismatch_mem_mismatchLines ..), rfl⟩

/-- What is shown to the validator of the functional core is what its step left. -/
theorem nextRound_fif (s : ConcurrentState β) :
    (nextRound args V s).fif = (functionalStep args s.machine).machine.prim.instif :=
  congrArg Core.instif (samePrimary_verilatedStep ..).prim

variable (args V) in
/-- The functional record of a round is the shown one, and is there exactly when the fetched
word is a known instruction. -/
theorem nextRound_functional {s : ConcurrentState β} (hhalt : s.machine.prim.halt = false)
    (hmemory : s.machine.prim.self.memory = true) :
    (nextRound args V s).functional =
      if (FunctionalCore.instruction s.machine.mem.read s.machine.prim).instrId = .unknown then none
      else some (nextRound args V s).fif := by
  have hspec := functionalStep_spec args hhalt hmemory
  rw [nextRound_fif]
  change (if (functionalStep args s.machine).driven then _ else none) = _
  by_cases hunknown :
      (FunctionalCore.instruction s.machine.mem.read s.machine.prim).instrId = .unknown
  · rw [if_pos hunknown, if_neg fun h => hspec.driven.mp h hunknown]
  · rw [if_neg hunknown, if_pos (hspec.driven.mpr hunknown)]

variable (args V) in
/-- A functional core that refuses a word shows its old record. -/
theorem nextRound_stale {s : ConcurrentState β} (hhalt : s.machine.prim.halt = false)
    (hmemory : s.machine.prim.self.memory = true)
    (hunknown : (FunctionalCore.instruction s.machine.mem.read s.machine.prim).instrId = .unknown) :
    (nextRound args V s).fif = { s.machine.prim.instif with valid := 0 } := by
  have hspec := functionalStep_spec args hhalt hmemory
  rw [nextRound_fif, hspec.stale]
  rw [← Bool.not_eq_true, hspec.driven, not_not]
  exact hunknown

variable (args V) in
/-- The machine after both steps still has the functional core bound to the memory. -/
theorem memory_nextRun {s : ConcurrentState β} (hhalt : s.machine.prim.halt = false)
    (hmemory : s.machine.prim.self.memory = true) :
    (nextRun args V s).machine.prim.self.memory = true := by
  have hspec := functionalStep_spec args hhalt hmemory
  rw [nextRun, (samePrimary_verilatedStep ..).prim]
  exact hspec.memory

/-- An iteration keeps the functional core bound to the memory. -/
theorem memory_concurrentBody {s : ConcurrentState β} (hhalt : s.machine.prim.halt = false)
    (hmemory : s.machine.prim.self.memory = true) :
    (concurrentBody args host V s).machine.prim.self.memory = true := by
  have hrun := memory_nextRun args V hhalt hmemory
  rw [machine_concurrentBody]
  split
  · exact hrun
  · split
    · exact Machine.emulate_invariant (P := FunctionalCore.registers) (R := V.toRegisterMethods)
        (I := fun M => M.prim.self.memory = true) (fun _ h _ => h) (fun _ h _ _ => h)
        (fun _ h _ => h) (fun _ h _ => h) host hrun fun _ => hrun
    · exact hrun

/-- A system call is emulated exactly when the pair is accepted and the shown word is an
`ecall`; its number is in `a7`. -/
theorem nextRound_emulated_iff (s : ConcurrentState β) (number : Word) :
    (nextRound args V s).emulated = some number ↔
      (nextRound args V s).accepted = true ∧ (nextRound args V s).fif.ir = 0x00000073 ∧
        (nextRun args V s).machine.readReg FunctionalCore.registers regA7 = number := by
  change (if ((nextRound args V s).accepted && decide ((nextRound args V s).fif.ir = 0x00000073)) =
    true then some _ else none) = _ ↔ _
  rw [Option.ite_none_right_eq_some, Bool.and_eq_true, decide_eq_true_eq, Option.some_inj,
    and_assoc]

/-- A call is emulated in a round exactly when the pair is accepted and the shown word is an
`ecall`. -/
theorem nextRound_emulates_iff (s : ConcurrentState β) :
    (nextRound args V s).emulated.isSome = true ↔
      (nextRound args V s).accepted = true ∧ (nextRound args V s).fif.ir = 0x00000073 := by
  rw [Option.isSome_iff_exists]
  simp only [nextRound_emulated_iff, exists_and_left, exists_eq', and_true]

variable (args host) in
/-- The three ends of an iteration: a mismatch, an emulated call, and neither. -/
theorem machine_cases (s : ConcurrentState β) :
    let t := concurrentBody args host V s
    let M := (nextRun args V s).machine
    let r := nextRound args V s
    (r.accepted = false ∧ t.machine = M.haltCores) ∨
    (r.accepted = true ∧ r.emulated = some (M.readReg FunctionalCore.registers regA7) ∧
      t.machine = M.emulate host FunctionalCore.registers V.toRegisterMethods) ∨
    (r.accepted = true ∧ r.emulated = none ∧ t.machine = M) := by
  intro t M r
  have hmachine : t.machine = if r.accepted = false then M.haltCores
      else if r.emulated.isSome then
        M.emulate host FunctionalCore.registers V.toRegisterMethods
      else M := machine_concurrentBody s
  rw [hmachine]
  cases hr : r.accepted with
  | false => exact .inl ⟨rfl, if_pos rfl⟩
  | true =>
    rw [if_neg (by decide)]
    cases he : r.emulated with
    | none => exact .inr (.inr ⟨rfl, rfl, rfl⟩)
    | some number =>
      obtain ⟨-, -, hnumber⟩ := (nextRound_emulated_iff s number).mp he
      exact .inr (.inl ⟨rfl, congrArg some hnumber.symm, rfl⟩)

variable (args host) in
/-- The end of an iteration counts no instruction of the functional core, and stops it after a
mismatch and when the program exits. -/
theorem prim_concurrentBody (s : ConcurrentState β) :
    let t := concurrentBody args host V s
    let M := (nextRun args V s).machine
    let r := nextRound args V s
    t.machine.prim.cntInst = M.prim.cntInst ∧
      (t.machine.prim.halt = true ↔
        r.accepted = false ∨ M.prim.halt = true ∨ r.emulated = some scExit) := by
  intro t M r
  have hemulate :=
    M.emulate_prim host (R := V.toRegisterMethods) FunctionalCore.registers_lawful.toKeepsCounts
  rcases machine_cases args host (V := V) s with ⟨hr, ht⟩ | ⟨hr, he, ht⟩ | ⟨hr, he, ht⟩
  · rw [ht, hr]
    simp [Machine.haltCores, M]
  · rw [ht, hr, he]
    refine ⟨hemulate.1, ?_⟩
    rw [hemulate.2]
    simp [M]
  · rw [ht, hr, he]
    simp [M]

variable (args host) in
/-- The end of an iteration counts no instruction of the verilated core, and stops it after a
mismatch and when the program exits. -/
theorem rep_concurrentBody (hV : V.CountsRetired) (s : ConcurrentState β) :
    let t := concurrentBody args host V s
    let M := (nextRun args V s).machine
    let r := nextRound args V s
    (t.machine.reps 0).cntInst = (M.reps 0).cntInst ∧
      ((t.machine.reps 0).halt = true ↔
        r.accepted = false ∨ (M.reps 0).halt = true ∨ r.emulated = some scExit) := by
  intro t M r
  have hemulate := M.emulate_rep host (P := FunctionalCore.registers) hV.keepsCounts 0
  rcases machine_cases args host (V := V) s with ⟨hr, ht⟩ | ⟨hr, he, ht⟩ | ⟨hr, he, ht⟩
  · rw [ht, hr]
    simp [Machine.haltCores, M]
  · rw [ht, hr, he]
    refine ⟨hemulate.1, ?_⟩
    rw [hemulate.2]
    simp [M]
  · rw [ht, hr, he]
    simp [M]

/-- A round without a functional record is one in which the functional step was refused. -/
theorem nextRound_functional_eq_none_iff (s : ConcurrentState β) :
    (nextRound args V s).functional = none ↔
      (functionalStep args s.machine).driven = false := by
  change (if (functionalStep args s.machine).driven then _ else none) = none ↔ _
  cases (functionalStep args s.machine).driven <;> simp

variable (args host V) in
/-- What an iteration does to the counter and the halt flag of the functional core, whatever the
verilated core does. -/
theorem concurrentBody_prim {s : ConcurrentState β} (hprim : s.machine.prim.halt = false)
    (hmemory : s.machine.prim.self.memory = true) :
    let t := concurrentBody args host V s
    let r := nextRound args V s
    t.machine.prim.cntInst =
        (if r.functional = none then s.machine.prim.cntInst else s.machine.prim.cntInst + 1) ∧
      (t.machine.prim.halt = true ↔
        r.accepted = false ∨ args.maxInsts ≤ t.machine.prim.cntInst ∨ r.functional = none ∨
          r.emulated = some scExit) := by
  intro t r
  have hf := functionalStep_spec args hprim hmemory
  have hsame : (nextRun args V s).machine.prim = (functionalStep args s.machine).machine.prim :=
    (samePrimary_verilatedStep ..).prim
  have hnone : r.functional = none ↔ _ := nextRound_functional_eq_none_iff s
  obtain ⟨hcnt, hhalt⟩ := prim_concurrentBody args host (V := V) s
  have hcntInst : t.machine.prim.cntInst = _ := hcnt.trans (congrArg Core.cntInst hsame)
  constructor
  · rw [hcntInst, hf.cntInst]
    simp only [hnone]
    cases (functionalStep args s.machine).driven <;> rfl
  · rw [hhalt, hsame, hf.halt, hcntInst, hnone]
    simp [or_assoc, r]

/-- What an iteration does to the counters and the halt flags, in terms of its round. -/
structure RoundSpec (args : SimArgs) (s t : ConcurrentState β) (r : Round) : Prop where
  verilated : r.verilated = [] ∨ r.verilated = [r.vif]
  primCnt : t.machine.prim.cntInst =
    if r.functional = none then s.machine.prim.cntInst else s.machine.prim.cntInst + 1
  repCnt : (t.machine.reps 0).cntInst =
    if r.verilated = [] then (s.machine.reps 0).cntInst else (s.machine.reps 0).cntInst + 1
  primHalt : t.machine.prim.halt = true ↔
    r.accepted = false ∨ args.maxInsts ≤ t.machine.prim.cntInst ∨ r.functional = none ∨
      r.emulated = some scExit
  repHalt : (t.machine.reps 0).halt = true ↔
    r.accepted = false ∨ args.maxInsts ≤ (t.machine.reps 0).cntInst ∨ r.verilated = [] ∨
      r.emulated = some scExit

variable (args host) in
/-- An iteration meets its description. -/
theorem concurrentBody_spec (hV : V.CountsRetired) {s : ConcurrentState β}
    (hprim : s.machine.prim.halt = false) (hrep : (s.machine.reps 0).halt = false)
    (hmemory : s.machine.prim.self.memory = true) :
    RoundSpec args s (concurrentBody args host V s) (nextRound args V s) := by
  have hf := functionalStep_spec args hprim hmemory
  have hreps : ((functionalStep args s.machine).machine.reps 0) = s.machine.reps 0 :=
    congrFun hf.reps 0
  have hv : VerilatedSpec args _ (nextRun args V s) :=
    verilatedStep_spec hV (by rw [hreps]; exact hrep) s.cycleCount
  obtain ⟨hcnt, hhalt⟩ := concurrentBody_prim args host V hprim hmemory
  obtain ⟨hcnts, hhalts⟩ := rep_concurrentBody args host hV s
  exact
    { verilated := hv.retired
      primCnt := hcnt
      repCnt := by
        rw [hcnts, hv.cntInst, hreps]
        rfl
      primHalt := hhalt
      repHalt := by
        rw [hhalts, hv.halt, hcnts]
        simp only [Bool.or_eq_true, decide_eq_true_eq, or_assoc]
        rfl }

end VeriCross
