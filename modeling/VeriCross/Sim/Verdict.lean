import VeriCross.Sim.Lockstep

/-!
# The verdict

A run without a failure line should mean that both cores retired the same instructions until the
program exited or the limit was reached. The report rests on the validator, which looks at stale
records too, and on the halt flags being different. A run whose last iteration left one core
without an instruction goes unnoticed exactly when the leftover record is accepted and the other
core stops in the same iteration.
-/

namespace VeriCross

open RiscV SysCall

variable {β : Type} {args : SimArgs} {host : Host} {V : CoreMethods β}

/-- No failure was printed. -/
def Silent (t : ConcurrentState β) : Prop :=
  ∀ line ∈ concurrentFinish t, line.isFailure = false

/-- The last instruction that the functional core retired called exit. -/
def Exited (t : ConcurrentState β) : Prop :=
  ∃ r, t.rounds.getLast? = some r ∧ r.functional ≠ none ∧ r.emulated = some scExit

/-- The verdict on a finished run is sound: without a failure line both cores retired the same
number of instructions, in every iteration one, and the run ended by a call of exit or at the
instruction limit. -/
def VerdictSound (args : SimArgs) (t : ConcurrentState β) : Prop :=
  Silent t →
    t.machine.prim.cntInst = (t.machine.reps 0).cntInst ∧
      (Exited t ∨
        t.machine.prim.cntInst = args.maxInsts ∧ (t.machine.reps 0).cntInst = args.maxInsts) ∧
      ∀ r ∈ t.rounds, r.functional ≠ none ∧ r.verilated ≠ []

/-- What the cores show at the end of their cycles in an iteration: the pair of records, whether the
verilated core has retired nothing, and the register `a7` of the functional core. -/
structure Shown where
  fif : CoreInstructionIF
  vif : CoreInstructionIF
  missed : Bool
  number : Word

/-- What the cores show in the next iteration. -/
def shown (args : SimArgs) (V : CoreMethods β) (s : ConcurrentState β) : Shown :=
  let v := nextRun args V s
  { fif := v.machine.prim.instif
    vif := (v.machine.reps 0).instif
    missed := v.retired.isEmpty
    number := v.machine.readReg FunctionalCore.registers regA7 }

/-- An iteration that leaves a core without an instruction is not noticed: the pair of records is
accepted all the same, and the other core stops as well, because it gets no instruction either,
because it reaches the limit, or because an exit is emulated. -/
def Unnoticed (args : SimArgs) (M : Machine 1 FunctionalState β) (x : Shown) : Prop :=
  let refused := (FunctionalCore.instruction M.mem.read M.prim).instrId = .unknown
  let missed := x.missed = true
  let last := args.maxInsts ≤ M.prim.cntInst + 1
  let exits := x.fif.ir = 0x00000073 ∧ x.number = scExit
  Validator.accepts x.fif x.vif = true ∧
    (refused ∧ missed ∨ (refused ∨ missed) ∧ (last ∨ exits))

/-- The iterations that go unnoticed, in terms of their round. -/
theorem unnoticed_iff {s : ConcurrentState β} (hhalt : s.machine.prim.halt = false)
    (hmemory : s.machine.prim.self.memory = true) :
    Unnoticed args s.machine (shown args V s) ↔
      (nextRound args V s).accepted = true ∧
        ((nextRound args V s).functional = none ∧ (nextRound args V s).verilated = [] ∨
          ((nextRound args V s).functional = none ∨ (nextRound args V s).verilated = []) ∧
            (args.maxInsts ≤ s.machine.prim.cntInst + 1 ∨
              (nextRound args V s).emulated = some scExit)) := by
  have hfunctional : (nextRound args V s).functional = none ↔
      (FunctionalCore.instruction s.machine.mem.read s.machine.prim).instrId = .unknown := by
    rw [nextRound_functional args V hhalt hmemory]
    simp
  have hverilated : (nextRound args V s).verilated = [] ↔ (shown args V s).missed = true :=
    List.isEmpty_iff.symm
  rw [hfunctional, hverilated, nextRound_emulated_iff]
  rw [Unnoticed]
  refine and_congr_right fun haccepted => ?_
  have hround : (nextRound args V s).accepted = true := haccepted
  rw [and_iff_right hround]
  rfl

/-- The final report is silent exactly when nothing was reported before and the cores stopped
together. -/
theorem silent_iff {t : ConcurrentState β} :
    Silent t ↔ (∀ line ∈ t.out, line.isFailure = false) ∧
      (t.machine.prim.halt = true ↔ (t.machine.reps 0).halt = true) := by
  unfold Silent concurrentFinish
  dsimp only
  cases t.machine.prim.halt <;> cases (t.machine.reps 0).halt
  · simp
  · simp [Line.isFailure]
  · simp [Line.isFailure]
  · simp

/-- A core that was below the limit is at the limit after an iteration exactly when it retired
the last instruction allowed. -/
theorem limit_iff {c c' limit : Counter} {k : ℕ} {p : Prop} [Decidable p] (hc : c.toNat = k)
    (hbelow : k < limit.toNat) (hc' : c' = if p then c else c + 1) :
    (c'.toNat = if p then k else k + 1) ∧ (limit ≤ c' ↔ ¬p ∧ limit.toNat = k + 1) ∧
      (c' = limit ↔ ¬p ∧ limit.toNat = k + 1) := by
  have hlimit := limit.isLt
  have hvalue : c'.toNat = if p then k else k + 1 := by
    rw [hc']
    split
    · exact hc
    · rw [BitVec.toNat_add, hc]
      change (k + 1) % 2 ^ 64 = k + 1
      omega
  rw [BitVec.le_def, ← BitVec.toNat_inj, hvalue]
  refine ⟨rfl, ?_⟩
  by_cases hp : p
  · rw [if_pos hp]
    simp only [hp, not_true_eq_false, false_and, iff_false]
    omega
  · rw [if_neg hp]
    simp only [hp, not_false_eq_true, true_and]
    omega

/-- Which combinations of events in the last iteration make a silent end sound: with the pair
accepted, a core stops when it gets no instruction, retires the last one allowed, or exits. -/
theorem verdict_cases {accepted refused missed last exits : Prop}
    (hstop : (¬accepted ∨ ¬refused ∧ last ∨ refused ∨ exits) ∨
      (¬accepted ∨ ¬missed ∧ last ∨ missed ∨ exits)) :
    (accepted ∧ ((¬accepted ∨ ¬refused ∧ last ∨ refused ∨ exits) ↔
        (¬accepted ∨ ¬missed ∧ last ∨ missed ∨ exits)) →
      (refused ↔ missed) ∧ (¬refused ∧ exits ∨ (¬refused ∧ last) ∧ ¬missed ∧ last) ∧
        ¬refused ∧ ¬missed) ↔
      ¬(accepted ∧ (refused ∧ missed ∨ (refused ∨ missed) ∧ (last ∨ exits))) := by
  by_cases hrefused : refused
  · by_cases hmissed : missed
    · simp [hrefused, hmissed]
    · -- the functional core stops alone unless the other one is done
      simp only [hrefused, hmissed]
      grind
  · by_cases hmissed : missed
    · -- the verilated core stops alone unless the other one is done
      simp only [hrefused, hmissed]
      grind
    · simp only [hrefused, hmissed] at hstop ⊢
      grind

section LastIteration

variable {k : ℕ} {s : ConcurrentState β} (h : InLockstep args k s)

include h

/-- Nothing is reported by the end of an iteration exactly when its pair is accepted. -/
theorem InLockstep.out_silent_iff :
    (∀ line ∈ (concurrentBody args host V s).out, line.isFailure = false) ↔
      (nextRound args V s).accepted = true := by
  cases haccepted : (nextRound args V s).accepted with
  | false =>
    obtain ⟨line, hline, hfailure⟩ := reported_of_mismatch host haccepted
    simp only [Bool.false_eq_true, iff_false]
    intro hsilent
    rw [hsilent line hline] at hfailure
    cases hfailure
  | true =>
    rw [out_of_accepted haccepted, h.out]
    simp

/-- All the iterations were regular exactly when the last one was. -/
theorem InLockstep.retired_iff :
    (∀ r ∈ (concurrentBody args host V s).rounds, r.functional ≠ none ∧ r.verilated ≠ []) ↔
      (nextRound args V s).functional ≠ none ∧ (nextRound args V s).verilated ≠ [] := by
  rw [rounds_concurrentBody, List.forall_mem_append, and_iff_right, List.forall_mem_singleton]
  intro r hr
  rw [(h.paired r hr).functional, (h.paired r hr).verilated]
  simp

omit h in
/-- The program exited exactly when the last iteration retired the call. -/
theorem exited_concurrentBody :
    Exited (concurrentBody args host V s) ↔
      (nextRound args V s).functional ≠ none ∧ (nextRound args V s).emulated = some scExit := by
  rw [Exited]
  rw [rounds_concurrentBody, List.getLast?_append_cons]
  simp

/-- After the last iteration of a run the verdict is sound exactly when that iteration did not
go unnoticed. -/
theorem InLockstep.verdictSound_iff (hV : V.CountsRetired) (hmax : 1 ≤ args.maxInsts)
    (hmemory : s.machine.prim.self.memory = true)
    (hexit : (concurrentLoop args host V).guard (concurrentBody args host V s) = false) :
    VerdictSound args (concurrentBody args host V s) ↔
      ¬Unnoticed args s.machine (shown args V s) := by
  have hspec := concurrentBody_spec args host hV h.primHalt h.repHalt hmemory
  have hbelow : k < args.maxInsts.toNat := by
    rw [BitVec.le_def] at hmax
    exact h.below.elim (fun hk => hk ▸ hmax) id
  obtain ⟨hprimCnt, hprimLe, hprimEq⟩ := limit_iff h.primCnt hbelow hspec.primCnt
  obtain ⟨hrepCnt, hrepLe, hrepEq⟩ := limit_iff h.repCnt hbelow hspec.repCnt
  have hlast : args.maxInsts ≤ s.machine.prim.cntInst + 1 ↔ args.maxInsts.toNat = k + 1 := by
    rw [BitVec.le_def, toNat_succ_of_below h.primCnt h.below]
    omega
  have hequal : (concurrentBody args host V s).machine.prim.cntInst =
      ((concurrentBody args host V s).machine.reps 0).cntInst ↔
      ((nextRound args V s).functional = none ↔ (nextRound args V s).verilated = []) := by
    rw [← BitVec.toNat_inj, hprimCnt, hrepCnt]
    split <;> split <;> simp [*]
  have hprimHalt := hspec.primHalt
  have hrepHalt := hspec.repHalt
  rw [hprimLe, ← Bool.not_eq_true] at hprimHalt
  rw [hrepLe, ← Bool.not_eq_true] at hrepHalt
  rw [concurrentLoop_exit, hprimHalt, hrepHalt] at hexit
  rw [unnoticed_iff h.primHalt hmemory]
  rw [VerdictSound]
  rw [silent_iff, h.out_silent_iff, exited_concurrentBody, h.retired_iff, hequal, hprimEq, hrepEq,
    hlast, hprimHalt, hrepHalt]
  exact verdict_cases hexit

end LastIteration

variable (host) in
/-- The run ends with an unnoticed iteration: both cores stop. -/
theorem exit_of_unnoticed (hV : V.CountsRetired) {s : ConcurrentState β}
    (hguard : (concurrentLoop args host V).guard s = true)
    (hmemory : s.machine.prim.self.memory = true) (h : Unnoticed args s.machine (shown args V s)) :
    (concurrentLoop args host V).guard (concurrentBody args host V s) = false := by
  obtain ⟨hprim, hrep⟩ := concurrentLoop_guard.mp hguard
  have hspec := concurrentBody_spec args host hV hprim hrep hmemory
  obtain ⟨-, hcases⟩ := (unnoticed_iff hprim hmemory).mp h
  have hstops : (nextRound args V s).functional = none ∨ (nextRound args V s).verilated = [] :=
    hcases.elim (fun hboth => .inl hboth.1) And.left
  refine concurrentLoop_exit.mpr (hstops.imp (fun hrefused => ?_) fun hmissed => ?_)
  · exact hspec.primHalt.mpr (.inr (.inr (.inl hrefused)))
  · exact hspec.repHalt.mpr (.inr (.inr (.inl hmissed)))

/-- The verdict on a run is sound exactly when no iteration of it goes unnoticed. -/
theorem verdict_sound_iff (hV : V.CountsRetired) (hmax : 1 ≤ args.maxInsts)
    {M : Machine 1 FunctionalState β} (hboot : Booted M) {t : ConcurrentState β}
    (ht : (concurrentLoop args host V).Returns (concurrentStart V M) t) :
    VerdictSound args t ↔
      ∀ k s, (concurrentLoop args host V).Reaches (concurrentStart V M) k s →
        (concurrentLoop args host V).guard s = true →
          ¬Unnoticed args s.machine (shown args V s) := by
  constructor
  · intro hsound k s hs hguard hunnoticed
    obtain ⟨hmemory, hlockstep⟩ := inLockstep_of_reaches hV hboot hs
    have hexit := exit_of_unnoticed host hV hguard hmemory hunnoticed
    have hlast : t = concurrentBody args host V s := ht.unique ⟨k + 1, hs.next hguard, hexit⟩
    rw [hlast, (hlockstep hguard).verdictSound_iff hV hmax hmemory hexit] at hsound
    exact hsound hunnoticed
  · intro hnoticed
    obtain ⟨k, hreach, hexit⟩ := ht
    cases k with
    | zero =>
      cases hreach
      have hgoing := inLockstep_start args hV hboot
      rw [concurrentLoop_guard.mpr ⟨hgoing.primHalt, hgoing.repHalt⟩] at hexit
      cases hexit
    | succ k =>
      obtain ⟨s, hs, hguard, rfl⟩ := WhileLoop.reaches_succ_iff.mp hreach
      obtain ⟨hmemory, hlockstep⟩ := inLockstep_of_reaches hV hboot hs
      exact ((hlockstep hguard).verdictSound_iff hV hmax hmemory hexit).mpr
        (hnoticed k s hs hguard)

/-- A run that reaches the limit of one instruction. -/
theorem nop_verdict :
    let V := RVCorePCore.methods Playback.top
    let nop : CoreInstructionIF := ⟨1, 0x00010000, 0x00000013, 0, 0, 0, 0, 0, 0⟩
    let args : SimArgs := ⟨1, 0, false⟩
    let L := concurrentLoop args (fun _ => default) V
    let start := concurrentStart V (playbackMachine [0x00000013] [nop])
    VerdictSound args (L.body start) ↔
      ∀ k s, L.Reaches start k s → L.guard s = true →
        ¬Unnoticed args s.machine (shown args V s) := by
  intro V nop args L start
  have hgoing : L.guard start = true := by decide +kernel
  have hexit : L.guard (L.body start) = false := by decide +kernel
  exact verdict_sound_iff (RVCorePCore.methods_countsRetired Playback.top_resets) (by decide)
    (booted_playbackMachine ..) ⟨1, WhileLoop.Reaches.start.next hgoing, hexit⟩

/-- The image is one instruction that does nothing, followed by a word that is no instruction.
The verilated core retires the one and then hangs with its last record on the ports. Both cores
stop in the second iteration after one instruction of ten, and nothing is printed. -/
theorem unknown_opcode_unnoticed :
    let V := RVCorePCore.methods Playback.top
    let nop : CoreInstructionIF := ⟨1, 0x00010000, 0x00000013, 0, 0, 0, 0, 0, 0⟩
    let L := concurrentLoop ⟨10, 0, false⟩ (fun _ => default) V
    let start := concurrentStart V (playbackMachine [0x00000013] [nop])
    ∃ t, L.Returns start t ∧ ¬VerdictSound ⟨10, 0, false⟩ t := by
  intro V nop L start
  have hrun : (L.run 2 start).map (fun t =>
      (t.machine.prim.cntInst, concurrentFinish t, t.rounds.map Round.emulated)) =
      some (1, [], [none, none]) := by
    decide +kernel
  obtain ⟨t, ht, hfinal⟩ := Option.map_eq_some_iff.mp hrun
  obtain ⟨hcnt, hfinish, hemulated⟩ : t.machine.prim.cntInst = 1 ∧ concurrentFinish t = [] ∧
      t.rounds.map Round.emulated = [none, none] := by
    simpa only [Prod.mk.injEq] using hfinal
  refine ⟨t, WhileLoop.returns_of_run ht, fun hsound => ?_⟩
  have hsilent : Silent t := by
    rw [Silent]
    rw [hfinish]
    intro line hline
    cases hline
  obtain ⟨-, hended, -⟩ := hsound hsilent
  rcases hended with ⟨r, hlast, -, hexit⟩ | ⟨hlimit, -⟩
  · have hmem := List.mem_map_of_mem (f := Round.emulated) (List.mem_of_getLast? hlast)
    rw [hemulated, hexit] at hmem
    simp at hmem
  · rw [hcnt] at hlimit
    exact absurd hlimit (by decide)

end VeriCross
