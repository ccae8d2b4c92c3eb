import VeriCross.CommandLine.Options
import VeriCross.Main.Model
import VeriCross.Sim.History
import VeriCross.Sim.Interpreter

/-!
# The program returns

With the functional core either main loop ends, whatever the host and a verilated core do. A
verilated core that is simulated alone is only stopped by its own instructions, and nothing limits
its cycles. `main` returns exactly when the simulation is not of this kind, and its exit status is
zero exactly when it has asked for information or has simulated.
-/

namespace VeriCross

/-! The single loop with the functional core. -/

section Single

variable {args : SimArgs} {host : Host} {t : SingleState FunctionalState}

variable (args host t) in
/-- An iteration counts the instruction that its cycle has retired. -/
theorem cntInst_singleBody :
    (singleBody args host FunctionalCore.methods t).machine.prim.cntInst =
      if (t.machine.memDrive.primCycle FunctionalCore.methods).driven then
        t.machine.prim.cntInst + 1
      else t.machine.prim.cntInst := by
  have hcycle : (t.machine.memDrive.primCycle FunctionalCore.methods).machine.prim.cntInst =
      if (t.machine.memDrive.primCycle FunctionalCore.methods).driven then
        t.machine.prim.cntInst + 1
      else t.machine.prim.cntInst := by
    rw [primCycle_functional]
    exact FunctionalCore.drive_cntInst ..
  rw [← hcycle, singleBody]
  generalize t.machine.memDrive.primCycle FunctionalCore.methods = c
  have hemulate := (c.machine.emulate_prim host (R := FunctionalCore.registers)
    FunctionalCore.registers_lawful.toKeepsCounts).1
  dsimp only
  rw [Machine.ite_haltPrim]
  dsimp only [Machine.setPrim]
  split
  · exact hemulate
  · rfl

/-- An iteration that retires no instruction is the last one. -/
theorem halt_singleBody
    (hrefused : (t.machine.memDrive.primCycle FunctionalCore.methods).driven = false) :
    (singleBody args host FunctionalCore.methods t).machine.prim.halt = true := by
  have hok : (t.machine.memDrive.primCycle FunctionalCore.methods).ok = false := by
    rw [Cycle.ok, hrefused]
    rfl
  rw [singleBody]
  dsimp only
  rw [if_pos (.inr hok)]
  rfl

/-- At every head at most as many instructions are retired as iterations are completed; if the loop
goes on as many are, and the limit is not reached. -/
structure Counting (args : SimArgs) (k : ℕ) (t : SingleState FunctionalState) : Prop where
  count : t.machine.prim.cntInst.toNat ≤ k
  going : t.machine.prim.halt = false →
    t.machine.prim.cntInst.toNat = k ∧ (k = 0 ∨ k < args.maxInsts.toNat)

variable (host) in
/-- An iteration counts. -/
theorem Counting.next {k : ℕ} (h : Counting args k t) (hgoing : t.machine.prim.halt = false) :
    Counting args (k + 1) (singleBody args host FunctionalCore.methods t) := by
  obtain ⟨hcount, hbelow⟩ := h.going hgoing
  have hnext := cntInst_singleBody args host t
  cases hdriven : (t.machine.memDrive.primCycle FunctionalCore.methods).driven with
  | false =>
    rw [hdriven, if_neg Bool.false_ne_true] at hnext
    refine ⟨?_, fun hfalse => ?_⟩
    · rw [hnext]
      omega
    · rw [halt_singleBody hdriven] at hfalse
      cases hfalse
  | true =>
    have hsucc := toNat_succ_of_below hcount hbelow
    obtain ⟨-, hhalt⟩ := prim_singleBody args host hgoing hdriven
    rw [hdriven, if_pos rfl] at hnext
    refine ⟨?_, fun hfalse => ?_⟩
    · rw [hnext, hsucc]
    · rw [hnext, hsucc]
      refine ⟨rfl, .inr ?_⟩
      have hlimit := mt (fun hle => hhalt.mpr (.inl hle)) (by rw [hfalse]; exact Bool.false_ne_true)
      rw [BitVec.not_le, BitVec.lt_def, hsucc] at hlimit
      exact hlimit

/-- All heads count. -/
theorem counting_of_reaches {start : SingleState FunctionalState} {k : ℕ}
    (hcnt : start.machine.prim.cntInst = 0)
    (h : (singleLoop args host FunctionalCore.methods).Reaches start k t) : Counting args k t := by
  have hstart : start.machine.prim.cntInst.toNat = 0 := congrArg BitVec.toNat hcnt
  refine h.invariant ⟨hstart.le, fun _ => ⟨hstart, .inl rfl⟩⟩ ?_
  intro k t _ hguard hcounting
  exact hcounting.next host ((singleLoop_guard ..).mp hguard)

end Single

/-! The main loops. -/

section Loops

variable {τ υ ρ : Type} (B : Build τ υ ρ) (args : SimArgs) (host : Host) (sections : List Section)
  (brkAddr : Word)

/-- A core is simulated alone and its loop goes on forever. -/
def Cores.Hangs : Cores → Prop
  | .verilated V => ∀ k, ∃ t, (singleLoop args host fun _ => V.methods).Reaches
      (singleStart (fun _ => V.methods) (bootAlone V.new B.ifPrim sections brkAddr)) k t ∧
    (singleLoop args host fun _ => V.methods).guard t = true
  | _ => False

variable {B args host sections brkAddr} in
/-- The result of concurrent execution is that of a run that is defined. -/
theorem Cores.simulate_concurrent_eq_some_iff {V : VerilatedCore} {fuel : ℕ} {r : LoopResult} :
    (Cores.concurrent V).simulate B args host sections brkAddr fuel = some r ↔
      ∃ t, (concurrentLoop args host V.methods).run fuel (concurrentStart V.methods
          (boot B.functionalInstif B.functionalMemif (fun _ => V.new) B.ifPrim (fun _ => B.ifRep)
            sections brkAddr)) = some t ∧ t.overflow = false ∧
        ⟨t.machine.prim.cntInst, (concurrentFinish t).map Line.text, t.log⟩ = r := by
  refine Option.bind_eq_some_iff.trans (exists_congr fun t => and_congr_right fun _ => ?_)
  cases t.overflow <;> simp

/-- The main loop leaves a result exactly when it does not hang, if the indices into the history do
not overflow. -/
theorem Cores.exists_simulate_iff (cores : Cores)
    (hsmall : ∀ V, cores = .concurrent V → args.mismatchInsts.toNat ≤ 0x40000000) :
    (∃ fuel r, cores.simulate B args host sections brkAddr fuel = some r) ↔
      ¬cores.Hangs B args host sections brkAddr := by
  cases cores with
  | functional =>
    refine iff_of_true ?_ id
    have hbound : ∀ k t, (singleLoop args host FunctionalCore.methods).Reaches
        (singleStart FunctionalCore.methods (boot B.functionalInstif B.functionalMemif Fin.elim0
          B.ifPrim Fin.elim0 sections brkAddr)) k t →
        (singleLoop args host FunctionalCore.methods).guard t = true →
        k < max 1 args.maxInsts.toNat := by
      intro k t hreach hguard
      obtain ⟨-, hbelow⟩ :=
        (counting_of_reaches rfl hreach).going ((singleLoop_guard ..).mp hguard)
      omega
    obtain ⟨k, t, -, hreach, hexit⟩ := WhileLoop.exits_of_bound hbound
    exact ⟨k, _, Option.map_eq_some_iff.mpr
      ⟨t, WhileLoop.run_of_reaches hreach hexit (Nat.le_refl k), rfl⟩⟩
  | concurrent V =>
    refine iff_of_true ?_ id
    have hbound : ∀ k t, (concurrentLoop args host V.methods).Reaches
        (concurrentStart V.methods (boot B.functionalInstif B.functionalMemif (fun _ => V.new)
          B.ifPrim (fun _ => B.ifRep) sections brkAddr)) k t →
        (concurrentLoop args host V.methods).guard t = true → k < max 1 args.maxInsts.toNat :=
      fun k t => lt_limit_of_guard rfl rfl
    obtain ⟨k, t, -, hreach, hexit⟩ := WhileLoop.exits_of_bound hbound
    have hdefined := overflow_of_reaches (hsmall V rfl) hreach
    exact ⟨k, _, simulate_concurrent_eq_some_iff.mpr
      ⟨t, WhileLoop.run_of_reaches hreach hexit (Nat.le_refl k), hdefined, rfl⟩⟩
  | verilated V =>
    refine Iff.trans ?_ WhileLoop.exists_run_iff
    constructor
    · rintro ⟨fuel, r, hrun⟩
      obtain ⟨t, ht, -⟩ := Option.map_eq_some_iff.mp hrun
      exact ⟨fuel, t, ht⟩
    · rintro ⟨fuel, t, ht⟩
      exact ⟨fuel, _, Option.map_eq_some_iff.mpr ⟨t, ht, rfl⟩⟩

variable {B args host sections brkAddr}

/-- The result does not depend on the number of iterations that are granted. -/
theorem Cores.simulate_unique {cores : Cores} {fuel fuel' : ℕ} {r r' : LoopResult}
    (h : cores.simulate B args host sections brkAddr fuel = some r)
    (h' : cores.simulate B args host sections brkAddr fuel' = some r') : r = r' := by
  cases cores with
  | functional | verilated V =>
    obtain ⟨t, ht, rfl⟩ := Option.map_eq_some_iff.mp h
    obtain ⟨t', ht', rfl⟩ := Option.map_eq_some_iff.mp h'
    rw [(WhileLoop.returns_of_run ht).unique (WhileLoop.returns_of_run ht')]
  | concurrent V =>
    obtain ⟨t, ht, -, rfl⟩ := Cores.simulate_concurrent_eq_some_iff.mp h
    obtain ⟨t', ht', -, rfl⟩ := Cores.simulate_concurrent_eq_some_iff.mp h'
    rw [(WhileLoop.returns_of_run ht).unique (WhileLoop.returns_of_run ht')]

/-- With the functional core, no more instructions are retired than the limit allows, or one. -/
theorem Cores.count_le {cores : Cores} {fuel : ℕ} {r : LoopResult}
    (hcores : cores = .functional ∨ ∃ V, cores = .concurrent V)
    (h : cores.simulate B args host sections brkAddr fuel = some r) :
    r.cntInst.toNat ≤ max 1 args.maxInsts.toNat := by
  rcases hcores with rfl | ⟨V, rfl⟩
  · obtain ⟨t, ht, rfl⟩ := Option.map_eq_some_iff.mp h
    obtain ⟨k, hreach, hexit⟩ := WhileLoop.returns_of_run ht
    have hcount := (counting_of_reaches rfl hreach).count
    cases k with
    | zero => exact hcount.trans (by omega)
    | succ k =>
      obtain ⟨u, hu, hguard, -⟩ := WhileLoop.reaches_succ_iff.mp hreach
      obtain ⟨-, hbelow⟩ := (counting_of_reaches rfl hu).going ((singleLoop_guard ..).mp hguard)
      exact hcount.trans (by omega)
  · obtain ⟨t, ht, -, rfl⟩ := Cores.simulate_concurrent_eq_some_iff.mp h
    obtain ⟨k, hreach, hexit⟩ := WhileLoop.returns_of_run ht
    cases k with
    | zero =>
      cases hreach
      exact Nat.zero_le _
    | succ k =>
      obtain ⟨u, hu, hguard, rfl⟩ := WhileLoop.reaches_succ_iff.mp hreach
      obtain ⟨hmemory, hretiring⟩ := retiring_of_reaches rfl rfl hu
      obtain ⟨hgoing, -⟩ := concurrentLoop_guard.mp hguard
      obtain ⟨hcount, hbelow⟩ := hretiring hguard
      have hcnt : (concurrentBody args host V.methods u).machine.prim.cntInst = _ :=
        (concurrentBody_prim args host V.methods hgoing hmemory).1
      have hsucc := toNat_succ_of_below hcount hbelow
      change (concurrentBody args host V.methods u).machine.prim.cntInst.toNat ≤ _
      rw [hcnt]
      split
      · omega
      · omega

end Loops

/-! A core that shows no instruction. -/

section Stalling

variable {σ : Type} {V : CoreMethods σ} {I : Core σ → Prop}

/-- From the cores with a property on, a cycle succeeds, shows no instruction and keeps the
property. -/
structure CoreMethods.Stalls (V : CoreMethods σ) (I : Core σ → Prop) : Prop where
  drive : ∀ c, I c → c.halt = false → (V.drive c).1 = true
  update : ∀ c, I c → c.halt = false → (V.update (V.drive c).2).1 = true ∧
    (V.update (V.drive c).2).2.instif.valid = 0
  cycle : ∀ c memif, I c → c.halt = false → I { (V.update (V.drive c).2).2 with memif := memif }

/-- A cycle of a core that stalls, as the first core. -/
theorem CoreMethods.Stalls.primCycle (hI : V.Stalls I) (hV : V.CountsRetired) {M : Machine 0 σ σ}
    (hM : I M.prim) (hhalt : M.prim.halt = false) :
    let c := M.primCycle fun _ => V
    c.ok = true ∧ c.machine.prim.instif.valid = 0 ∧ I c.machine.prim ∧
      c.machine.prim.halt = false ∧ c.machine.prim.cntInst = M.prim.cntInst := by
  intro c
  obtain ⟨hdriven, hupdated, hcore, -⟩ := M.primCycle_eq_cycle fun _ => V
  have hdrive := hI.drive _ hM hhalt
  obtain ⟨hupdate, hvalid⟩ := hI.update _ hM hhalt
  have hcycle : ∀ nw p, ∃ memif, V.cycle nw M.prim p =
      ⟨true, true, { (V.update (V.drive M.prim).2).2 with memif := memif },
        (V.cycle nw M.prim p).port⟩ := by
    intro nw p
    refine ⟨(p.cycle nw (V.drive M.prim).2.memif (V.update (V.drive M.prim).2).2.memif).2, ?_⟩
    rw [CoreMethods.cycle]
    dsimp only
    rw [hdrive, if_pos rfl, hupdate]
  obtain ⟨memif, hport⟩ := hcycle M.mem.nwords (M.mem.port none)
  rw [hport] at hdriven hupdated hcore
  have hok : c.ok = true := by
    rw [Cycle.ok, hdriven, hupdated]
    rfl
  refine ⟨hok, ?_⟩
  rw [hcore]
  refine ⟨hvalid, hI.cycle _ _ hM hhalt, ?_, ?_⟩
  · exact (hV.update_halt _).trans ((hV.drive_halt _).trans hhalt)
  · refine (hV.update_cntInst _).trans ?_
    rw [if_neg fun h => h.2 hvalid]
    exact hV.drive_cntInst _

end Stalling

/-- A core that never shows an instruction hangs the program when it is simulated alone. In
concurrent execution it is stopped after the timeout. -/
theorem Cores.hangs_of_stalls {τ υ ρ : Type} (B : Build τ υ ρ) {args : SimArgs} (host : Host)
    (sections : List Section) (brkAddr : Word) {V : VerilatedCore} {I : Core V.State → Prop}
    (hV : V.methods.CountsRetired) (hI : V.methods.Stalls I) (hnew : I (V.methods.reset V.new))
    (hhalt : V.new.halt = false) (hcnt : V.new.cntInst = 0) (hlimit : 1 ≤ args.maxInsts.toNat) :
    (Cores.verilated V).Hangs B args host sections brkAddr := by
  intro k
  have hall : ∃ t, (singleLoop args host fun _ => V.methods).Reaches
      (singleStart (fun _ => V.methods) (bootAlone V.new B.ifPrim sections brkAddr)) k t ∧
      I t.machine.prim ∧ t.machine.prim.halt = false ∧ t.machine.prim.cntInst = 0 := by
    induction k with
    | zero =>
      exact ⟨_, .start, hnew, (hV.reset_halt _).trans hhalt, (hV.reset_cntInst _).trans hcnt⟩
    | succ k ih =>
      obtain ⟨t, hreach, hprim, hgoing, hzero⟩ := ih
      obtain ⟨hok, hvalid, hprim', hgoing', hcount⟩ :=
        hI.primCycle hV (M := t.machine.memDrive) hprim hgoing
      have hbelow : ¬args.maxInsts ≤
          (t.machine.memDrive.primCycle fun _ => V.methods).machine.prim.cntInst := by
        rw [hcount.trans hzero, BitVec.le_def]
        exact Nat.not_le.mpr hlimit
      obtain ⟨hmachine, -⟩ := singleBody_of_stall host hvalid hok hbelow
      refine ⟨_, hreach.next ((singleLoop_guard ..).mpr hgoing), ?_⟩
      · change I (singleBody args host (fun _ => V.methods) t).machine.prim ∧
          (singleBody args host (fun _ => V.methods) t).machine.prim.halt = false ∧
          (singleBody args host (fun _ => V.methods) t).machine.prim.cntInst = 0
        rw [hmachine]
        exact ⟨hprim', hgoing', hcount.trans hzero⟩
  obtain ⟨t, hreach, -, hgoing, -⟩ := hall
  exact ⟨t, hreach, (singleLoop_guard ..).mpr hgoing⟩

/-! The program. -/

/-- The image is loaded and nothing else is refused. -/
structure Environment.Accepts (env : Environment) (args : Args) (ld : Loader) : Prop where
  loader : env.loader args = some ld
  valid : ld.valid = true
  refuses : env.refuses args = none

section Program

variable {τ υ ρ : Type} (B : Build τ υ ρ) (env : Environment)

/-- There is a core for every known model. -/
theorem Build.exists_core {coreType : String} (hknown : coreType ∈ knownCores) :
    ∃ V, B.core coreType = some V := by
  rw [core]
  simp only [knownCores, List.mem_cons, List.not_mem_nil, or_false] at hknown
  rcases hknown with rfl | rfl | rfl
  · exact ⟨_, rfl⟩
  · exact ⟨_, rfl⟩
  · exact ⟨_, rfl⟩

/-- Without `-p` the functional core is simulated, and with it a core model. -/
theorem Build.exists_cores {args : Args}
    (hcore : args.procOnly = true → args.coreType ∈ knownCores) :
    ∃ cores, B.cores args = some cores ∧
      (args.procOnly = false → cores = .functional ∨ ∃ V, cores = .concurrent V) := by
  rw [cores]
  cases hproc : args.procOnly with
  | false =>
    cases B.core args.coreType with
    | none => exact ⟨_, rfl, fun _ => .inl rfl⟩
    | some V => exact ⟨_, rfl, fun _ => .inr ⟨V, rfl⟩⟩
  | true =>
    obtain ⟨V, hV⟩ := B.exists_core (hcore hproc)
    rw [hV]
    exact ⟨_, rfl, fun hfalse => absurd hfalse (by decide)⟩

variable {B env} {args : Args} {cores : Cores} {ld : Loader}

/-- The simulation of an accepted image. -/
theorem runSimulation_of_accepts (hcores : B.cores args = some cores)
    (haccepts : env.Accepts args ld) (fuel : ℕ) :
    runSimulation B env fuel args =
      (cores.simulate B args.simArgs env.host ld.sections ld.brkAddr fuel).map
        (LoopResult.outcome · args) := by
  rw [runSimulation, hcores, Option.bind_some, haccepts.loader, Option.bind_some, haccepts.valid,
    if_neg (by decide), haccepts.refuses]

/-- What is not accepted is an error. -/
theorem runSimulation_of_not_accepts (hcores : B.cores args = some cores)
    (hload : env.loader args = some ld) (hrefused : ¬env.Accepts args ld) :
    ∃ o : Outcome, o.status = 1 ∧ ∀ fuel, runSimulation B env fuel args = some o := by
  cases hvalid : ld.valid with
  | false =>
    refine ⟨⟨1, [], [s!"!! {ld.message}. Stop."], none⟩, rfl, fun fuel => ?_⟩
    rw [runSimulation, hcores, Option.bind_some, hload, Option.bind_some, if_pos hvalid]
  | true =>
    cases hrefuses : env.refuses args with
    | none => exact absurd ⟨hload, hvalid, hrefuses⟩ hrefused
    | some line =>
      refine ⟨⟨1, [], [line], if env.fopen args.logFile ∧ args.logFile ≠ "" then some [] else none⟩,
        rfl, fun fuel => ?_⟩
      rw [runSimulation, hcores, Option.bind_some, hload, Option.bind_some, hvalid,
        if_neg (by decide), hrefuses]

variable (B env)

/-- The simulation that is asked for takes place, and never ends. -/
def Hangs (args : Args) : Prop :=
  ∃ cores ld, B.cores args = some cores ∧ env.Accepts args ld ∧
    cores.Hangs B args.simArgs env.host ld.sections ld.brkAddr

variable {B env}

/-- The part after the command line has an outcome unless the simulation hangs. -/
theorem exists_runSimulation_iff (hcores : B.cores args = some cores)
    (hload : env.loader args = some ld) (hsmall : args.mismatchInsts.toNat ≤ 0x40000000) :
    (∃ fuel o, runSimulation B env fuel args = some o) ↔ ¬Hangs B env args := by
  by_cases haccepts : env.Accepts args ld
  · have hhangs : Hangs B env args ↔
        cores.Hangs B args.simArgs env.host ld.sections ld.brkAddr := by
      constructor
      · rintro ⟨cores', ld', hcores', haccepts', h⟩
        rw [hcores, Option.some_inj] at hcores'
        rw [Environment.Accepts.loader haccepts', Option.some_inj] at hload
        subst hcores' hload
        exact h
      · exact fun h => ⟨cores, ld, hcores, haccepts, h⟩
    rw [hhangs, ← cores.exists_simulate_iff B _ _ _ _ fun _ _ => hsmall]
    simp only [runSimulation_of_accepts hcores haccepts, Option.map_eq_some_iff]
    constructor
    · rintro ⟨fuel, -, r, hr, -⟩
      exact ⟨fuel, r, hr⟩
    · rintro ⟨fuel, r, hr⟩
      exact ⟨fuel, _, r, hr, rfl⟩
  · obtain ⟨o, -, hrun⟩ := runSimulation_of_not_accepts hcores hload haccepts
    refine iff_of_true ⟨0, o, hrun 0⟩ ?_
    rintro ⟨cores', ld', -, haccepts', -⟩
    rw [haccepts'.loader, Option.some_inj] at hload
    exact haccepts (hload ▸ haccepts')

/-- What an outcome of the part after the command line says. -/
theorem runSimulation_spec (hcores : B.cores args = some cores)
    (hload : env.loader args = some ld) {fuel : ℕ} {o : Outcome}
    (h : runSimulation B env fuel args = some o) :
    (∀ fuel' o', runSimulation B env fuel' args = some o' → o' = o) ∧
      (o.status = 0 ↔ env.Accepts args ld) ∧ o.status ≤ 1 ∧
      (o.status = 0 → ∃ r, cores.simulate B args.simArgs env.host ld.sections ld.brkAddr fuel =
        some r ∧ o = r.outcome args) := by
  by_cases haccepts : env.Accepts args ld
  · simp only [runSimulation_of_accepts hcores haccepts, Option.map_eq_some_iff] at h ⊢
    obtain ⟨r, hr, rfl⟩ := h
    refine ⟨?_, iff_of_true rfl haccepts, Nat.zero_le 1, fun _ => ⟨r, hr, rfl⟩⟩
    rintro fuel' o' ⟨r', hr', rfl⟩
    rw [Cores.simulate_unique hr' hr]
  · obtain ⟨o', hstatus, hrun⟩ := runSimulation_of_not_accepts hcores hload haccepts
    rw [hrun, Option.some_inj] at h
    subst h
    refine ⟨fun fuel' o'' h' => ?_, ?_, hstatus.le, fun hzero => ?_⟩
    · rw [hrun, Option.some_inj] at h'
      exact h'.symm
    · rw [hstatus]
      exact iff_of_false Nat.one_ne_zero haccepts
    · rw [hstatus] at hzero
      cases hzero

end Program

/-- Whatever the host and the verilated core are, and whatever the files are from which the loader
has a result, the program returns unless a verilated core is simulated alone and goes on forever, as
long as the history is not so long that an index into it overflows. The exit status is zero exactly
when information was asked for or the simulation took place, the outcome does not depend on the
iterations that are granted, and with the functional core the printed number of instructions keeps
to the limit of the command line. -/
theorem main_returns {τ υ ρ : Type} (B : Build τ υ ρ) (env : Environment) (name : String)
    (options : List GetoptResult) (operands : List String) {s : ArgState} {result : ArgResult}
    (hcheck : checkarg options operands = some (s, result))
    (hload : result = .success → env.loader s.args ≠ none)
    (hsmall : result = .success → s.args.mismatchInsts.toNat ≤ 0x40000000) :
    ((∃ fuel o, main B env fuel name options operands = some o) ↔
      ¬(result = .success ∧ Hangs B env s.args)) ∧
    ∀ fuel o, main B env fuel name options operands = some o →
      (∀ fuel' o', main B env fuel' name options operands = some o' → o' = o) ∧
      (o.status = 0 ↔ result = .infoPrinted ∨ result = .success ∧ ∃ ld, env.Accepts s.args ld) ∧
      o.status ≤ 1 ∧
      (result = .success → o.status = 0 → s.args.procOnly = false →
        ∃ count : ℕ, count ≤ max 1 s.args.maxInsts.toNat ∧ o.err = [] ∧
          o.out.getLast? = some s!"## Processor stopped after executing {count} insts.") := by
  have hmain : ∀ fuel, main B env fuel name options operands = (checkarg options operands).bind _ :=
    fun _ => rfl
  simp only [hcheck, Option.bind_some] at hmain
  simp only [hmain]
  cases result with
  | failed =>
    refine ⟨iff_of_true ⟨0, _, rfl⟩ (by simp), ?_⟩
    rintro fuel o ⟨rfl⟩
    simp
  | infoPrinted =>
    refine ⟨iff_of_true ⟨0, _, rfl⟩ (by simp), ?_⟩
    rintro fuel o ⟨rfl⟩
    simp
  | success =>
    dsimp only
    obtain ⟨-, hcore, -⟩ := checkarg_success hcheck
    obtain ⟨cores, hcores, hmode⟩ := B.exists_cores hcore
    obtain ⟨ld, hld⟩ := Option.ne_none_iff_exists'.mp (hload rfl)
    have hexists : (∃ ld', env.Accepts s.args ld') ↔ env.Accepts s.args ld := by
      refine ⟨?_, fun h => ⟨ld, h⟩⟩
      rintro ⟨ld', h⟩
      have hsame := h.loader.symm.trans hld
      rwa [Option.some_inj.mp hsame] at h
    refine ⟨?_, fun fuel o ho => ?_⟩
    · exact (exists_runSimulation_iff hcores hld (hsmall rfl)).trans
        (not_congr (and_iff_right rfl).symm)
    · obtain ⟨hunique, hstatus, hone, hresult⟩ := runSimulation_spec hcores hld ho
      refine ⟨hunique, ?_, hone, fun _ hzero hproc => ?_⟩
      · rw [hstatus, hexists]
        simp
      · obtain ⟨r, hr, rfl⟩ := hresult hzero
        exact ⟨r.cntInst.toNat, Cores.count_le (hmode hproc) hr, rfl, r.getLast?_out s.args⟩

/-- A build whose modules retire a list of records. -/
def playbackBuild (records : List CoreInstructionIF) : Build Playback Playback Unit :=
  let zero : CoreInstructionIF := ⟨0, 0, 0, 0, 0, 0, 0, 0, 0⟩
  let memif : CoreMemoryIF := ⟨0, 0, 0, 0, 0, 0, 0, 0, 0⟩
  ⟨Playback.top, ⟨records, zero, fun _ => 0⟩, Playback.top, ⟨records, zero, fun _ => 0⟩,
    KronosCoreFaulty.sameFault, (), zero, memif, zero, memif, memif, memif⟩

/-- An environment with one program. -/
def programEnvironment (bin : List Byte) (dump sp : List Char) : Environment where
  files := fun _ _ _ _ => ⟨none, some bin, some dump, some sp⟩
  fopen := fun _ => true
  chdir := fun _ => none
  host := fun _ => default

/-- A program that jumps to itself is stopped at the limit. -/
theorem loop_returns :
    let env := programEnvironment [0x6f, 0, 0, 0] "00010010 <_start>:\n".toList
      "00000001\n001e6410\n00000000\n00000000\n".toList
    ∃ fuel o, main (playbackBuild []) env fuel "vericross" [] ["image", "a", "a"] = some o := by
  intro env
  refine (main_returns (playbackBuild []) env "vericross" [] ["image", "a", "a"] rfl
    (fun _ => ?_) fun _ => ?_).1.mpr ?_
  · exact Option.some_ne_none _
  · exact Nat.zero_le _
  · rintro ⟨-, cores, ld, hcores, -, hhangs⟩
    cases hcores
    exact hhangs

end VeriCross
