import VeriCross.Sim.Lockstep

/-!
# System calls of a run

Each `ecall` that the functional core retires and the validator accepts should be emulated, and
nothing else. The main loop decides by the shown word alone, and a functional core that refuses
the next word still shows its last record, so an `ecall` may be emulated once more. This is the
only way in which a run departs from the correspondence.
-/

namespace VeriCross

open RiscV SysCall

variable {β : Type} {args : SimArgs} {host : Host} {V : CoreMethods β}

/-- The functional core retired an `ecall` in this round, and it was accepted. -/
def Round.AcceptedEcall (r : Round) : Prop :=
  ∃ iif, r.functional = some iif ∧ iif.ir = 0x00000073 ∧ r.accepted = true

/-- The emulated calls are the accepted `ecall`s of the functional core, one for one and in
order. -/
def EcallsOnce (rounds : List Round) : Prop :=
  ∀ r ∈ rounds, r.emulated.isSome = true ↔ r.AcceptedEcall

/-- A round says what its iteration does: it has a functional record exactly when `drive` succeeds,
which is also when the instruction is counted, the verdict is that of the validator on the shown
pair, and the number of a call is there exactly when the machine is emulated once, with this number
in `a7`. -/
structure Round.Describes (r : Round) (args : SimArgs) (host : Host) (V : CoreMethods β)
    (s : ConcurrentState β) : Prop where
  functional : ∀ iif, r.functional = some iif ↔ (functionalStep args s.machine).driven = true ∧
    (functionalStep args s.machine).machine.prim.instif = iif
  cntInst : (concurrentBody args host V s).machine.prim.cntInst =
    if r.functional.isSome then s.machine.prim.cntInst + 1 else s.machine.prim.cntInst
  accepted : r.accepted = Validator.accepts (nextRun args V s).machine.prim.instif
    ((nextRun args V s).machine.reps 0).instif
  emulated : ∀ number, r.emulated = some number →
    (nextRun args V s).machine.readReg FunctionalCore.registers regA7 = number ∧
      (concurrentBody args host V s).machine =
        (nextRun args V s).machine.emulate host FunctionalCore.registers V.toRegisterMethods
  idle : r.emulated = none → (concurrentBody args host V s).machine =
    if r.accepted then (nextRun args V s).machine else (nextRun args V s).machine.haltCores

/-- A call is emulated again when the functional core refuses the next word right after an `ecall`,
and its old record is accepted against the one that the verilated core shows. -/
def Repeats (M : Machine 1 FunctionalState β) (vif : CoreInstructionIF) : Prop :=
  (FunctionalCore.instruction M.mem.read M.prim).instrId = .unknown ∧
    M.prim.instif.ir = 0x00000073 ∧
    Validator.accepts { M.prim.instif with valid := 0 } vif = true

variable (args host V) in
/-- The round of an iteration says what it does. -/
theorem nextRound_describes {s : ConcurrentState β} (hhalt : s.machine.prim.halt = false)
    (hmemory : s.machine.prim.self.memory = true) :
    (nextRound args V s).Describes args host V s := by
  obtain ⟨hcount, -⟩ := concurrentBody_prim args host V hhalt hmemory
  have hends := machine_cases args host (V := V) s
  refine ⟨fun iif => ?_, ?_, rfl, fun number hemulated => ?_, fun hidle => ?_⟩
  · change (if (functionalStep args s.machine).driven then _ else none) = some iif ↔ _
    rw [Option.ite_none_right_eq_some, Option.some_inj]
  · rw [hcount]
    cases (nextRound args V s).functional <;> rfl
  · rcases hends with ⟨hrejected, -⟩ | ⟨-, hnumber, hmachine⟩ | ⟨-, hnone, -⟩
    · rw [((nextRound_emulated_iff s number).mp hemulated).1] at hrejected
      cases hrejected
    · exact ⟨Option.some_inj.mp (hnumber.symm.trans hemulated), hmachine⟩
    · rw [hnone] at hemulated
      cases hemulated
  · rcases hends with ⟨hrejected, hmachine⟩ | ⟨-, hnumber, -⟩ | ⟨haccepted, -, hmachine⟩
    · rw [hrejected, if_neg Bool.false_ne_true]
      exact hmachine
    · rw [hidle] at hnumber
      cases hnumber
    · rw [haccepted, if_pos rfl]
      exact hmachine

/-- The rounds of a run say what its iterations do, one for each. -/
theorem rounds_describe {M : Machine 1 FunctionalState β} (hmemory : M.prim.self.memory = true)
    {k : ℕ} {t : ConcurrentState β}
    (h : (concurrentLoop args host V).Reaches (concurrentStart V M) k t) :
    t.machine.prim.self.memory = true ∧ t.rounds.length = k ∧
      ∀ j s, j < k → (concurrentLoop args host V).Reaches (concurrentStart V M) j s →
        ∃ r, t.rounds[j]? = some r ∧ r.Describes args host V s := by
  refine h.invariant (I := fun k t => t.machine.prim.self.memory = true ∧ t.rounds.length = k ∧
    ∀ j s, j < k → (concurrentLoop args host V).Reaches (concurrentStart V M) j s →
      ∃ r, t.rounds[j]? = some r ∧ r.Describes args host V s)
    ⟨hmemory, rfl, fun j s hj => absurd hj j.not_lt_zero⟩ ?_
  rintro k t ht hguard ⟨hmemory, hlength, hrounds⟩
  obtain ⟨hprim, -⟩ := concurrentLoop_guard.mp hguard
  refine ⟨memory_concurrentBody hprim hmemory, ?_⟩
  change (concurrentBody args host V t).rounds.length = _ ∧ ∀ j s, j < k + 1 → _ →
    ∃ r, (concurrentBody args host V t).rounds[j]? = _ ∧ _
  rw [rounds_concurrentBody]
  refine ⟨by rw [List.length_append, hlength, List.length_singleton], fun j s hj hs => ?_⟩
  rcases Nat.lt_succ_iff_lt_or_eq.mp hj with hj | rfl
  · rw [List.getElem?_append_left (by rwa [hlength])]
    exact hrounds j s hj hs
  · rw [hs.unique ht, ← hlength, List.getElem?_concat_length]
    exact ⟨_, rfl, nextRound_describes args host V hprim hmemory⟩

/-- The round of an iteration is in order exactly when it does not repeat a call. -/
theorem nextRound_once_iff {s : ConcurrentState β} (hhalt : s.machine.prim.halt = false)
    (hmemory : s.machine.prim.self.memory = true) :
    ((nextRound args V s).emulated.isSome = true ↔ (nextRound args V s).AcceptedEcall) ↔
      ¬Repeats s.machine (nextRound args V s).vif := by
  have hfunctional := nextRound_functional args V hhalt hmemory
  rw [nextRound_emulates_iff]
  rw [Round.AcceptedEcall, Repeats]
  by_cases hunknown :
      (FunctionalCore.instruction s.machine.mem.read s.machine.prim).instrId = .unknown
  · have hstale := nextRound_stale args V hhalt hmemory hunknown
    rw [if_pos hunknown] at hfunctional
    have haccepted : (nextRound args V s).accepted = Validator.accepts (nextRound args V s).fif
        (nextRound args V s).vif := rfl
    rw [hfunctional, haccepted, hstale]
    simp [hunknown, and_comm]
  · rw [if_neg hunknown] at hfunctional
    rw [hfunctional]
    simp [hunknown, and_comm]

/-- The calls emulated in a run are the accepted `ecall`s exactly when no iteration of it repeats
a call. -/
theorem ecallsOnce_iff_of_reaches {M : Machine 1 FunctionalState β}
    (hmemory : M.prim.self.memory = true) {k : ℕ} {t : ConcurrentState β}
    (h : (concurrentLoop args host V).Reaches (concurrentStart V M) k t) :
    EcallsOnce t.rounds ↔
      ∀ j s, j < k → (concurrentLoop args host V).Reaches (concurrentStart V M) j s →
        ¬Repeats s.machine ((nextRun args V s).machine.reps 0).instif := by
  refine (h.invariant (I := fun k t => t.machine.prim.self.memory = true ∧ (EcallsOnce t.rounds ↔
      ∀ j s, j < k → (concurrentLoop args host V).Reaches (concurrentStart V M) j s →
        ¬Repeats s.machine ((nextRun args V s).machine.reps 0).instif)) ⟨hmemory, ?_⟩ ?_).2
  · simp [EcallsOnce, concurrentStart]
  rintro k t ht hguard ⟨hmemory, ih⟩
  obtain ⟨hprim, -⟩ := concurrentLoop_guard.mp hguard
  refine ⟨memory_concurrentBody hprim hmemory, ?_⟩
  change EcallsOnce (concurrentBody args host V t).rounds ↔ _
  have hround : _ ↔ ¬Repeats t.machine ((nextRun args V t).machine.reps 0).instif :=
    nextRound_once_iff hprim hmemory
  unfold EcallsOnce at ih ⊢
  rw [forall_rounds_concurrentBody, ih, hround]
  constructor
  · rintro ⟨hbefore, hnow⟩ j s hj hs
    rcases Nat.lt_succ_iff_lt_or_eq.mp hj with hj | rfl
    · exact hbefore j s hj hs
    · rwa [hs.unique ht]
  · intro hall
    exact ⟨fun j s hj hs => hall j s (Nat.lt_succ_of_lt hj) hs, hall k t (Nat.lt_succ_self k) ht⟩

/-- The rounds of a run say what its iterations do, one for each; and the emulated calls are the
accepted `ecall`s exactly when no iteration repeats a call. -/
theorem ecalls_once_iff {M : Machine 1 FunctionalState β} (hboot : Booted M) {k : ℕ}
    {t : ConcurrentState β}
    (h : (concurrentLoop args host V).Reaches (concurrentStart V M) k t) :
    (t.rounds.length = k ∧
      ∀ j s, j < k → (concurrentLoop args host V).Reaches (concurrentStart V M) j s →
        ∃ r, t.rounds[j]? = some r ∧ r.Describes args host V s) ∧
      (EcallsOnce t.rounds ↔
        ∀ j s, j < k → (concurrentLoop args host V).Reaches (concurrentStart V M) j s →
          ¬Repeats s.machine ((nextRun args V s).machine.reps 0).instif) := by
  exact ⟨(rounds_describe hboot.memory h).2, ecallsOnce_iff_of_reaches hboot.memory h⟩

/-- The first iteration of a program that calls the emulation once. -/
theorem ecall_once :
    let V := RVCorePCore.methods Playback.top
    let host : Host := fun _ => default
    let args : SimArgs := ⟨10, 0, false⟩
    let ecall : CoreInstructionIF := ⟨1, 0x00010000, 0x00000073, 0, 0, 0, 0, 0, 0⟩
    let L := concurrentLoop args host V
    let start := concurrentStart V (playbackMachine [0x00000073] [ecall])
    ((L.body start).rounds.length = 1 ∧ ∀ j s, j < 1 → L.Reaches start j s →
        ∃ r, (L.body start).rounds[j]? = some r ∧ r.Describes args host V s) ∧
      (EcallsOnce (L.body start).rounds ↔ ∀ j s, j < 1 → L.Reaches start j s →
        ¬Repeats s.machine ((nextRun args V s).machine.reps 0).instif) := by
  intro V host args ecall L start
  have hgoing : L.guard start = true := by decide +kernel
  exact ecalls_once_iff (booted_playbackMachine ..) (WhileLoop.Reaches.start.next hgoing)

/-- The program puts the number of `SC_WRITE` in `a7`, makes the call and goes on with a word that
is no instruction. The verilated core hangs after the call with its record on the ports. The call
is emulated twice, and the host is asked to write twice. -/
theorem write_emulated_twice :
    let V := RVCorePCore.methods Playback.top
    let li : CoreInstructionIF := ⟨1, 0x00010000, 0x04000893, 17, 64, 0, 0, 0, 0⟩
    let ecall : CoreInstructionIF := ⟨1, 0x00010004, 0x00000073, 0, 0, 0, 0, 0, 0⟩
    let L := concurrentLoop ⟨10, 0, false⟩ (fun _ => default) V
    let start := concurrentStart V (playbackMachine [0x04000893, 0x00000073] [li, ecall])
    ∃ t, L.Returns start t ∧ ¬EcallsOnce t.rounds ∧ t.machine.calls.length = 2 := by
  intro V li ecall L start
  have hrun : (L.run 3 start).map (fun t => (t.machine.calls.length,
      t.rounds.map fun r => (r.functional.isSome, r.emulated))) =
      some (2, [(true, none), (true, some scWrite), (false, some scWrite)]) := by
    decide +kernel
  obtain ⟨t, ht, hfinal⟩ := Option.map_eq_some_iff.mp hrun
  obtain ⟨hcalls, hrounds⟩ := Prod.mk.inj hfinal
  refine ⟨t, WhileLoop.returns_of_run ht, fun honce => ?_, hcalls⟩
  have hmem : (false, some scWrite) ∈ t.rounds.map fun r => (r.functional.isSome, r.emulated) := by
    rw [hrounds]
    simp
  obtain ⟨r, hr, hpair⟩ := List.mem_map.mp hmem
  obtain ⟨hnone, hemulated⟩ := Prod.mk.inj hpair
  obtain ⟨iif, hsome, -⟩ := (honce r hr).mp (by rw [hemulated]; rfl)
  rw [hsome] at hnone
  cases hnone

end VeriCross
