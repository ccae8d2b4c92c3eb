import VeriCross.RiscV.LogText
import VeriCross.Sim.Trace

/-!
# The trace as a text

The log file is one text without a mark of the iterations, and single execution writes nothing for
a cycle without an instruction. Two runs leave the same text exactly when they retire the same
instructions with the same effects, whatever cores have written them.
-/

namespace VeriCross

/-- The characters of a log file. -/
def logText (log : List String) : List Char := log.flatMap String.toList

/-- The text of a log shows some effects of instructions. -/
structure Shows (log : List String) (effects : List LogEffect) : Prop where
  proper : ∀ e ∈ effects, e.Proper
  text : logText log = effects.flatMap LogEffect.line

/-- Equal texts show equal effects. -/
theorem Shows.text_eq_iff {log log' : List String} {effects effects' : List LogEffect}
    (h : Shows log effects) (h' : Shows log' effects') :
    logText log = logText log' ↔ effects = effects' := by
  have hne : ∀ e : LogEffect, e.Proper → e.line ≠ [] := by
    intro e _
    cases e <;> simp [LogEffect.line]
  rw [h.text, h'.text]
  constructor
  · intro heq
    simpa using LogEffect.delimits_line.flatMap hne h.proper h'.proper heq
  · intro heq
    rw [heq]

/-- A new log shows nothing. -/
theorem shows_nil : Shows [] [] := ⟨nofun, rfl⟩

/-- The effect that an entry made from a record shows, when the record is valid. -/
def loggedEffect (read : Word → ℤ → List Byte) (iif : CoreInstructionIF) : Option LogEffect :=
  if iif.valid ≠ 0 then some (RiscVLogInfo.new read iif).effect else none

/-- What the line of an entry adds to a log. -/
theorem Shows.concat {log : List String} {effects : List LogEffect} (h : Shows log effects)
    (read : Word → ℤ → List Byte) (iif : CoreInstructionIF) :
    Shows (log ++ [(RiscVLogInfo.new read iif).getLog.1])
      (effects ++ (loggedEffect read iif).toList) := by
  have hkeep : (RiscVLogInfo.new read iif).iif = iif := by
    rw [RiscVLogInfo.new]
    split <;> rfl
  rw [loggedEffect]
  by_cases hvalid : iif.valid ≠ 0
  · have hdecoded : (RiscVLogInfo.new read iif).Decoded := by
      rw [RiscVLogInfo.Decoded, hkeep, RiscVLogInfo.new, if_pos hvalid]
    rw [if_pos hvalid]
    refine ⟨?_, ?_⟩
    · intro e he
      rcases List.mem_append.mp he with hold | hnew
      · exact h.proper e hold
      · rw [List.mem_singleton.mp hnew]
        exact RiscVLogInfo.proper_effect _
    · rw [logText, List.flatMap_append, List.flatMap_singleton,
        RiscVLogInfo.toList_getLog hdecoded, Option.toList_some, List.flatMap_append,
        List.flatMap_singleton, ← h.text]
      rfl
  · have hempty : (RiscVLogInfo.new read iif).getLog.1 = "" := by
      rw [RiscVLogInfo.new, if_neg hvalid]
      rfl
    rw [if_neg hvalid, hempty]
    refine ⟨?_, ?_⟩
    · intro e he
      exact h.proper e (by simpa using he)
    · rw [logText, List.flatMap_append, Option.toList_none, List.append_nil, ← h.text]
      simp [logText]

/-! The logs of the main loops. -/

section Loops

variable {α : Type} (args : SimArgs) (host : Host) (C : CoreClass α)

/-- The effects that single execution logs in its first iterations from a loop head on. -/
def singleEffects (t : SingleState α) (k : ℕ) : List LogEffect :=
  (List.range k).flatMap fun j =>
    let c := ((singleBody args host C)^[j] t).machine.memDrive.primCycle C
    (loggedEffect c.machine.mem.read c.machine.prim.instif).toList

/-- The log of single execution shows the instructions that the core has retired. -/
theorem shows_single (hlog : args.log = true) (M : Machine 0 α α) {k : ℕ} {t : SingleState α}
    (h : (singleLoop args host C).Reaches (singleStart C M) k t) :
    Shows t.log (singleEffects args host C (singleStart C M) k) := by
  induction h with
  | start => exact shows_nil
  | @next k t h _ ih =>
    have hhead : t = (singleBody args host C)^[k] (singleStart C M) := h.eq_iterate
    have hnext := ih.concat (t.machine.memDrive.primCycle C).machine.mem.read
      (t.machine.memDrive.primCycle C).machine.prim.instif
    rw [singleEffects, List.range_succ, List.flatMap_append, List.flatMap_singleton, ← hhead]
    change Shows (if args.log then t.log ++ _ else t.log) _
    rw [if_pos hlog]
    exact hnext

variable {β : Type} (V : CoreMethods β)

/-- The effects that concurrent execution logs in its first iterations from a loop head on: those
of the functional core's instructions in the iterations whose pair is accepted. -/
def concurrentEffects (s : ConcurrentState β) (k : ℕ) : List LogEffect :=
  (List.range k).flatMap fun j =>
    let u := (concurrentBody args host V)^[j] s
    if (nextRound args V u).accepted then
      (loggedEffect (nextRun args V u).machine.mem.read (nextRound args V u).fif).toList
    else []

variable {args host V} in
/-- A rejected pair is not logged. -/
theorem log_of_rejected {s : ConcurrentState β} (h : (nextRound args V s).accepted = false) :
    (concurrentBody args host V s).log = s.log := by
  have hverdict : Validator.accepts _ _ = false := h
  unfold Validator.accepts nextRun at hverdict
  rw [concurrentBody]
  dsimp only
  rw [if_pos hverdict]

/-- The log of concurrent execution shows the accepted instructions of the functional core. -/
theorem shows_concurrent (hlog : args.log = true) (M : Machine 1 FunctionalState β) {k : ℕ}
    {s : ConcurrentState β} (h : (concurrentLoop args host V).Reaches (concurrentStart V M) k s) :
    Shows s.log (concurrentEffects args host V (concurrentStart V M) k) := by
  induction h with
  | start => exact shows_nil
  | @next k s h _ ih =>
    have hhead : s = (concurrentBody args host V)^[k] (concurrentStart V M) := h.eq_iterate
    rw [concurrentEffects, List.range_succ, List.flatMap_append, List.flatMap_singleton, ← hhead]
    dsimp only
    change Shows (concurrentBody args host V s).log _
    by_cases haccepted : (nextRound args V s).accepted = true
    · rw [if_pos haccepted, (concurrentBody_of_accepted haccepted).2.2.2, if_pos hlog]
      exact ih.concat ..
    · rw [if_neg haccepted, List.append_nil, log_of_rejected (by simpa using haccepted)]
      exact ih

end Loops

/-- The log file determines what has been executed, and nothing else: the texts of two runs of
single execution, with cores of any class, or of one with a run of concurrent execution, are equal
exactly when the runs have logged the same instructions with the same effects in the same order. -/
theorem trace_text_iff {α α' β : Type} (args args' : SimArgs) (hlog : args.log = true)
    (hlog' : args'.log = true) (host host' : Host) (C : CoreClass α) (C' : CoreClass α')
    (V : CoreMethods β) (M : Machine 0 α α) (M' : Machine 0 α' α')
    (N : Machine 1 FunctionalState β) {k : ℕ} {t : SingleState α}
    (h : (singleLoop args host C).Reaches (singleStart C M) k t) :
    (∀ k' t', (singleLoop args' host' C').Reaches (singleStart C' M') k' t' →
      (logText t.log = logText t'.log ↔
        singleEffects args host C (singleStart C M) k =
          singleEffects args' host' C' (singleStart C' M') k')) ∧
    ∀ k' s, (concurrentLoop args' host' V).Reaches (concurrentStart V N) k' s →
      (logText t.log = logText s.log ↔
        singleEffects args host C (singleStart C M) k =
          concurrentEffects args' host' V (concurrentStart V N) k') := by
  have hshows := shows_single args host C hlog M h
  constructor
  · intro k' t' h'
    exact hshows.text_eq_iff (shows_single args' host' C' hlog' M' h')
  · intro k' s h'
    exact hshows.text_eq_iff (shows_concurrent args' host' V hlog' N h')

/-- One instruction leaves the same text in both kinds of execution. -/
theorem nop_logged :
    let V := RVCorePCore.methods Playback.top
    let args : SimArgs := ⟨1, 0, true⟩
    let host : Host := fun _ => default
    let N := playbackMachine [0x00000013] [⟨1, 0x00010000, 0x00000013, 0, 0, 0, 0, 0, 0⟩]
    let M := boot N.prim.instif N.mem.ifPrim Fin.elim0 N.mem.ifPrim Fin.elim0
      [⟨initialPc, 4, [0x00000013]⟩] 0
    logText (singleBody args host FunctionalCore.methods
        (singleStart FunctionalCore.methods M)).log =
      logText (concurrentBody args host V (concurrentStart V N)).log := by
  intro V args host N M
  have hgoing : (singleLoop args host FunctionalCore.methods).guard
      (singleStart FunctionalCore.methods M) = true := by
    decide +kernel
  have hgoing' : (concurrentLoop args host V).guard (concurrentStart V N) = true := by
    decide +kernel
  have h := (trace_text_iff args args rfl rfl host host FunctionalCore.methods
    FunctionalCore.methods V M M N (WhileLoop.Reaches.start.next hgoing)).2 1 _
      (WhileLoop.Reaches.start.next hgoing')
  exact h.mpr (by decide +kernel)

end VeriCross
