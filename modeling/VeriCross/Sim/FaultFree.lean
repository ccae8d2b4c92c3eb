import VeriCross.KronosCoreFaulty
import VeriCross.Sim.DerivedCore
import VeriCross.Sim.Termination

/-!
# Before the first fault

Up to the millionth instruction `KronosCoreFaulty` is `KronosCore`. Concurrent execution with either
core goes through the same states until then, and to the end when the instruction limit is lower.
-/

namespace VeriCross

namespace KronosCoreFaulty

variable {τ ρ : Type} {T : TopModule τ} {S : FaultSource ρ}

/-- `update` is that of the base class, but for the injected fault. -/
theorem update_eq (c : Core (FaultyState τ ρ)) :
    let b := (KronosCore.methods T).update (base c)
    (update T S c).1 = b.1 ∧ (update T S c).2.halt = b.2.halt ∧
      (update T S c).2.cntInst = b.2.cntInst ∧ (update T S c).2.instif = b.2.instif := by
  intro b
  rw [update]
  split
  · next hfailed => exact ⟨hfailed.symm, rfl, rfl, rfl⟩
  · next hdone =>
    have hdone : b.1 = true := Bool.eq_true_of_not_eq_false hdone
    split <;> exact ⟨hdone.symm, rfl, rfl, rfl⟩

/-- The class meets the contract of a verilated core. -/
theorem methods_countsRetired (hT : T.Resets) : (methods T S).CountsRetired := by
  have hV : (KronosCore.methods T).CountsRetired := KronosCore.methods_countsRetired hT
  have hhalt : ∀ c : Core (FaultyState τ ρ), (update T S c).2.halt = c.halt := fun c =>
    (update_eq c).2.1.trans (hV.update_halt (base c))
  have hcnt : ∀ c : Core (FaultyState τ ρ), (update T S c).2.cntInst =
      if (update T S c).1 = true ∧ (update T S c).2.instif.valid ≠ 0 then c.cntInst + 1
      else c.cntInst := by
    intro c
    obtain ⟨hdone, -, hcount, hinstif⟩ := update_eq (T := T) (S := S) c
    rw [hcount, hdone, hinstif]
    exact hV.update_cntInst (base c)
  refine ⟨⟨fun _ _ _ => rfl, fun _ _ _ => rfl⟩, ?_, ?_, ?_, ?_, hhalt, hcnt⟩
  · intro c
    let d := (drive T (setBase c (CoreWrapper.setRstX (base c) false))).2
    change (update T S d).2.halt = c.halt
    rw [hhalt]
    exact hV.drive_halt (CoreWrapper.setRstX (base c) false)
  · intro c
    let d := (drive T (setBase c (CoreWrapper.setRstX (base c) false))).2
    obtain ⟨-, hkeep, hrst⟩ := CoreWrapper.drive_keeps (T := T) (CoreWrapper.setRstX (base c) false)
    obtain ⟨hdone, -, -, hinstif⟩ := update_eq (T := T) (S := S) d
    change (update T S d).2.cntInst = c.cntInst
    rw [hcnt, if_neg]
    · exact hkeep
    · rintro ⟨h, hvalid⟩
      rw [hdone] at h
      rw [hinstif] at hvalid
      exact hvalid (CoreWrapper.update_valid_of_reset _ hT hrst h)
  · exact fun c => hV.drive_halt (base c)
  · exact fun c => hV.drive_cntInst (base c)

/-- The core without faults. -/
theorem update_of_below {c : Core (FaultyState τ ρ)} (h : c.cntInst.toNat + 1 < 1000000) :
    (update T S c).2 = updateBase T c := by
  rcases update_cases (T := T) (S := S) c with ⟨hhalt, hu⟩ | ⟨hhalt, hdue, -⟩ | ⟨-, -, hu⟩
  · have hbase : (KronosCore.methods T).update (base c) = (false, base c) := if_pos hhalt
    rw [hu, updateBase, hbase]
    rfl
  · have hwrap : (c.cntInst.toNat + 1) % 2 ^ 64 = c.cntInst.toNat + 1 :=
      Nat.mod_eq_of_lt (h.trans (by decide))
    rcases updateBase_cntInst (T := T) c hhalt with ⟨-, hcnt⟩ | ⟨-, hcnt⟩ <;> omega
  · exact hu

/-- The class is derived from `KronosCore`, and nothing is overridden before the millionth
instruction. -/
theorem methods_derivesUntil :
    (methods T S).DerivesUntil (KronosCore.methods T) FaultyState.base 1000000 := by
  have hupdate : ∀ c : Core (FaultyState τ ρ), c.cntInst.toNat + 1 < 1000000 →
      (KronosCore.methods T).update (c.upcast FaultyState.base) =
        upcastResult FaultyState.base (update T S c) := by
    intro c hc
    refine Prod.ext (update_eq c).1.symm ?_
    change _ = (update T S c).2.upcast FaultyState.base
    rw [update_of_below hc]
    rfl
  refine ⟨fun _ _ => rfl, fun _ _ _ => rfl, fun _ => rfl, hupdate, ?_⟩
  intro c hc
  let d := (drive T (setBase c (CoreWrapper.setRstX (base c) false))).2
  have hd : d.cntInst.toNat + 1 < 1000000 := by
    rw [(drive_keeps T _).1]
    exact hc
  have hdone := congrArg Prod.snd (hupdate d hd)
  change CoreWrapper.writeReg T (CoreWrapper.setRstX
    ((KronosCore.methods T).update (d.upcast FaultyState.base)).2 true) _ _ = _
  rw [hdone]
  rfl

end KronosCoreFaulty

/-- No more iterations are completed than instructions are allowed, but for the first. -/
theorem le_limit_of_reaches {β : Type} {V : CoreMethods β} {args : SimArgs} {host : Host}
    {M : Machine 1 FunctionalState β} (hboot : Booted M) {k : ℕ} {t : ConcurrentState β}
    (h : (concurrentLoop args host V).Reaches (concurrentStart V M) k t) :
    k ≤ max 1 args.maxInsts.toNat := by
  cases k with
  | zero => exact Nat.zero_le _
  | succ k =>
    obtain ⟨u, hu, hguard, -⟩ := WhileLoop.reaches_succ_iff.mp h
    exact lt_limit_of_guard hboot.memory hboot.primCnt hu hguard

/-- Until a million iterations are completed, concurrent execution with `KronosCoreFaulty` is
concurrent execution with `KronosCore`, whatever the generator: every state that one loop reaches
the other reaches too, with the same cores and memories, the same output and trace and the same
counts. With a limit of less than a million instructions both loops return the same. -/
theorem faulty_follows_kronos {τ ρ : Type} {T : TopModule τ} (hT : T.Resets) (S : FaultSource ρ)
    (args : SimArgs) (host : Host) (instif instif' : CoreInstructionIF)
    (memif memif' ifPrim ifRep : CoreMemoryIF) (top : τ) (rng : ρ) (sections : List Section)
    (brkAddr : Word) :
    let V := KronosCore.methods T
    let V' := KronosCoreFaulty.methods T S
    let start := concurrentStart V (boot instif memif
      (fun _ => CoreWrapper.new instif' memif' top) ifPrim (fun _ => ifRep) sections brkAddr)
    let start' := concurrentStart V' (boot instif memif
      (fun _ => KronosCoreFaulty.new instif' memif' top rng) ifPrim (fun _ => ifRep) sections
      brkAddr)
    let L := concurrentLoop args host V
    let L' := concurrentLoop args host V'
    let base := ConcurrentState.upcast (FaultyState.base (τ := τ) (ρ := ρ))
    (∀ k < 1000000, ∀ t, L.Reaches start k t ↔ ∃ s, L'.Reaches start' k s ∧ base s = t) ∧
      (args.maxInsts.toNat < 1000000 →
        ∀ t, L.Returns start t ↔ ∃ s, L'.Returns start' s ∧ base s = t) := by
  intro V V' start start' L L' base
  let rep' := KronosCoreFaulty.new instif' memif' top rng
  let rep := CoreWrapper.new instif' memif' top
  have hbooted' : Booted
      (boot instif memif (fun _ => rep') ifPrim (fun _ => ifRep) sections brkAddr) :=
    booted_boot instif memif rfl rfl ifPrim ifRep sections brkAddr
  have hbooted : Booted
      (boot instif memif (fun _ => rep) ifPrim (fun _ => ifRep) sections brkAddr) :=
    booted_boot instif memif rfl rfl ifPrim ifRep sections brkAddr
  have hV' : V'.CountsRetired := KronosCoreFaulty.methods_countsRetired hT
  have hreaches : ∀ k < 1000000, ∀ t,
      L.Reaches start k t ↔ ∃ s, L'.Reaches start' k s ∧ base s = t := by
    intro k hk t
    obtain ⟨hforth, hback⟩ := KronosCoreFaulty.methods_derivesUntil.reaches hV' hbooted'
      (by decide) args host hk
    constructor
    · intro h
      obtain ⟨s, hs, rfl⟩ := hback t h
      exact ⟨s, hs, rfl⟩
    · rintro ⟨s, hs, rfl⟩
      exact hforth s hs
  refine ⟨hreaches, ?_⟩
  intro hlimit t
  have hshort : max 1 args.maxInsts.toNat < 1000000 := max_lt (by decide) hlimit
  constructor
  · rintro ⟨k, hk, hexit⟩
    obtain ⟨s, hs, rfl⟩ :=
      (hreaches k ((le_limit_of_reaches hbooted hk).trans_lt hshort) t).mp hk
    exact ⟨s, ⟨k, hs, hexit⟩, rfl⟩
  · rintro ⟨s, ⟨k, hk, hexit⟩, rfl⟩
    have hsmall := (le_limit_of_reaches hbooted' hk).trans_lt hshort
    exact ⟨k, (hreaches k hsmall _).mpr ⟨s, hk, rfl⟩, hexit⟩

/-- A machine like `playbackMachine` whose core flips bits. -/
def faultyPlaybackMachine (image : List Word) (records : List CoreInstructionIF) :
    Machine 1 FunctionalState (FaultyState Playback Unit) :=
  let instif : CoreInstructionIF := ⟨0, 0, 0, 0, 0, 0, 0, 0, 0⟩
  let memif : CoreMemoryIF := ⟨0, 0, 0, 0, 0, 0, 0, 0, 0⟩
  let top : Playback := { rest := records, shown := instif, reg := fun _ => 0 }
  boot instif memif (fun _ => KronosCoreFaulty.new instif memif top ()) memif (fun _ => memif)
    [{ addr := initialPc, length := BitVec.ofNat 32 (4 * image.length), data := image }] 0

/-- The start of concurrent execution with one instruction to play back, and with `KronosCore`. -/
def nopStart : ConcurrentState (WrapperState Playback) :=
  concurrentStart (KronosCore.methods Playback.top)
    (playbackMachine [0x00000013] [⟨1, 0x00010000, 0x00000013, 0, 0, 0, 0, 0, 0⟩])

/-- With a limit of one instruction nothing is reported with either core. -/
theorem nop_without_fault :
    ∃ t, (concurrentLoop ⟨1, 0, false⟩ (fun _ => default) (KronosCoreFaulty.methods Playback.top
        KronosCoreFaulty.sameFault)).Returns
      (concurrentStart (KronosCoreFaulty.methods Playback.top KronosCoreFaulty.sameFault)
        (faultyPlaybackMachine [0x00000013] [⟨1, 0x00010000, 0x00000013, 0, 0, 0, 0, 0, 0⟩])) t ∧
      t.out = [] := by
  obtain ⟨-, hreturns⟩ := faulty_follows_kronos Playback.top_resets KronosCoreFaulty.sameFault
    ⟨1, 0, false⟩ (fun _ => default) ⟨0, 0, 0, 0, 0, 0, 0, 0, 0⟩ ⟨0, 0, 0, 0, 0, 0, 0, 0, 0⟩
    ⟨0, 0, 0, 0, 0, 0, 0, 0, 0⟩ ⟨0, 0, 0, 0, 0, 0, 0, 0, 0⟩ ⟨0, 0, 0, 0, 0, 0, 0, 0, 0⟩
    ⟨0, 0, 0, 0, 0, 0, 0, 0, 0⟩
    ⟨[⟨1, 0x00010000, 0x00000013, 0, 0, 0, 0, 0, 0⟩], ⟨0, 0, 0, 0, 0, 0, 0, 0, 0⟩, fun _ => 0⟩ ()
    [{ addr := initialPc, length := 4, data := [0x00000013] }] 0
  have hreach : (concurrentLoop ⟨1, 0, false⟩ (fun _ => default) (KronosCore.methods
      Playback.top)).Returns nopStart
        (concurrentBody ⟨1, 0, false⟩ (fun _ => default) (KronosCore.methods Playback.top)
          nopStart) :=
    ⟨1, WhileLoop.Reaches.start.next (by decide +kernel), by decide +kernel⟩
  obtain ⟨s, hs, hbase⟩ := (hreturns (by decide) _).mp hreach
  have hout := congrArg ConcurrentState.out hbase
  refine ⟨s, hs, hout.trans ?_⟩
  decide +kernel

end VeriCross
