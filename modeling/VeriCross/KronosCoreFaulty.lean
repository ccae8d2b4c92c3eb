import VeriCross.CoreWrapper

/-!
# Fault injection

`KronosCoreFaulty` is `KronosCore` with a register file in which a bit is flipped from time to
time. What `update` tests is the number of retired instructions, and it does so in every cycle: a
fault is injected once for every million instructions exactly as long as no cycle goes by without a
retired instruction at such a number.
-/

namespace VeriCross

/-- A bit of the register file that was flipped. -/
structure Fault where
  regNum : RegIndex
  bitPos : Fin 32
  deriving DecidableEq, Repr

/-- The generator `rng` and the two distributions over it: registers from `x1` to `x31`, and bit
positions. -/
structure FaultSource (ρ : Type) where
  regDist : ρ → RegIndex × ρ
  bitDist : ρ → Fin 32 × ρ
  regDist_ne_zero : ∀ rng, (regDist rng).1 ≠ 0

/-- The members of `KronosCoreFaulty`: those of the base class and the generator. The calls of
`inject_fault` are recorded. -/
structure FaultyState (τ ρ : Type) where
  base : WrapperState τ
  rng : ρ
  faults : List Fault

namespace KronosCoreFaulty

variable {τ ρ : Type} (T : TopModule τ) (S : FaultSource ρ)

/-- The core as one of the base class. -/
def base (c : Core (FaultyState τ ρ)) : Core (WrapperState τ) := { c with self := c.self.base }

/-- Replace the members of the base class. -/
def setBase (c : Core (FaultyState τ ρ)) (b : Core (WrapperState τ)) : Core (FaultyState τ ρ) :=
  { b with self := { c.self with base := b.self } }

/-- The constructor. -/
def new (instif : CoreInstructionIF) (memif : CoreMemoryIF) (top : τ) (rng : ρ) :
    Core (FaultyState τ ρ) :=
  { CoreWrapper.new instif memif top with
    self := { base := (CoreWrapper.new instif memif top).self, rng := rng, faults := [] } }

/-- Read a register as the base class does. -/
def readReg (c : Core (FaultyState τ ρ)) (addr : RegIndex) : Word :=
  CoreWrapper.readReg T (base c) addr

/-- Write a register as the base class does. -/
def writeReg (c : Core (FaultyState τ ρ)) (addr : RegIndex) (data : Word) :
    Core (FaultyState τ ρ) :=
  setBase c (CoreWrapper.writeReg T (base c) addr data)

/-- Flip a randomly selected bit of the register file. -/
def injectFault (c : Core (FaultyState τ ρ)) : Core (FaultyState τ ρ) :=
  let (regNum, rng) := S.regDist c.self.rng
  let (bitPos, rng) := S.bitDist rng
  let value := readReg T c regNum ^^^ (1 <<< bitPos.val)
  let c := writeReg T c regNum value
  { c with self := { c.self with rng := rng, faults := c.self.faults ++ [⟨regNum, bitPos⟩] } }

/-- `drive` of the base class. -/
def drive (c : Core (FaultyState τ ρ)) : Bool × Core (FaultyState τ ρ) :=
  let b := (KronosCore.methods T).drive (base c)
  (b.1, setBase c b.2)

/-- `update` of the base class, and a fault at every 1,000,000 instructions. -/
def update (c : Core (FaultyState τ ρ)) : Bool × Core (FaultyState τ ρ) :=
  let b := (KronosCore.methods T).update (base c)
  let c := setBase c b.2
  if b.1 = false then (false, c)
  else if 0 < c.cntInst ∧ c.cntInst % 1000000 = 0 then (true, injectFault T S c)
  else (true, c)

/-- `reset` of the base class, with the virtual `update`. -/
def reset (c : Core (FaultyState τ ρ)) : Core (FaultyState τ ρ) :=
  let c := (drive T (setBase c (CoreWrapper.setRstX (base c) false))).2
  let c := (update T S c).2
  writeReg T (setBase c (CoreWrapper.setRstX (base c) true)) RiscV.regSp initialSp

/-- The virtual methods. -/
def methods : CoreMethods (FaultyState τ ρ) where
  readReg := readReg T
  writeReg := writeReg T
  reset := reset T S
  drive := drive T
  update := update T S

/-- Driving the core counts nothing. -/
theorem drive_keeps (c : Core (FaultyState τ ρ)) :
    (drive T c).2.cntInst = c.cntInst ∧ (drive T c).2.self.faults = c.self.faults :=
  ⟨(CoreWrapper.drive_keeps (T := T) (base c)).2.1, rfl⟩

/-! One cycle. -/

/-- The module shows a retired instruction at the next rising edge. -/
def Retires (c : Core (FaultyState τ ρ)) : Prop :=
  (T.outputs (T.eval { c.self.base.inputs with clk := true } c.self.base.top)).instif.valid ≠ 0

/-- A cycle that is not a halted core's retires nothing at a positive multiple of a million, or
brings the instruction counter back to zero. -/
def Miscounts (c : Core (FaultyState τ ρ)) : Prop :=
  c.halt = false ∧
    ((¬Retires T c ∧ 0 < c.cntInst.toNat ∧ c.cntInst.toNat % 1000000 = 0) ∨
      (Retires T c ∧ c.cntInst.toNat + 1 = 2 ^ 64))

/-- A call of `inject_fault` flips one bit of one of the registers from `x1` on. -/
structure FlipsOneBit (c c' : Core (FaultyState τ ρ)) (f : Fault) : Prop where
  regNum : f.regNum ≠ 0
  faults : c'.self.faults = c.self.faults ++ [f]
  flips : ∀ a, readReg T c' a =
    if a = f.regNum then readReg T c a ^^^ (1 <<< f.bitPos.val) else readReg T c a

variable {T S}

/-- A fault flips one bit of one register. -/
theorem injectFault_flips (hT : T.HasRegisterArray) (c : Core (FaultyState τ ρ)) :
    ∃ f, FlipsOneBit T c (injectFault T S c) f := by
  refine ⟨⟨(S.regDist c.self.rng).1, (S.bitDist (S.regDist c.self.rng).2).1⟩,
    S.regDist_ne_zero _, rfl, fun a => ?_⟩
  refine (hT ..).trans ?_
  dsimp only
  by_cases ha : a = (S.regDist c.self.rng).1
  · rw [if_pos ha, if_pos ha, ha]
  · rw [if_neg ha, if_neg ha]
    rfl

/-- The core after `update` of the base class alone. -/
def updateBase (T : TopModule τ) (c : Core (FaultyState τ ρ)) : Core (FaultyState τ ρ) :=
  setBase c ((KronosCore.methods T).update (base c)).2

/-- The `update` of the base class counts the instruction that the cycle retires. -/
theorem updateBase_cntInst (c : Core (FaultyState τ ρ)) (hhalt : c.halt = false) :
    (Retires T c ∧ (updateBase T c).cntInst.toNat = (c.cntInst.toNat + 1) % 2 ^ 64) ∨
      (¬Retires T c ∧ (updateBase T c).cntInst.toNat = c.cntInst.toNat) := by
  have hcnt : (updateBase T c).cntInst =
      if ((T.outputs (T.eval { c.self.base.inputs with clk := true } c.self.base.top)).instif.valid)
        ≠ 0 then c.cntInst + 1 else c.cntInst := by
    change (CoreWrapper.update T _ (base c)).2.cntInst = _
    rw [CoreWrapper.update, if_neg (by rw [show (base c).halt = c.halt from rfl, hhalt]; decide)]
    rfl
  by_cases hret : Retires T c
  · refine .inl ⟨hret, ?_⟩
    rw [hcnt.trans (if_pos hret), BitVec.toNat_add]
    rfl
  · refine .inr ⟨hret, ?_⟩
    rw [hcnt.trans (if_neg hret)]

/-- The test of `update` on the instruction counter. -/
theorem due_iff (cntInst : Counter) :
    (0 < cntInst ∧ cntInst % 1000000 = 0) ↔ 0 < cntInst.toNat ∧ cntInst.toNat % 1000000 = 0 := by
  rw [BitVec.lt_def, ← BitVec.toNat_inj, BitVec.toNat_umod]
  rfl

/-- A cycle: nothing happens to a halted core, and otherwise the base class is updated and a fault
is injected at a positive multiple of a million. -/
theorem update_cases (c : Core (FaultyState τ ρ)) :
    (c.halt = true ∧ (update T S c).2 = c) ∨
    (c.halt = false ∧
      (0 < (updateBase T c).cntInst.toNat ∧ (updateBase T c).cntInst.toNat % 1000000 = 0) ∧
      (update T S c).2 = injectFault T S (updateBase T c)) ∨
    (c.halt = false ∧
      ¬(0 < (updateBase T c).cntInst.toNat ∧ (updateBase T c).cntInst.toNat % 1000000 = 0) ∧
      (update T S c).2 = updateBase T c) := by
  cases hhalt : c.halt with
  | true =>
    refine .inl ⟨rfl, ?_⟩
    have hbase : (KronosCore.methods T).update (base c) = (false, base c) :=
      if_pos hhalt
    rw [update, hbase]
    rfl
  | false =>
    right
    have hdone : ((KronosCore.methods T).update (base c)).1 = true := by
      change (CoreWrapper.update T _ (base c)).1 = true
      rw [CoreWrapper.update, if_neg (by rw [show (base c).halt = c.halt from rfl, hhalt]; decide)]
    have hupdate : (update T S c).2 =
        if 0 < (updateBase T c).cntInst ∧ (updateBase T c).cntInst % 1000000 = 0 then
          injectFault T S (updateBase T c)
        else updateBase T c := by
      rw [update, hdone]
      simp only [Bool.true_eq_false, if_false]
      rw [updateBase]
      split <;> rfl
    by_cases hdue : 0 < (updateBase T c).cntInst.toNat ∧
        (updateBase T c).cntInst.toNat % 1000000 = 0
    · exact .inl ⟨rfl, hdue, hupdate.trans (if_pos ((due_iff _).mpr hdue))⟩
    · exact .inr ⟨rfl, hdue, hupdate.trans (if_neg fun h => hdue ((due_iff _).mp h))⟩

/-! Sequences of cycles. -/

/-- The core after a sequence of cycles from the constructor on, with the cores on which `update`
was called. In between the core is driven, the memory answers, registers are written, the reset
input changes and the core is halted, but nothing is counted and no fault injected. -/
inductive Cycles (T : TopModule τ) (S : FaultSource ρ) :
    List (Core (FaultyState τ ρ)) → Core (FaultyState τ ρ) → Prop
  | start (instif : CoreInstructionIF) (memif : CoreMemoryIF) (top : τ) (rng : ρ) :
    Cycles T S [] (new instif memif top rng)
  | next {cs : List (Core (FaultyState τ ρ))} {c c' : Core (FaultyState τ ρ)} : Cycles T S cs c →
    c'.cntInst = c.cntInst → c'.self.faults = c.self.faults →
    Cycles T S (cs ++ [c']) (update T S c').2

/-- Resetting the core is a cycle in which it is driven, but for what is done after it. -/
theorem Cycles.reset {cs : List (Core (FaultyState τ ρ))} {c : Core (FaultyState τ ρ)}
    (h : Cycles T S cs c) :
    let d := (drive T (setBase c (CoreWrapper.setRstX (base c) false))).2
    Cycles T S (cs ++ [d]) (update T S d).2 := by
  obtain ⟨hcnt, hfaults⟩ := drive_keeps T (setBase c (CoreWrapper.setRstX (base c) false))
  exact h.next hcnt hfaults

/-- The number of injected faults is at least what it should be, and more exactly when a cycle
miscounted. -/
structure Counted (T : TopModule τ) (cs : List (Core (FaultyState τ ρ)))
    (c : Core (FaultyState τ ρ)) : Prop where
  enough : c.cntInst.toNat / 1000000 ≤ c.self.faults.length
  exact_iff : c.self.faults.length = c.cntInst.toNat / 1000000 ↔ ∀ c' ∈ cs, ¬Miscounts T c'

/-- One more cycle, by what it adds to the two numbers. -/
theorem Counted.step {cs : List (Core (FaultyState τ ρ))} {c c' u : Core (FaultyState τ ρ)}
    (h : Counted T cs c)
    (hstep : (¬Miscounts T c' ∧
        u.self.faults.length + c.cntInst.toNat / 1000000 =
          c.self.faults.length + u.cntInst.toNat / 1000000) ∨
      (Miscounts T c' ∧
        c.self.faults.length + u.cntInst.toNat / 1000000 <
          u.self.faults.length + c.cntInst.toNat / 1000000)) : Counted T (cs ++ [c']) u := by
  obtain ⟨henough, hiff⟩ := h
  have hall : (∀ d ∈ cs ++ [c'], ¬Miscounts T d) ↔
      (∀ d ∈ cs, ¬Miscounts T d) ∧ ¬Miscounts T c' := by
    simp only [List.forall_mem_append, List.forall_mem_singleton]
  rcases hstep with ⟨hgood, heq⟩ | ⟨hbad, hlt⟩
  · refine ⟨by omega, ?_⟩
    rw [hall, ← hiff]
    constructor
    · intro hu
      exact ⟨by omega, hgood⟩
    · rintro ⟨hc, -⟩
      omega
  · refine ⟨by omega, ?_⟩
    rw [hall]
    constructor
    · intro hu
      omega
    · rintro ⟨-, hc⟩
      exact absurd hbad hc

/-- What a cycle adds to the numbers of instructions and faults. -/
theorem update_counts (c : Core (FaultyState τ ρ)) :
    let u := (update T S c).2
    (¬Miscounts T c ∧ u.self.faults.length + c.cntInst.toNat / 1000000 =
        c.self.faults.length + u.cntInst.toNat / 1000000) ∨
      (Miscounts T c ∧ c.self.faults.length + u.cntInst.toNat / 1000000 <
        u.self.faults.length + c.cntInst.toNat / 1000000) := by
  intro u
  have hlt := c.cntInst.isLt
  rcases update_cases (T := T) (S := S) c with ⟨hhalt, hu⟩ | ⟨hhalt, hdue, hu⟩ | ⟨hhalt, hdue, hu⟩
  · left
    refine ⟨fun h => absurd (hhalt.symm.trans h.1) (by decide), ?_⟩
    rw [show u = c from hu]
  · -- a fault is injected
    have hfaults : u.self.faults.length = c.self.faults.length + 1 := by
      rw [show u = _ from hu]
      exact List.length_append
    have hcnt : u.cntInst = (updateBase T c).cntInst := by
      rw [show u = _ from hu]
      rfl
    rcases updateBase_cntInst (T := T) c hhalt with ⟨hret, hbase⟩ | ⟨hret, hbase⟩
    · rw [hbase] at hdue
      left
      refine ⟨?_, ?_⟩
      · rintro ⟨-, ⟨hidle, -⟩ | ⟨-, hwrap⟩⟩
        · exact hidle hret
        · rw [hwrap] at hdue
          omega
      · rw [hfaults, hcnt, hbase]
        omega
    · rw [hbase] at hdue
      right
      refine ⟨⟨hhalt, .inl ⟨hret, hdue⟩⟩, ?_⟩
      rw [hfaults, hcnt, hbase]
      omega
  · have hfaults : u.self.faults.length = c.self.faults.length := by
      rw [show u = _ from hu]
      rfl
    rw [hfaults, show u = _ from hu]
    rcases updateBase_cntInst (T := T) c hhalt with ⟨hret, hbase⟩ | ⟨hret, hbase⟩
    · rw [hbase] at hdue
      by_cases hwrap : c.cntInst.toNat + 1 = 2 ^ 64
      · right
        refine ⟨⟨hhalt, .inr ⟨hret, hwrap⟩⟩, ?_⟩
        rw [hbase]
        omega
      · left
        refine ⟨?_, ?_⟩
        · rintro ⟨-, ⟨hidle, -⟩ | ⟨-, h⟩⟩
          · exact hidle hret
          · exact hwrap h
        · rw [hbase]
          omega
    · rw [hbase] at hdue
      left
      refine ⟨?_, ?_⟩
      · rintro ⟨-, ⟨-, hmultiple⟩ | ⟨h, -⟩⟩
        · exact hdue hmultiple
        · exact hret h
      · rw [hbase]

/-- The count of a sequence of cycles. -/
theorem Cycles.counted {cs : List (Core (FaultyState τ ρ))} {c : Core (FaultyState τ ρ)}
    (h : Cycles T S cs c) : Counted T cs c := by
  induction h with
  | start =>
    have hzero : (0 : Counter).toNat / 1000000 = 0 := rfl
    exact ⟨Nat.le_of_eq hzero, iff_of_true hzero.symm fun _ hmem => absurd hmem List.not_mem_nil⟩
  | @next cs c c' _ hcnt hfaults ih =>
    have hstep := update_counts (T := T) (S := S) c'
    rw [hcnt, hfaults] at hstep
    exact ih.step hstep

/-- After a sequence of cycles a fault was injected for every million instructions exactly when no
cycle retired nothing at a positive multiple of a million, and the counter did not wrap around. In
each cycle `update` does what the base class does, and flips at most one bit. -/
theorem faults_once_iff (hT : T.HasRegisterArray) {cs : List (Core (FaultyState τ ρ))}
    {c : Core (FaultyState τ ρ)} (h : Cycles T S cs c) :
    (c.self.faults.length = c.cntInst.toNat / 1000000 ↔ ∀ c' ∈ cs, ¬Miscounts T c') ∧
      ∀ c' ∈ cs, (update T S c').2 = updateBase T c' ∨
        ∃ f, FlipsOneBit T (updateBase T c') (update T S c').2 f := by
  refine ⟨h.counted.exact_iff, fun c' _ => ?_⟩
  rcases update_cases (T := T) (S := S) c' with ⟨hhalt, hu⟩ | ⟨-, -, hu⟩ | ⟨-, -, hu⟩
  · have hbase : updateBase T c' = c' := by
      have hbase : (KronosCore.methods T).update (base c') = (false, base c') := if_pos hhalt
      rw [updateBase, hbase]
      rfl
    exact .inl (hu.trans hbase.symm)
  · rw [hu]
    exact .inr (injectFault_flips hT _)
  · exact .inl hu

/-! A core that retires a list of records and then stalls. -/

/-- A generator that always chooses the lowest bit of `x1`. -/
def sameFault : FaultSource Unit := ⟨fun _ => (1, ()), fun _ => (0, ()), fun _ => by decide⟩

/-- The core before reset. -/
def playbackNew (records : List CoreInstructionIF) : Core (FaultyState Playback Unit) :=
  let instif : CoreInstructionIF := ⟨0, 0, 0, 0, 0, 0, 0, 0, 0⟩
  new instif ⟨0, 0, 0, 0, 0, 0, 0, 0, 0⟩ { rest := records, shown := instif, reg := fun _ => 0 } ()

/-- The core after reset. -/
def playbackCore (records : List CoreInstructionIF) : Core (FaultyState Playback Unit) :=
  reset Playback.top sameFault (playbackNew records)

/-- The new core has made no cycle. -/
theorem playbackNew_cycles (records : List CoreInstructionIF) :
    Cycles Playback.top sameFault [] (playbackNew records) :=
  .start ..

/-- The core goes on with the records of a list, after a number of instructions. -/
structure Playing (records : List CoreInstructionIF) (k : ℕ)
    (c : Core (FaultyState Playback Unit)) : Prop where
  halt : c.halt = false
  rstX : c.self.base.inputs.rstX = true
  rest : c.self.base.top.rest = records
  cntInst : c.cntInst = BitVec.ofNat 64 k

/-- The new core plays from the first record on. -/
theorem playing_start (records : List CoreInstructionIF) :
    Playing records 0 (playbackCore records) :=
  ⟨rfl, rfl, rfl, rfl⟩

/-- Driving the core keeps its place. -/
theorem Playing.after_drive {records : List CoreInstructionIF} {k : ℕ}
    {c : Core (FaultyState Playback Unit)} (h : Playing records k c) :
    Playing records k (drive Playback.top c).2 := by
  have hdrive : (drive Playback.top c).2 = setBase c
      (CoreWrapper.drive Playback.top (base c)).2 := rfl
  rw [hdrive, CoreWrapper.drive,
    if_neg (by rw [show (base c).halt = c.halt from rfl, h.halt]; decide)]
  exact ⟨h.halt, h.rstX, h.rest, h.cntInst⟩

/-- What the base class leaves of a list of records. -/
theorem Playing.after_update {r : CoreInstructionIF} {records : List CoreInstructionIF} {k : ℕ}
    {c : Core (FaultyState Playback Unit)} (h : Playing (r :: records) k c) :
    Playing records (k + 1) (updateBase Playback.top c) := by
  have heval : Playback.eval { c.self.base.inputs with clk := true } c.self.base.top =
      { c.self.base.top with rest := records, shown := { r with valid := 1 } } :=
    Playback.eval_cons rfl h.rstX h.rest
  have hbase : updateBase Playback.top c = setBase c
      (CoreWrapper.update Playback.top _ (base c)).2 := rfl
  rw [hbase, CoreWrapper.update,
    if_neg (by rw [show (base c).halt = c.halt from rfl, h.halt]; decide)]
  have hvalid : (Playback.top.outputs (Playback.top.eval { c.self.base.inputs with clk := true }
      c.self.base.top)).instif.valid ≠ 0 := by
    change (Playback.eval _ _).shown.valid ≠ 0
    rw [heval]
    exact (by decide : (1 : Word) ≠ 0)
  refine ⟨h.halt, h.rstX, ?_, ?_⟩
  · exact (congrArg Playback.rest (ite_self _)).trans (congrArg Playback.rest heval)
  · refine (if_pos hvalid).trans ?_
    rw [BitVec.ofNat_add, ← h.cntInst]
    rfl

/-- Flipping a bit of a register keeps the place in the list. -/
theorem Playing.after_fault {records : List CoreInstructionIF} {k : ℕ}
    {c : Core (FaultyState Playback Unit)} (h : Playing records k c) :
    Playing records k (injectFault Playback.top sameFault c) :=
  ⟨h.halt, h.rstX, h.rest, h.cntInst⟩

/-- A cycle in which the core is driven and updated. -/
theorem Playing.cycle {r : CoreInstructionIF} {records : List CoreInstructionIF} {k : ℕ}
    {c : Core (FaultyState Playback Unit)} (h : Playing (r :: records) k c) :
    Playing records (k + 1) (update Playback.top sameFault (drive Playback.top c).2).2 := by
  have hbase := h.after_drive.after_update
  rcases update_cases (T := Playback.top) (S := sameFault)
    (drive Playback.top c).2 with ⟨hhalt, -⟩ | ⟨-, -, hu⟩ | ⟨-, -, hu⟩
  · exact absurd (hhalt.symm.trans h.after_drive.halt) (by decide)
  · rw [hu]
    exact hbase.after_fault
  · rw [hu]
    exact hbase

/-- The core gets to the end of a list of records, one in each cycle. -/
theorem Playing.to_end {records : List CoreInstructionIF} {k : ℕ}
    {c : Core (FaultyState Playback Unit)} (h : Playing records k c)
    {cs : List (Core (FaultyState Playback Unit))} {c₀ : Core (FaultyState Playback Unit)}
    (hcs : Cycles Playback.top sameFault cs c₀) (hcnt : c.cntInst = c₀.cntInst)
    (hfaults : c.self.faults = c₀.self.faults) :
    ∃ cs' c' c₁, Cycles Playback.top sameFault cs' c₁ ∧ Playing [] (k + records.length) c' ∧
      c'.cntInst = c₁.cntInst ∧ c'.self.faults = c₁.self.faults := by
  induction records generalizing k c cs c₀ with
  | nil => exact ⟨cs, c, c₀, hcs, h, hcnt, hfaults⟩
  | cons r records ih =>
    have hkeeps := drive_keeps Playback.top c
    have hnext := hcs.next (hkeeps.1.trans hcnt) (hkeeps.2.trans hfaults)
    obtain ⟨cs', c', c₁, hcs', hend, hsame⟩ := ih h.cycle hnext rfl rfl
    refine ⟨cs', c', c₁, hcs', ?_, hsame⟩
    rw [List.length_cons, Nat.add_comm records.length, ← Nat.add_assoc]
    exact hend

/-- At the end of the list nothing is retired. -/
theorem Playing.not_retires {k : ℕ} {c : Core (FaultyState Playback Unit)} (h : Playing [] k c) :
    ¬Retires Playback.top c := by
  intro hretires
  have heval : Playback.eval { c.self.base.inputs with clk := true } c.self.base.top =
      { c.self.base.top with shown := { c.self.base.top.shown with valid := 0 } } :=
    Playback.eval_nil rfl h.rstX h.rest
  exact hretires (congrArg (fun t : Playback => t.shown.valid) heval)

/-- One instruction retired after reset. -/
theorem nop_counted :
    ∃ cs c, Cycles Playback.top sameFault cs c ∧ c.cntInst.toNat = 1 ∧
      ∀ c' ∈ cs, ¬Miscounts Playback.top c' := by
  let records : List CoreInstructionIF := [⟨1, 0x00010000, 0x00000013, 0, 0, 0, 0, 0, 0⟩]
  have hreset := (playbackNew_cycles records).reset
  have hplaying := playing_start records
  have hnext : Cycles Playback.top sameFault _
      (update Playback.top sameFault (drive Playback.top (playbackCore records)).2).2 :=
    hreset.next rfl rfl
  have hcnt := congrArg BitVec.toNat hplaying.cycle.cntInst
  refine ⟨_, _, hnext, hcnt, (faults_once_iff Playback.top_hasRegisterArray hnext).1.mp ?_⟩
  rw [hcnt]
  rfl

/-- A million instructions, one in each cycle, and then a cycle that retires nothing: there are two
faults, or more. -/
theorem stall_faults_again :
    ∃ cs c, Cycles Playback.top sameFault cs c ∧ c.cntInst.toNat = 1000000 ∧
      1 < c.self.faults.length := by
  let records : List CoreInstructionIF :=
    List.replicate 1000000 ⟨1, 0x00010000, 0x00000013, 0, 0, 0, 0, 0, 0⟩
  have hreset := (playbackNew_cycles records).reset
  obtain ⟨cs', c, c₁, hcs', hend, hcnt', hfaults'⟩ :=
    (playing_start records).to_end hreset rfl rfl
  rw [List.length_replicate] at hend
  have hdriven := hend.after_drive
  have hkeeps := drive_keeps Playback.top c
  have hnext := hcs'.next (hkeeps.1.trans hcnt') (hkeeps.2.trans hfaults')
  have hbefore : (drive Playback.top c).2.cntInst.toNat = 1000000 := by
    rw [hdriven.cntInst]
    rfl
  have hafter : (update Playback.top sameFault (drive Playback.top c).2).2.cntInst.toNat =
      1000000 := by
    obtain ⟨hretires, -⟩ | ⟨-, hbase⟩ := updateBase_cntInst (T := Playback.top) _ hdriven.halt
    · exact absurd hretires hdriven.not_retires
    · rw [hbefore] at hbase
      rcases update_cases (T := Playback.top) (S := sameFault) (drive Playback.top c).2 with
        ⟨-, hu⟩ | ⟨-, -, hu⟩ | ⟨-, -, hu⟩
      · rw [hu, hbefore]
      · rw [hu]
        exact hbase
      · rw [hu, hbase]
  obtain ⟨henough, hexact⟩ := hnext.counted
  rw [hafter] at henough hexact
  have hmiscounts : Miscounts Playback.top (drive Playback.top c).2 :=
    ⟨hdriven.halt, .inl ⟨hdriven.not_retires, by rw [hbefore]; decide⟩⟩
  refine ⟨_, _, hnext, hafter, Nat.lt_of_le_of_ne henough fun hone => ?_⟩
  exact hexact.mp hone.symm _ (List.mem_append_right _ (List.mem_singleton_self _)) hmiscounts

end KronosCoreFaulty

end VeriCross
