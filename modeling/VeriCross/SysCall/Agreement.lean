import VeriCross.CoreWrapper
import VeriCross.FunctionalCore
import VeriCross.Memory.Access
import VeriCross.SysCall.Primitives

/-!
# Emulation keeps the cores in agreement

The cores agree when all of them read the same words and hold the same registers. Every
primitive step of emulation keeps the agreement: registers are written to all the cores, and a
public write stores the same words in all views, because it modifies what the primary sees and
that is what every core sees.
-/

namespace VeriCross

variable {numReps : ℕ}

/-- All the cores read the same word at every address. -/
def Memory.CoresAgree (m : Memory numReps) : Prop :=
  ∀ (a : Agent numReps) (addr : Word), m.read4b a.id addr = m.read4b .primary addr

namespace Memory

/-- A word stored for all the cores is read by every core. -/
theorem read4b_write4b_all (m : Memory numReps) (id : CoreId numReps) (addr data addr' : Word) :
    (m.write4b .all addr data).read4b id addr' =
      if m.wordAddr addr' = m.wordAddr addr then data else m.read4b id addr' := by
  have hwords : (m.write4b .all addr data).wordAddr addr' = m.wordAddr addr' := by
    rw [wordAddr, nwords_write4b, wordAddr]
  rw [read4b_eq_view, read4b_eq_view, hwords, view_write4b_all]
  exact Function.update_apply ..

/-- A word store for all the cores keeps them in agreement. -/
theorem CoresAgree.write4b {m : Memory numReps} (h : m.CoresAgree) (addr data : Word) :
    (m.write4b .all addr data).CoresAgree := by
  intro a addr'
  rw [read4b_write4b_all, read4b_write4b_all, h a addr']

/-- The word loop of a public write keeps the cores in agreement. -/
theorem CoresAgree.writeWords {m : Memory numReps} (h : m.CoresAgree) (addr : Word)
    (data : List Byte) : (m.writeWords addr data).CoresAgree := by
  fun_induction Memory.writeWords m addr data with
  | case1 m addr b0 b1 b2 b3 rest ih => exact ih (h.write4b _ _)
  | case2 => exact h

/-- The byte loop of a public write keeps the cores in agreement. -/
theorem CoresAgree.writeBytes {m : Memory numReps} (h : m.CoresAgree) (addr : Word)
    (data : List Byte) : (m.writeBytes addr data).CoresAgree := by
  fun_induction Memory.writeBytes m addr data with
  | case1 m addr b rest ih => exact ih (h.write4b _ _)
  | case2 => exact h

/-- A public write keeps the cores in agreement, aligned or not. -/
theorem CoresAgree.write {m : Memory numReps} (h : m.CoresAgree) (addr : Word)
    (data : List Byte) : (m.write addr data).CoresAgree := by
  rw [Memory.write]
  split
  · exact h.writeWords _ _
  · exact h.writeBytes _ _

end Memory

namespace Machine

variable {α β : Type}

/-- All the cores hold the same registers. -/
def RegistersAgree (P : RegisterMethods α) (R : RegisterMethods β) (M : Machine numReps α β) :
    Prop :=
  ∀ i r, R.readReg (M.reps i) r = P.readReg M.prim r

/-- All the cores have the same halt flag. -/
def HaltsAgree (M : Machine numReps α β) : Prop := ∀ i, (M.reps i).halt = M.prim.halt

/-- Emulation keeps the memory views equal, the registers equal and the halt flags equal. -/
theorem emulate_keeps_agreement (host : Host) {P : RegisterMethods α} {R : RegisterMethods β}
    (hP : P.Lawful) (hR : R.Lawful) (M : Machine numReps α β) (hmem : M.mem.CoresAgree)
    (hregs : M.RegistersAgree P R) :
    (M.emulate host P R).mem.CoresAgree ∧ (M.emulate host P R).RegistersAgree P R ∧
      (M.HaltsAgree → (M.emulate host P R).HaltsAgree) := by
  refine ⟨?_, ?_, fun hhalts => ?_⟩
  · exact emulate_invariant (I := fun M => M.mem.CoresAgree) (fun _ h _ => h)
      (fun _ h addr data => h.write addr data) (fun _ h _ => h) (fun _ h _ => h) host hmem
      fun _ => hmem
  · refine emulate_invariant (I := RegistersAgree P R) ?_ (fun _ h _ _ => h) (fun _ h _ => h)
      (fun _ h _ => h) host hregs fun _ => ?_
    · intro M h data i b
      change R.readReg (R.writeReg (M.reps i) _ data) b = P.readReg (P.writeReg M.prim _ data) b
      rw [hR.read_write, hP.read_write, h i b]
    · intro i r
      change R.readReg { M.reps i with halt := true } r = P.readReg { M.prim with halt := true } r
      rw [hR.read_halt, hP.read_halt, hregs i r]
  · refine emulate_invariant (I := HaltsAgree) ?_ (fun _ h _ _ => h) (fun _ h _ => h)
      (fun _ h _ => h) host hhalts fun _ _ => rfl
    intro M h data i
    change (R.writeReg (M.reps i) _ data).halt = (P.writeReg M.prim _ data).halt
    rw [hR.halt_write, hP.halt_write, h i]

/-- A time structure written to an odd address keeps a functional core and a wrapped module in
agreement. -/
theorem gettimeofday_keeps_agreement :
    let host : Host := fun _ => default
    let instif : CoreInstructionIF := ⟨0, 0, 0, 0, 0, 0, 0, 0, 0⟩
    let memif : CoreMemoryIF := ⟨0, 0, 0, 0, 0, 0, 0, 0, 0⟩
    let core := FunctionalCore.writeReg (FunctionalCore.writeReg
      (FunctionalCore.new instif memif) RiscV.regA7 SysCall.scGettimeofday) RiscV.regA0 0x00010001
    let top : Playback := { rest := [], shown := instif, reg := core.self.reg }
    let P := FunctionalCore.registers
    let R := (RVCorePCore.methods Playback.top).toRegisterMethods
    let M : Machine 1 FunctionalState (WrapperState Playback) :=
      { prim := core
        reps := fun _ => CoreWrapper.new instif memif top
        mem := Memory.new memif (fun _ => memif) memWords
        sys := SysCall.new 0 1 2 0
        calls := [] }
    let M' := M.emulate host P R
    M'.mem.CoresAgree ∧ M'.RegistersAgree P R ∧ M'.HaltsAgree := by
  intro host instif memif core top P R M M'
  have hmem : M.mem.CoresAgree := by
    intro a addr
    cases a <;> rfl
  obtain ⟨hmem', hregs', hhalts'⟩ := emulate_keeps_agreement host FunctionalCore.registers_lawful
    (CoreWrapper.registers_lawful _ Playback.top_hasRegisterArray) M hmem fun _ _ => rfl
  exact ⟨hmem', hregs', hhalts' fun _ => rfl⟩

end Machine

end VeriCross
