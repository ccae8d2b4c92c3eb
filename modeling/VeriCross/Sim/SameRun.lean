import VeriCross.Sim.Steps
import VeriCross.SysCall.Primitives

/-!
# Machines that are the same for the first core

Two machines with any numbers of replicas are compared by what the first core can observe: its
registers, its counter, the words it sees, the emulation state and the host calls. An
instruction, a public write, an emulated call and a cycle of a replica keep the observations the
same, and booting with the same image makes them so.
-/

namespace VeriCross

open RiscV SysCall

/-! One instruction, on interfaces with different contents. -/

/-- The two outcomes of an instruction differ in nothing but the unused fields of the memory
interface. -/
structure Execution.SameEffect (x x' : Execution) : Prop where
  reg : x.reg = x'.reg
  npc : x.npc = x'.npc
  request : ∀ nw f, WordMap.request nw x.memif f = WordMap.request nw x'.memif f

/-- The interface is prepared for an instruction. -/
structure CoreMemoryIF.Prepared (memif : CoreMemoryIF) : Prop where
  en : memif.en = 1
  dRe : memif.dRe = 0
  dWe : memif.dWe = 0

/-- An interface without a store changes no memory. -/
theorem WordMap.request_of_dWe {req : CoreMemoryIF} (h : req.dWe = 0) (nw : Word) (f : WordMap) :
    WordMap.request nw req f = f :=
  if_neg fun hreq => hreq.2.2 h

/-- A load changes no memory. -/
theorem WordMap.request_load (memif : CoreMemoryIF) (addr nw : Word) (f : WordMap) :
    WordMap.request nw (memif.load addr) f = f :=
  if_neg fun hreq => absurd hreq.2.1 (by decide : (1 : Word) ≠ 0)

/-- An instruction has the same effect whatever the prepared interface held before. -/
theorem execute_sameEffect (read : PublicRead) (pc : Word) (inst : RiscVInstruction)
    (reg : RegIndex → Word) {memif memif' : CoreMemoryIF} (h : memif.Prepared)
    (h' : memif'.Prepared) {x x' : Execution} (hx : execute read pc inst reg memif = some x)
    (hx' : execute read pc inst reg memif' = some x') : x.SameEffect x' := by
  have hidle : ∀ nw f, WordMap.request nw memif f = WordMap.request nw memif' f := fun nw f => by
    rw [WordMap.request_of_dWe h.dWe, WordMap.request_of_dWe h'.dWe]
  have hload : ∀ addr nw f,
      WordMap.request nw (memif.load addr) f = WordMap.request nw (memif'.load addr) f :=
    fun addr nw f => by rw [WordMap.request_load, WordMap.request_load]
  have hstore : ∀ addr data mask nw f, WordMap.request nw (memif.store addr data mask) f =
      WordMap.request nw (memif'.store addr data mask) f := by
    intro addr data mask nw f
    unfold WordMap.request CoreMemoryIF.store
    dsimp only
    rw [h.en, h'.en, h.dRe, h'.dRe]
  unfold execute at hx hx'
  cases hinst : inst.instrId <;> rw [hinst] at hx hx' <;> cases hx <;> cases hx' <;>
    first
    | exact ⟨rfl, rfl, hidle⟩
    | exact ⟨rfl, rfl, hload _⟩
    | exact ⟨rfl, rfl, hstore _ _ _⟩

/-- What a successful `drive` leaves is determined by the registers, the program counter, the
counter and the words read. -/
theorem FunctionalCore.drive_sameEffect (read : PublicRead) {c c' : Core FunctionalState}
    (hself : c.self = c'.self) (hhalt : c.halt = c'.halt) (hcnt : c.cntInst = c'.cntInst)
    (h : (drive read c).1 = true) :
    (drive read c').1 = true ∧ (drive read c).2.self = (drive read c').2.self ∧
      (drive read c).2.cntInst = (drive read c').2.cntInst ∧
      ∀ nw f, WordMap.request nw (drive read c).2.memif f =
        WordMap.request nw (drive read c').2.memif f := by
  have hready : ready c = ready c' := by rw [ready, ready, hself, hhalt]
  have hinst : instruction read c = instruction read c' := by
    rw [instruction, instruction, fetch, fetch, hself]
  have h' : (drive read c').1 = true := by
    rw [drive_fst] at h ⊢
    rwa [← hready, ← hinst]
  refine ⟨h', ?_⟩
  rcases drive_cases read c with ⟨-, hd⟩ | ⟨-, -, hd⟩ | ⟨-, -, x, hx, hd⟩
  · rw [hd] at h
    cases h
  · rw [hd] at h
    cases h
  rcases drive_cases read c' with ⟨-, hd'⟩ | ⟨-, -, hd'⟩ | ⟨-, -, x', hx', hd'⟩
  · rw [hd'] at h'
    cases h'
  · rw [hd'] at h'
    cases h'
  rw [← hinst, ← hself] at hx'
  have heffect := execute_sameEffect read c.self.pc (instruction read c) c.self.reg
    ⟨rfl, rfl, rfl⟩ ⟨rfl, rfl, rfl⟩ hx hx'
  rw [hd, hd']
  refine ⟨?_, congrArg (· + 1) hcnt, heffect.request⟩
  change { c.self with reg := Function.update x.reg regZero 0, pc := x.npc } =
    { c'.self with reg := Function.update x'.reg regZero 0, pc := x'.npc }
  rw [hself, heffect.reg, heffect.npc]

/-! Machines that are the same for the first core. -/

section SameRun

variable {n n' : ℕ} {β β' : Type}

/-- The first cores and everything they can observe are the same. -/
structure SameRun (M : Machine n FunctionalState β) (M' : Machine n' FunctionalState β') :
    Prop where
  self : M.prim.self = M'.prim.self
  cntInst : M.prim.cntInst = M'.prim.cntInst
  view : M.mem.view none = M'.mem.view none
  nwords : M.mem.nwords = M'.mem.nwords
  sys : M.sys = M'.sys
  calls : M.calls = M'.calls

namespace SameRun

variable {M : Machine n FunctionalState β} {M' : Machine n' FunctionalState β'}

/-- Public reads return the same bytes. -/
theorem read (h : SameRun M M') : M.mem.read = M'.mem.read :=
  Memory.read_congr h.view h.nwords

/-- A step that only replicas can observe. -/
theorem of_samePrimary {M₁ : Machine n FunctionalState β} (h : SameRun M M')
    (hsame : M.SamePrimary M₁) : SameRun M₁ M' where
  self := (congrArg Core.self hsame.prim).trans h.self
  cntInst := (congrArg Core.cntInst hsame.prim).trans h.cntInst
  view := hsame.view.trans h.view
  nwords := hsame.nwords.trans h.nwords
  sys := hsame.sys.trans h.sys
  calls := hsame.calls.trans h.calls

/-- A cycle of the functional core in which `drive` succeeds. -/
theorem primCycle (h : SameRun M M') (hhalt : M.prim.halt = M'.prim.halt)
    (hdriven : (M.primCycle FunctionalCore.methods).driven = true) :
    (M'.primCycle FunctionalCore.methods).driven = true ∧
      SameRun (M.primCycle FunctionalCore.methods).machine
        (M'.primCycle FunctionalCore.methods).machine := by
  rw [primCycle_functional] at hdriven
  obtain ⟨hdriven', hself, hcnt, hrequest⟩ :=
    FunctionalCore.drive_sameEffect M.mem.read h.self hhalt h.cntInst hdriven
  rw [h.read] at hself hcnt hrequest hdriven'
  rw [primCycle_functional, primCycle_functional, h.read]
  exact ⟨hdriven',
    { self := hself
      cntInst := hcnt
      view := by
        dsimp only
        rw [Machine.view_memUpdate, Machine.view_memUpdate, h.view, h.nwords]
        exact hrequest _ _
      nwords := by
        dsimp only
        rw [Machine.nwords_memUpdate, Machine.nwords_memUpdate]
        exact h.nwords
      sys := h.sys
      calls := h.calls }⟩

/-- Emulation keeps the relation. -/
theorem emulationRel (R : RegisterMethods β) (R' : RegisterMethods β') :
    Machine.EmulationRel FunctionalCore.registers R FunctionalCore.registers R'
      (@SameRun n n' β β') where
  readReg := fun h r => congrFun (congrArg FunctionalState.reg h.self) r
  cntInst := fun h => h.cntInst
  read := fun h => h.read
  sys := fun h => h.sys
  calls := fun h => h.calls
  writeReg := fun h data =>
    { h with
      self := congrArg (fun self : FunctionalState =>
        { self with reg := Function.update self.reg regA0 data }) h.self }
  memWrite := fun {M M'} h addr data =>
    { h with
      view := by
        change (M.mem.write addr data).view none = (M'.mem.write addr data).view none
        rw [Memory.view_write _ _ _ _ rfl, Memory.view_write _ _ _ _ rfl, h.view, h.nwords]
      nwords := by
        change (M.mem.write addr data).nwords = (M'.mem.write addr data).nwords
        rw [Memory.nwords_write, Memory.nwords_write, h.nwords] }
  setSys := fun h _ => { h with sys := rfl }
  call := fun h c => { h with calls := congrArg (· ++ [c]) h.calls }

end SameRun

end SameRun

/-! The machines at the start of both loops. -/

section Boot

variable {n n' : ℕ}

/-- A new memory is seen as zeros. -/
theorem Memory.view_new (ifPrim : CoreMemoryIF) (ifReps : Fin n → CoreMemoryIF) (nw : Word) :
    (Memory.new ifPrim ifReps nw).view none = fun _ => 0 := by
  funext k
  simp [Memory.new, Memory.view, Overlay.view, Memory.overlay, Memory.wbOf, Agent.id]

/-- Loading the same image makes the same words visible to the first core. -/
theorem Memory.view_loadSections {m : Memory n} {m' : Memory n'}
    (hview : m.view none = m'.view none) (hnwords : m.nwords = m'.nwords)
    (sections : List Section) :
    (m.loadSections sections).view none = (m'.loadSections sections).view none ∧
      (m.loadSections sections).nwords = (m'.loadSections sections).nwords := by
  have hwrite : ∀ (c : Memory n) (c' : Memory n') (addr : Word) (data : List Byte),
      c.view none = c'.view none ∧ c.nwords = c'.nwords →
      (c.write addr data).view none = (c'.write addr data).view none ∧
        (c.write addr data).nwords = (c'.write addr data).nwords := by
    rintro c c' addr data ⟨hview, hnwords⟩
    rw [view_write _ _ _ _ rfl, view_write _ _ _ _ rfl, nwords_write, nwords_write, hview, hnwords]
    exact ⟨rfl, rfl⟩
  refine List.foldl_rel (r := fun (c : Memory n) (c' : Memory n') =>
    c.view none = c'.view none ∧ c.nwords = c'.nwords) ⟨hview, hnwords⟩ ?_
  rintro s - c c' hc
  exact List.foldl_rel (r := fun (c : Memory n) (c' : Memory n') =>
    c.view none = c'.view none ∧ c.nwords = c'.nwords) hc fun _ _ _ _ h => hwrite _ _ _ _ h

/-- Booting with the same image starts both machines with the same first core. -/
theorem sameRun_boot {β β' : Type} (instif instif' : CoreInstructionIF)
    (memif memif' : CoreMemoryIF) (reps : Fin n → Core β) (reps' : Fin n' → Core β')
    (ifPrim ifPrim' : CoreMemoryIF) (ifReps : Fin n → CoreMemoryIF)
    (ifReps' : Fin n' → CoreMemoryIF) (sections : List Section) (brkAddr : Word) :
    SameRun (boot instif memif reps ifPrim ifReps sections brkAddr)
      (boot instif' memif' reps' ifPrim' ifReps' sections brkAddr) := by
  have hnew : (Memory.new ifPrim ifReps memWords).view none =
      (Memory.new ifPrim' ifReps' memWords).view none := by
    rw [Memory.view_new, Memory.view_new]
  have hloaded := Memory.view_loadSections hnew rfl sections
  exact ⟨rfl, rfl, hloaded.1, hloaded.2, rfl, rfl⟩

end Boot

end VeriCross
