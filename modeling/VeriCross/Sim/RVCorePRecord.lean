import VeriCross.RVCorePMain
import VeriCross.Sim.Replica

/-!
# The records of RVCoreP

The record of a retired instruction shows the access that the memory carries out in the same cycle,
although the core has left the stage that made the request. The program counter has eighteen bits.
-/

namespace VeriCross

open WordMap

namespace RVCorePMain

variable {σ : Type} {K : RVCoreModule σ}

/-- The top module in the low half of the next cycle, with the answers to the last request. -/
def low (c : Core (WrapperState (RVCorePMain σ))) : RVCorePMain σ :=
  { c.self.top with
    inputs :=
      { clk := false, rstX := true, memIRdata := c.memif.iRdata, memDRdata := c.memif.dRdata } }

/-- The low half of a cycle shows the request of the core. -/
theorem drive_eq {c : Core (WrapperState (RVCorePMain σ))} (hc : CoreWrapper.Runs c) :
    CoreWrapper.drive (top K) c = (true,
      { c with
        self := { inputs := (low c).inputs, top := low c }
        memif := c.memif.ofPorts (outputs K (low c)) }) := by
  have hinputs : TopInputs.mk false c.self.inputs.rstX c.memif.iRdata c.memif.dRdata =
      (low c).inputs := by
    rw [hc.rstX]
    rfl
  rw [CoreWrapper.drive, hc.halt, if_neg Bool.false_ne_true]
  dsimp only
  rw [hinputs]
  have heval : (top K).eval (low c).inputs c.self.top = low c := rfl
  rw [heval]
  rfl

/-- The request, the record and the words of a cycle. -/
structure Reported (nw : Word) (p : Port) (o : RVCoreOutputs)
    (c : Core (WrapperState (RVCorePMain σ))) (p' : Port) : Prop where
  pc : c.instif.pc.toNat < 2 ^ 18
  dBaddr : c.instif.dBaddr.toNat < 4
  dAddr : c.instif.dAddr = wordAddr o.dAddr
  dWmask : c.instif.dWmask = o.dWe.setWidth 32
  fetched : c.memif.iRdata = p.view (index nw o.iAddr)
  loaded : o.dRe = true → c.memif.dRdata = p.view (index nw c.instif.dAddr)
  view : p'.view = if o.dRe = false ∧ c.instif.dWmask ≠ 0 then
    masked nw p.view (c.instif.dAddr, o.dOut, c.instif.dWmask) else p.view

/-- A cycle of the core at its port reports the access that is carried out. -/
theorem cycle_reported (nw : Word) (p : Port) {c : Core (WrapperState (RVCorePMain σ))}
    (hc : CoreWrapper.Runs c) :
    let r := (RVCorePCore.methods (top K)).cycle nw c p
    CoreWrapper.Runs r.core ∧ Reported nw p ((low c).wires K) r.core r.port := by
  intro r
  let o := (low c).wires K
  let d : Core (WrapperState (RVCorePMain σ)) :=
    { c with
      self := { inputs := (low c).inputs, top := low c }
      memif := c.memif.ofPorts (outputs K (low c)) }
  let u := (RVCorePCore.methods (top K)).update d
  have hdrive : (RVCorePCore.methods (top K)).drive c = (true, d) := drive_eq hc
  let a := p.cycle nw d.memif u.2.memif
  have hr : r = ⟨true, u.1, { u.2 with memif := a.2 }, a.1⟩ := by
    simp only [r, CoreMethods.cycle, hdrive]
    rfl
  have hu : u.2.halt = false ∧ u.2.self.inputs.rstX = true ∧
      u.2.instif.pc.toNat < 2 ^ 18 ∧ u.2.instif.dBaddr.toNat < 4 ∧
      u.2.instif.dAddr = wordAddr o.dAddr ∧ u.2.instif.dWmask = o.dWe.setWidth 32 := by
    simp only [u, RVCorePCore.methods, CoreWrapper.methods, CoreWrapper.update, d, hc.halt,
      Bool.false_eq_true, if_false]
    refine ⟨trivial, rfl, ?_, ?_, rfl, rfl⟩
    · exact (BitVec.toNat_setWidth_of_le (by decide)).trans_lt (BitVec.isLt _)
    · exact (BitVec.toNat_setWidth_of_le (by decide)).trans_lt (BitVec.isLt _)
  rw [hr]
  obtain ⟨hhalt, hrst, hpc, hbaddr, hdAddr, hdWmask⟩ := hu
  have hen : d.memif.en ≠ 0 := by
    change (1 : Word) ≠ 0
    decide
  have hre : d.memif.dRe ≠ 0 ↔ o.dRe = true := wire_ne_zero _
  have hre' : d.memif.dRe = 0 ↔ o.dRe = false := wire_eq_zero _
  have hwe : d.memif.dWe ≠ 0 ↔ o.dWe ≠ 0 := (wire_ne_zero _).trans decide_eq_true_iff
  have hmask : o.dWe ≠ 0 ↔ o.dWe.setWidth 32 ≠ 0 := by
    rw [not_iff_not]
    bv_omega
  refine ⟨⟨hhalt, hrst⟩, hpc, hbaddr, hdAddr, hdWmask, ?_, ?_, ?_⟩
  · change (if d.memif.en = 0 then u.2.memif else _ : CoreMemoryIF).iRdata = _
    rw [if_neg hen]
    rfl
  · intro hread
    change (if d.memif.en = 0 then u.2.memif else _ : CoreMemoryIF).dRdata =
      p.view (index nw u.2.instif.dAddr)
    rw [if_neg hen, hdAddr]
    change (if d.memif.en ≠ 0 ∧ d.memif.dRe ≠ 0 then _ else _) = _
    rw [if_pos ⟨hen, hre.mpr hread⟩]
    rfl
  · change WordMap.request nw d.memif p.view =
      if o.dRe = false ∧ u.2.instif.dWmask ≠ 0 then masked nw p.view (u.2.instif.dAddr, _,
        u.2.instif.dWmask) else _
    rw [WordMap.request, hdAddr, hdWmask]
    by_cases hwrites : o.dRe = false ∧ o.dWe.setWidth 32 ≠ 0
    · rw [if_pos hwrites, if_pos ⟨hen, hre'.mpr hwrites.1, hwe.mpr (hmask.mpr hwrites.2)⟩]
      rfl
    · rw [if_neg hwrites, if_neg fun h => hwrites ⟨hre'.mp h.2.1, hmask.mp (hwe.mp h.2.2)⟩]

/-- The byte address of a load lies in the word at the reported address. -/
theorem index_loadAddr (nw : Word) {iif : CoreInstructionIF} (hbaddr : iif.dBaddr.toNat < 4) :
    index nw iif.loadAddr = index nw iif.dAddr := by
  have hhigh : ∀ {w : ℕ} {x : BitVec w}, x.toNat < 4 → ∀ i, x.getLsbD (2 + i) = false := by
    intro w x hx i
    have hpow : 2 ^ 2 ≤ 2 ^ (2 + i) := Nat.pow_le_pow_right (by decide) (Nat.le_add_right 2 i)
    exact Nat.testBit_lt_two_pow (hx.trans_le hpow)
  have hthree : (3 : Word).toNat < 4 := by decide
  have hshift : iif.loadAddr >>> 2 = iif.dAddr >>> 2 := by
    apply BitVec.eq_of_getLsbD_eq
    intro i hi
    rw [CoreInstructionIF.loadAddr]
    simp only [BitVec.getLsbD_ushiftRight, BitVec.getLsbD_or, BitVec.getLsbD_and,
      BitVec.getLsbD_not, BitVec.getLsbD_setWidth, hhigh hbaddr, hhigh hthree]
    by_cases hlast : 2 + i < 32
    · simp [hlast]
    · simp [BitVec.getLsbD_of_ge iif.dAddr (2 + i) (by omega)]
  rw [index, index, hshift]

end RVCorePMain

/-- What RVCoreP reports is what the memory does for it in the same cycle. In an iteration of any
run, whatever the core does, the record that is compared is that of one of the cycles that the core
is given. When the pair is accepted, the program counter has eighteen bits, the data word that a
load is answered with in this cycle is the one at the address of the functional core, and a store
goes to the address of the functional core under the mask of the record. -/
theorem rvcorep_reports {σ : Type} (K : RVCoreModule σ) (args : SimArgs) (host : Host)
    (M : Machine 1 FunctionalState (WrapperState (RVCorePMain σ))) :
    let V := RVCorePCore.methods (RVCorePMain.top K)
    let L := concurrentLoop args host V
    ∀ n s, L.Reaches (concurrentStart V M) n s → L.guard s = true →
      let start := (functionalStep args s.machine).machine
      let N := start.replicaCycles V 0
      let round := nextRound args V s
      ∃ k < vcoreTimeout,
        let o := (RVCorePMain.low ((N k).reps 0)).wires K
        let words := (N k).mem.view (some 0)
        round.vif = ((N (k + 1)).reps 0).instif ∧
        (round.accepted = true →
          let info := RiscVInstruction.decode round.fif.pc round.fif.ir
          round.fif.pc.toNat < 2 ^ 18 ∧
          (info.isLoad = true → o.dRe = true →
            ((N (k + 1)).reps 0).memif.dRdata =
              words (index start.mem.nwords round.fif.loadAddr)) ∧
          (info.isStore = true → o.dRe = false → round.vif.dWmask ≠ 0 →
            (N (k + 1)).mem.view (some 0) =
              masked start.mem.nwords words (round.fif.dAddr, o.dOut, round.vif.dWmask))) := by
  intro V L n s hreach hguard start N round
  have hruns : CoreWrapper.Runs (start.reps 0) := CoreWrapper.runs_of_reaches _ _ hreach hguard
  obtain ⟨k, hk, hvif⟩ := exists_replicaCycles args V s
  have hvif : round.vif = ((N (k + 1)).reps 0).instif := hvif
  refine ⟨k, hk, hvif, ?_⟩
  intro haccepted info
  have hreport := (Machine.replicaCycles_spec
    (R := fun nw p c c' p' =>
      RVCorePMain.Reported nw p ((RVCorePMain.low c).wires K) c' p')
    (fun nw p _ hc => RVCorePMain.cycle_reported nw p hc) hruns k).2.2
  obtain ⟨hpc, -, hfields⟩ := (accepts_iff round.fif round.vif).mp haccepted
  rw [hvif] at hpc hfields ⊢
  refine ⟨?_, ?_, ?_⟩
  · rw [hpc]
    exact hreport.pc
  · intro hload hread
    rw [if_pos hload] at hfields
    rw [hfields, RVCorePMain.index_loadAddr _ hreport.dBaddr]
    exact hreport.loaded hread
  · intro hstore hread hmask
    have hload : info.isLoad = false := isLoad_of_isStore _ _ hstore
    rw [if_neg (ne_true_of_eq_false hload), if_pos hstore] at hfields
    rw [hfields.1]
    exact hreport.view.trans (if_pos ⟨hread, hmask⟩)

/-- A core that loads the word at address zero in every cycle and reports it as the first
instruction of the program. -/
def repeatedLoad : RVCoreModule Unit where
  settle := fun _ _ => ⟨0, 0, 0, 0, true, true, 0x10000, 0x00002083, 1, 0, 0, 0⟩
  clocked := fun _ _ => ()
  readReg := fun _ _ => 0
  writeReg := fun _ _ _ => ()

/-- A machine with an image at the initial program counter and that core. -/
def repeatedLoadMachine (image : List Word) :
    Machine 1 FunctionalState (WrapperState (RVCorePMain Unit)) :=
  let instif : CoreInstructionIF := ⟨0, 0, 0, 0, 0, 0, 0, 0, 0⟩
  let memif : CoreMemoryIF := ⟨0, 0, 0, 0, 0, 0, 0, 0, 0⟩
  boot instif memif
    (fun _ => CoreWrapper.new instif memif ⟨(), 0, 0, ⟨false, false, 0, 0⟩⟩) memif (fun _ => memif)
    [{ addr := initialPc, length := BitVec.ofNat 32 (4 * image.length), data := image }] 0

/-- The load is answered with the word at its address in the cycle that is compared. -/
theorem load_reported :
    let V := RVCorePCore.methods (RVCorePMain.top repeatedLoad)
    let s := concurrentStart V (repeatedLoadMachine [0x00002083])
    let start := (functionalStep ⟨1, 0, false⟩ s.machine).machine
    ∃ k < vcoreTimeout, ((start.replicaCycles V 0 (k + 1)).reps 0).memif.dRdata =
      (start.replicaCycles V 0 k).mem.view (some 0) (index start.mem.nwords 0) := by
  have hgoing : (concurrentLoop ⟨1, 0, false⟩ (fun _ => default) (RVCorePCore.methods
      (RVCorePMain.top repeatedLoad))).guard (concurrentStart (RVCorePCore.methods
        (RVCorePMain.top repeatedLoad)) (repeatedLoadMachine [0x00002083])) = true := by
    decide +kernel
  have haccepted : (nextRound ⟨1, 0, false⟩ (RVCorePCore.methods (RVCorePMain.top repeatedLoad))
      (concurrentStart (RVCorePCore.methods (RVCorePMain.top repeatedLoad))
        (repeatedLoadMachine [0x00002083]))).accepted = true := by
    decide +kernel
  obtain ⟨k, hk, -, hround⟩ := rvcorep_reports repeatedLoad ⟨1, 0, false⟩ (fun _ => default)
    (repeatedLoadMachine [0x00002083]) 0 _ .start hgoing
  refine ⟨k, hk, ?_⟩
  obtain ⟨-, hanswer, -⟩ := hround haccepted
  refine (hanswer ?_ rfl).trans ?_
  · decide +kernel
  · apply congrArg
    decide +kernel

end VeriCross
