import VeriCross.KronosTop
import VeriCross.Sim.Replica

/-!
# The bus of Kronos

Between the core and the memory stand the acknowledgements of `kronos_top`, the interface copies of
the wrapper and those of the memory, and a request is carried out in the cycle after the one that
shows it. What the core sees is a memory that serves one access in a cycle, the accesses to data
before instruction fetches, and acknowledges it in the next cycle together with the answer.
-/

namespace VeriCross

open WordMap

/-- The store that the wires of the core ask for. The memory carries it out whenever it is enabled
and writing is, also for an instruction fetch. -/
def KronosOutputs.store? (o : KronosOutputs) : Option (Word × Word × Word) :=
  if (o.instrReq || o.dataReq) && o.dataWrEn then some (o.dataAddr, o.dataWrData, o.dataMask)
  else none

section Cycle

variable {σ : Type} {K : KronosModule σ}

/-- The top module in the low half of the next cycle, with the answers to the last request. -/
def lowTop (c : Core (WrapperState (KronosTop σ))) : KronosTop σ where
  core := c.self.top.core
  memIAck := c.self.top.memIAck
  memDAck := c.self.top.memDAck
  inputs := { clk := false, rstX := true, memIRdata := c.memif.iRdata, memDRdata := c.memif.dRdata }

variable (K) in
/-- What the wires of the core settle on in the low half of the next cycle. -/
def lowWires (c : Core (WrapperState (KronosTop σ))) : KronosOutputs := (lowTop c).wires K

/-- The low half of a cycle shows the request of the core. -/
theorem kronos_drive (hK : K.Synchronous) {c : Core (WrapperState (KronosTop σ))}
    (hc : CoreWrapper.Runs c) :
    CoreWrapper.drive (KronosTop.top K) c = (true,
      { c with
        self := { inputs := (lowTop c).inputs, top := lowTop c }
        memif := c.memif.ofPorts (KronosTop.outputs K (lowTop c)) }) := by
  obtain ⟨hhalt, hrst⟩ := hc
  have heval : (KronosTop.top K).eval (lowTop c).inputs c.self.top = lowTop c := by
    change KronosTop.eval K (lowTop c).inputs c.self.top = lowTop c
    rw [KronosTop.eval]
    simp only [lowTop, Bool.false_and, Bool.false_eq_true, if_false]
    rw [hK _ _ rfl]
  have hinputs : TopInputs.mk false c.self.inputs.rstX c.memif.iRdata c.memif.dRdata =
      (lowTop c).inputs := by
    rw [hrst]
    rfl
  rw [CoreWrapper.drive, hhalt, if_neg Bool.false_ne_true]
  dsimp only
  rw [hinputs]
  rw [heval]
  rfl

variable (nw : Word) (p : Port)

/-- A cycle serves the request that the wires show: a request to the data memory, or else an
instruction fetch, is acknowledged afterwards, and a read is answered with the word that was there
before the cycle. -/
structure Served (o : KronosOutputs) (c : Core (WrapperState (KronosTop σ))) (p' : Port) :
    Prop where
  memIAck : c.self.top.memIAck = (o.instrReq && !o.dataReq)
  memDAck : c.self.top.memDAck = o.dataReq
  fetched : c.self.top.memIAck = true → c.memif.iRdata = p.view (index nw o.instrAddr)
  loaded : c.self.top.memDAck = true → o.dataWrEn = false →
    c.memif.dRdata = p.view (index nw o.dataAddr)
  view : p'.view = o.store?.elim p.view (masked nw p.view)

/-- The high half of a cycle acknowledges the request. -/
theorem kronos_update {c : Core (WrapperState (KronosTop σ))} (hhalt : c.halt = false) :
    let d : Core (WrapperState (KronosTop σ)) :=
      { c with
        self := { inputs := (lowTop c).inputs, top := lowTop c }
        memif := c.memif.ofPorts (KronosTop.outputs K (lowTop c)) }
    let u := (KronosCore.methods (KronosTop.top K)).update d
    CoreWrapper.Runs u.2 ∧
      u.2.self.top.memIAck = ((lowWires K c).instrReq && !(lowWires K c).dataReq) ∧
      u.2.self.top.memDAck = (lowWires K c).dataReq := by
  intro d u
  let inputs := { (lowTop c).inputs with clk := true }
  let t := KronosTop.eval K inputs (lowTop c)
  let patched (t : KronosTop σ) : KronosTop σ :=
    if (KronosTop.outputs K t).instif.valid ≠ 0 ∧ (KronosTop.outputs K t).instif.ir = 0x00000073
    then (KronosTop.top K).writeMtvec t ((KronosTop.outputs K t).instif.pc + 4) else t
  have hpatched : (patched t).memIAck = t.memIAck ∧ (patched t).memDAck = t.memDAck := by
    simp only [patched]
    split <;> exact ⟨rfl, rfl⟩
  have hu : u.2.halt = c.halt ∧ u.2.self = ⟨inputs, patched t⟩ := by
    simp only [u, KronosCore.methods, CoreWrapper.methods, CoreWrapper.update, d, hhalt,
      Bool.false_eq_true, if_false]
    exact ⟨trivial, rfl⟩
  obtain ⟨hkeep, hself⟩ := hu
  refine ⟨⟨hkeep.trans hhalt, ?_⟩, ?_, ?_⟩
  · rw [hself]
    rfl
  · rw [hself]
    exact hpatched.1
  · rw [hself]
    exact hpatched.2

/-- A cycle of the core at its port serves its request. -/
theorem kronos_cycle (hK : K.Synchronous) {c : Core (WrapperState (KronosTop σ))}
    (hc : CoreWrapper.Runs c) :
    let r := (KronosCore.methods (KronosTop.top K)).cycle nw c p
    CoreWrapper.Runs r.core ∧ Served nw p (lowWires K c) r.core r.port := by
  intro r
  let o := lowWires K c
  let d : Core (WrapperState (KronosTop σ)) :=
    { c with
      self := { inputs := (lowTop c).inputs, top := lowTop c }
      memif := c.memif.ofPorts (KronosTop.outputs K (lowTop c)) }
  let u := (KronosCore.methods (KronosTop.top K)).update d
  have hdrive : (KronosCore.methods (KronosTop.top K)).drive c = (true, d) := kronos_drive hK hc
  obtain ⟨hruns, hiack, hdack⟩ := kronos_update (K := K) hc.halt
  let a := p.cycle nw d.memif u.2.memif
  have hr : r = ⟨true, u.1, { u.2 with memif := a.2 }, a.1⟩ := by
    simp only [r, CoreMethods.cycle, hdrive]
    rfl
  have hen : d.memif.en ≠ 0 ↔ (o.instrReq || o.dataReq) = true := wire_ne_zero _
  have hre : d.memif.dRe ≠ 0 ↔ (o.dataReq && !o.dataWrEn) = true := wire_ne_zero _
  have hre' : d.memif.dRe = 0 ↔ (o.dataReq && !o.dataWrEn) = false := wire_eq_zero _
  have hwe : d.memif.dWe ≠ 0 ↔ o.dataWrEn = true := wire_ne_zero _
  rw [hr]
  refine ⟨⟨hruns.halt, hruns.rstX⟩, hiack, hdack, ?_, ?_, ?_⟩
  · intro hack
    have hreq := hiack.symm.trans hack
    rw [Bool.and_eq_true] at hreq
    have hone : d.memif.en ≠ 0 := hen.mpr (by rw [Bool.or_eq_true]; exact .inl hreq.1)
    change (if d.memif.en = 0 then u.2.memif else _ : CoreMemoryIF).iRdata = _
    rw [if_neg hone]
    rfl
  · intro hack hread
    have hreq := hdack.symm.trans hack
    have hone : d.memif.en ≠ 0 := hen.mpr (by rw [Bool.or_eq_true]; exact .inr hreq)
    have hone' : d.memif.dRe ≠ 0 := hre.mpr (by rw [Bool.and_eq_true, hread]; exact ⟨hreq, rfl⟩)
    change (if d.memif.en = 0 then u.2.memif else _ : CoreMemoryIF).dRdata = _
    rw [if_neg hone]
    change (if d.memif.en ≠ 0 ∧ d.memif.dRe ≠ 0 then _ else _) = _
    rw [if_pos ⟨hone, hone'⟩]
    rfl
  · change WordMap.request nw d.memif p.view = o.store?.elim _ _
    have hstore : (d.memif.en ≠ 0 ∧ d.memif.dRe = 0 ∧ d.memif.dWe ≠ 0) ↔
        ((o.instrReq || o.dataReq) && o.dataWrEn) = true := by
      rw [hen, hre', hwe]
      cases o.instrReq <;> cases o.dataReq <;> cases o.dataWrEn <;> decide
    rw [WordMap.request, KronosOutputs.store?]
    by_cases hwrites : ((o.instrReq || o.dataReq) && o.dataWrEn) = true
    · rw [if_pos (hstore.mpr hwrites), if_pos hwrites]
      rfl
    · rw [if_neg (mt hstore.mp hwrites), if_neg hwrites]
      rfl

end Cycle

/-! Any number of cycles. -/

section Run

variable {n : ℕ} {α σ : Type} {K : KronosModule σ} {M : Machine n α (WrapperState (KronosTop σ))}
  {i : Fin n}

/-- Every cycle serves its request. -/
theorem kronos_serves (hK : K.Synchronous) (hM : CoreWrapper.Runs (M.reps i)) (k : ℕ) :
    let N := M.replicaCycles (KronosCore.methods (KronosTop.top K)) i
    Served M.mem.nwords ((N k).mem.port (some i)) (lowWires K ((N k).reps i)) ((N (k + 1)).reps i)
      ((N (k + 1)).mem.port (some i)) :=
  (Machine.replicaCycles_spec (R := fun nw p c c' p' => Served nw p (lowWires K c) c' p')
    (fun nw p _ hc => kronos_cycle nw p hK hc) hM k).2.2

variable (K M i) in
/-- The words of the replica's memory before a cycle: the stores asked for in the cycles before, in
order, on the words that it started with. -/
def kronosWords : ℕ → WordMap
  | 0 => M.mem.view (some i)
  | k + 1 =>
    let N := M.replicaCycles (KronosCore.methods (KronosTop.top K)) i
    (lowWires K ((N k).reps i)).store?.elim (kronosWords k) (masked M.mem.nwords (kronosWords k))

/-- The stores are carried out in order. -/
theorem view_replicaCycles (hK : K.Synchronous) (hM : CoreWrapper.Runs (M.reps i)) (k : ℕ) :
    (M.replicaCycles (KronosCore.methods (KronosTop.top K)) i k).mem.view (some i) =
      kronosWords K M i k := by
  induction k with
  | zero => rfl
  | succ k ih =>
    have hview := (kronos_serves hK hM k).view
    change _ = (lowWires K _).store?.elim (Memory.view _ _) (masked _ (Memory.view _ _)) at hview
    rw [ih] at hview
    exact hview

end Run

/-- `kronos_top` is a memory with a single port for its core. In every cycle that the verilated core
is given in an iteration of any run, whatever the core does, a request to the data memory is
acknowledged in the next cycle, and an instruction fetch exactly when there is no such request; the
word that comes with the acknowledgement of a read is the one that the stores of the cycles before,
in order, have left at its address. The record that is compared is that of one of these cycles. -/
theorem kronos_single_port {σ : Type} {K : KronosModule σ} (hK : K.Synchronous) (args : SimArgs)
    (host : Host) (M : Machine 1 FunctionalState (WrapperState (KronosTop σ))) :
    let V := KronosCore.methods (KronosTop.top K)
    let L := concurrentLoop args host V
    ∀ n s, L.Reaches (concurrentStart V M) n s → L.guard s = true →
      let start := (functionalStep args s.machine).machine
      let N := start.replicaCycles V 0
      (∀ k,
        let request := lowWires K ((N k).reps 0)
        let answer := (lowTop ((N (k + 1)).reps 0)).coreInputs
        let words := kronosWords K start 0 k
        answer.dataAck = request.dataReq ∧
          answer.instrAck = (request.instrReq && !request.dataReq) ∧
          (answer.instrAck = true →
            answer.instrData = words (index start.mem.nwords request.instrAddr)) ∧
          (answer.dataAck = true → request.dataWrEn = false →
            answer.dataRdData = words (index start.mem.nwords request.dataAddr)) ∧
          (N k).mem.view (some 0) = words) ∧
      ∃ k < vcoreTimeout, (nextRound args V s).vif = ((N (k + 1)).reps 0).instif := by
  intro V L n s hreach hguard start N
  have hruns : CoreWrapper.Runs (start.reps 0) := CoreWrapper.runs_of_reaches _ _ hreach hguard
  constructor
  · intro k request answer words
    have hserved := kronos_serves hK hruns k
    have hview : (N k).mem.view (some 0) = words := view_replicaCycles hK hruns k
    refine ⟨hserved.memDAck, hserved.memIAck, ?_, ?_, hview⟩
    · intro hack
      rw [← hview]
      exact hserved.fetched hack
    · intro hack hread
      rw [← hview]
      exact hserved.loaded hack hread
  · exact exists_replicaCycles args V s

/-- A core that fetches the words of the memory one after the other, without executing them. -/
def fetcher : KronosModule Word where
  settle := fun _ pc => ⟨pc, true, 0, 0, 0, false, false, false, pc, 0, 0, 0, 0⟩
  clocked := fun rising inputs pc => if rising && inputs.instrAck then pc + 4 else pc
  readReg := fun _ _ => 0
  writeReg := fun pc _ _ => pc
  writeMtvec := fun pc _ => pc

/-- The registers of the core that fetches change at the clock edge only. -/
theorem fetcher_synchronous : fetcher.Synchronous := fun _ _ _ => rfl

/-- A machine with an image at the initial program counter and a core that fetches it. -/
def fetcherMachine (image : List Word) :
    Machine 1 FunctionalState (WrapperState (KronosTop Word)) :=
  let instif : CoreInstructionIF := ⟨0, 0, 0, 0, 0, 0, 0, 0, 0⟩
  let memif : CoreMemoryIF := ⟨0, 0, 0, 0, 0, 0, 0, 0, 0⟩
  boot instif memif
    (fun _ => CoreWrapper.new instif memif ⟨initialPc, false, false, ⟨false, false, 0, 0⟩⟩) memif
    (fun _ => memif)
    [{ addr := initialPc, length := BitVec.ofNat 32 (4 * image.length), data := image }] 0

/-- The word at the initial program counter comes with the first acknowledgement. -/
theorem nop_fetched :
    let V := KronosCore.methods (KronosTop.top fetcher)
    let s := concurrentStart V (fetcherMachine [0x00000013])
    let start := (functionalStep ⟨1, 0, false⟩ s.machine).machine
    (lowTop ((start.replicaCycles V 0 1).reps 0)).coreInputs.instrData = 0x00000013 := by
  have hgoing : (concurrentLoop ⟨1, 0, false⟩ (fun _ => default) (KronosCore.methods
      (KronosTop.top fetcher))).guard (concurrentStart (KronosCore.methods
        (KronosTop.top fetcher)) (fetcherMachine [0x00000013])) = true := by
    decide +kernel
  obtain ⟨hcycles, -⟩ := kronos_single_port fetcher_synchronous ⟨1, 0, false⟩ (fun _ => default)
    (fetcherMachine [0x00000013]) 0 _ .start hgoing
  obtain ⟨-, hack, hdata, -⟩ := hcycles 0
  refine (hdata (hack.trans rfl)).trans ?_
  decide +kernel

end VeriCross
