import VeriCross.SysCall.Model

/-!
# System calls as sequences of primitive steps

Every emulated call observes the first core's registers and instruction count, the public read,
the emulation state and the host calls, and changes the machine by five primitive steps. The only
register it writes is `a0`. A relation between machines that fixes the observations and is kept
by the primitive steps is therefore kept by emulation, whatever the numbers and types of the
cores on the two sides.
-/

namespace VeriCross

open RiscV SysCall

namespace Machine

variable {n n' : ℕ} {α β α' β' : Type}

/-- A relation that fixes what emulation observes and is kept by what it does. -/
structure EmulationRel (P : RegisterMethods α) (R : RegisterMethods β) (P' : RegisterMethods α')
    (R' : RegisterMethods β') (S : Machine n α β → Machine n' α' β' → Prop) : Prop where
  readReg : ∀ {M M'}, S M M' → ∀ r, M.readReg P r = M'.readReg P' r
  cntInst : ∀ {M M'}, S M M' → M.prim.cntInst = M'.prim.cntInst
  read : ∀ {M M'}, S M M' → M.mem.read = M'.mem.read
  sys : ∀ {M M'}, S M M' → M.sys = M'.sys
  calls : ∀ {M M'}, S M M' → M.calls = M'.calls
  writeReg : ∀ {M M'}, S M M' → ∀ data,
    S (M.writeReg P R regA0 data) (M'.writeReg P' R' regA0 data)
  memWrite : ∀ {M M'}, S M M' → ∀ addr data, S (M.memWrite addr data) (M'.memWrite addr data)
  setSys : ∀ {M M'}, S M M' → ∀ sys, S (M.setSys sys) (M'.setSys sys)
  call : ∀ {M M'}, S M M' → ∀ c, S (M.call c) (M'.call c)

namespace EmulationRel

variable {P : RegisterMethods α} {R : RegisterMethods β} {P' : RegisterMethods α'}
  {R' : RegisterMethods β'} {S : Machine n α β → Machine n' α' β' → Prop} {M : Machine n α β}
  {M' : Machine n' α' β'} (hS : EmulationRel P R P' R' S) (host : Host)

include hS

/-- Related machines get the same answer. -/
theorem reply (h : S M M') : M.reply host = M'.reply host := by
  rw [Machine.reply, Machine.reply, hS.calls h]

/-- Looking up a descriptor. -/
theorem lookup (h : S M M') :
    (M.lookup P).1 = (M'.lookup P').1 ∧ S (M.lookup P).2 (M'.lookup P').2 := by
  rw [Machine.lookup]
  rw [hS.readReg h, hS.sys h]
  exact ⟨rfl, hS.setSys h _⟩

/-- Emulating `SC_CLOSE` keeps the relation. -/
theorem emulateClose (h : S M M') : S (M.emulateClose host P R) (M'.emulateClose host P' R') := by
  obtain ⟨hfd, hlookup⟩ := hS.lookup h
  unfold Machine.emulateClose
  dsimp only
  rw [hfd]
  split
  · have hcall := hS.call hlookup (.close (M'.lookup P').1)
    rw [hS.reply host hcall]
    exact hS.writeReg hcall _
  · exact hS.writeReg hlookup _

/-- Emulating `SC_LSEEK` keeps the relation. -/
theorem emulateLseek (h : S M M') : S (M.emulateLseek host P R) (M'.emulateLseek host P' R') := by
  obtain ⟨hfd, hlookup⟩ := hS.lookup h
  rw [Machine.emulateLseek]
  dsimp only
  rw [hfd, hS.readReg hlookup, hS.readReg hlookup]
  have hcall := hS.call hlookup (.lseek (M'.lookup P').1
    (((M'.lookup P').2.readReg P' regA1).setWidth 64) ((M'.lookup P').2.readReg P' regA2))
  rw [hS.reply host hcall]
  exact hS.writeReg hcall _

/-- Emulating `SC_READ` keeps the relation. -/
theorem emulateRead (h : S M M') : S (M.emulateRead host P R) (M'.emulateRead host P' R') := by
  obtain ⟨hfd, hlookup⟩ := hS.lookup h
  unfold Machine.emulateRead
  dsimp only
  rw [hfd, hS.readReg hlookup]
  have hcall := hS.call hlookup (.read (M'.lookup P').1 ((M'.lookup P').2.readReg P' regA2))
  rw [hS.reply host hcall]
  split
  · rw [hS.readReg hcall]
    exact hS.writeReg (hS.memWrite hcall _ _) _
  · exact hS.writeReg hcall _

/-- Emulating `SC_WRITE` keeps the relation. -/
theorem emulateWrite (h : S M M') : S (M.emulateWrite host P R) (M'.emulateWrite host P' R') := by
  obtain ⟨hfd, hlookup⟩ := hS.lookup h
  rw [Machine.emulateWrite]
  dsimp only
  rw [hfd, hS.readReg hlookup, hS.readReg hlookup, hS.read hlookup]
  have hcall := hS.call hlookup (.write (M'.lookup P').1
    ((M'.lookup P').2.mem.read ((M'.lookup P').2.readReg P' regA1)
      ((M'.lookup P').2.readReg P' regA2).toInt) ((M'.lookup P').2.readReg P' regA2))
  rw [hS.reply host hcall]
  exact hS.writeReg hcall _

/-- The common part of `SC_FSTAT` and `SC_STAT` keeps the relation. -/
theorem finishStat (h : S M M') : S (M.finishStat host P R) (M'.finishStat host P' R') := by
  unfold Machine.finishStat
  dsimp only
  rw [hS.reply host h, hS.cntInst h]
  split
  · have hwrite := hS.writeReg h 0
    rw [hS.readReg hwrite]
    exact hS.memWrite hwrite _ _
  · exact hS.writeReg h _

/-- Emulating `SC_FSTAT` keeps the relation. -/
theorem emulateFstat (h : S M M') : S (M.emulateFstat host P R) (M'.emulateFstat host P' R') := by
  obtain ⟨hfd, hlookup⟩ := hS.lookup h
  rw [Machine.emulateFstat]
  dsimp only
  rw [hfd]
  exact hS.finishStat host (hS.call hlookup _)

/-- Emulating `SC_GETTIMEOFDAY` keeps the relation. -/
theorem emulateGettimeofday (h : S M M') :
    S (M.emulateGettimeofday P R) (M'.emulateGettimeofday P' R') := by
  unfold Machine.emulateGettimeofday
  dsimp only
  rw [hS.readReg h, hS.cntInst h]
  exact hS.writeReg (hS.memWrite h _ _) _

/-- Emulating `SC_SBRK` keeps the relation. -/
theorem emulateSbrk (h : S M M') : S (M.emulateSbrk P R) (M'.emulateSbrk P' R') := by
  unfold Machine.emulateSbrk
  rw [hS.readReg h, hS.sys h]
  split
  · exact hS.writeReg h _
  · exact hS.setSys h _

/-- Emulating `SC_OPEN` keeps the relation. -/
theorem emulateOpen (h : S M M') : S (M.emulateOpen host P R) (M'.emulateOpen host P' R') := by
  unfold Machine.emulateOpen
  rw [hS.readReg h, hS.readReg h, hS.readReg h, hS.read h]
  split
  · exact hS.writeReg h _
  · next path _ =>
    have hcall := hS.call h (.open path (openFlags (M'.readReg P' regA1)) (M'.readReg P' regA2))
    dsimp only
    rw [hS.reply host hcall, hS.sys hcall]
    split
    · exact hS.writeReg (hS.setSys hcall _) _
    · exact hS.writeReg hcall _

/-- Emulating `SC_STAT` keeps the relation. -/
theorem emulateStat (h : S M M') : S (M.emulateStat host P R) (M'.emulateStat host P' R') := by
  unfold Machine.emulateStat
  rw [hS.readReg h, hS.read h]
  split
  · exact hS.writeReg h _
  · exact hS.finishStat host (hS.call h _)

/-- Emulation keeps the relation, if stopping the cores does where the program exits. -/
theorem emulate (h : S M M') (hhalt : M.readReg P regA7 = scExit → S M.haltCores M'.haltCores) :
    S (M.emulate host P R) (M'.emulate host P' R') := by
  have hite : ∀ (c : Prop) [Decidable c] {A B : Machine n α β} {A' B' : Machine n' α' β'},
      (c → S A A') → S B B' → S (if c then A else B) (if c then A' else B') := by
    intro c _ A B A' B' hA hB
    by_cases hc : c
    · rw [if_pos hc, if_pos hc]
      exact hA hc
    · rwa [if_neg hc, if_neg hc]
  rw [hS.readReg h] at hhalt
  rw [Machine.emulate]
  rw [hS.readReg h]
  refine hite _ (fun _ => hS.emulateClose host h) ?_
  refine hite _ (fun _ => hS.emulateLseek host h) ?_
  refine hite _ (fun _ => hS.emulateRead host h) ?_
  refine hite _ (fun _ => hS.emulateWrite host h) ?_
  refine hite _ (fun _ => hS.emulateFstat host h) ?_
  refine hite _ hhalt ?_
  refine hite _ (fun _ => hS.emulateGettimeofday h) ?_
  refine hite _ (fun _ => hS.emulateSbrk h) ?_
  refine hite _ (fun _ => hS.emulateOpen host h) ?_
  exact hite _ (fun _ => hS.emulateStat host h) h

end EmulationRel

/-- A property kept by the primitive steps is kept by emulation, if stopping the cores keeps it
where the program exits. -/
theorem emulate_invariant {P : RegisterMethods α} {R : RegisterMethods β}
    {I : Machine n α β → Prop} (hwriteReg : ∀ M, I M → ∀ data, I (M.writeReg P R regA0 data))
    (hmemWrite : ∀ M, I M → ∀ addr data, I (M.memWrite addr data))
    (hsetSys : ∀ M, I M → ∀ sys, I (M.setSys sys)) (hcall : ∀ M, I M → ∀ c, I (M.call c))
    (host : Host) {M : Machine n α β} (h : I M)
    (hhalt : M.readReg P regA7 = scExit → I M.haltCores) : I (M.emulate host P R) := by
  have hS : EmulationRel P R P R fun M M' => M = M' ∧ I M :=
    { readReg := fun h _ => h.1 ▸ rfl
      cntInst := fun h => h.1 ▸ rfl
      read := fun h => h.1 ▸ rfl
      sys := fun h => h.1 ▸ rfl
      calls := fun h => h.1 ▸ rfl
      writeReg := fun h data => ⟨h.1 ▸ rfl, hwriteReg _ h.2 data⟩
      memWrite := fun h addr data => ⟨h.1 ▸ rfl, hmemWrite _ h.2 addr data⟩
      setSys := fun h sys => ⟨h.1 ▸ rfl, hsetSys _ h.2 sys⟩
      call := fun h c => ⟨h.1 ▸ rfl, hcall _ h.2 c⟩ }
  exact (hS.emulate host ⟨rfl, h⟩ fun hexit => ⟨rfl, hhalt hexit⟩).2

section Frame

variable {P : RegisterMethods α} {R : RegisterMethods β} (host : Host) (M : Machine n α β)

/-! The number in `a7` selects the call. -/

/-- What is emulated under the number `SC_CLOSE`. -/
theorem emulate_eq_close (hnumber : M.readReg P regA7 = scClose) :
    M.emulate host P R = M.emulateClose host P R := by
  rw [Machine.emulate]
  rw [hnumber, if_pos rfl]

/-- What is emulated under the number `SC_LSEEK`. -/
theorem emulate_eq_lseek (hnumber : M.readReg P regA7 = scLseek) :
    M.emulate host P R = M.emulateLseek host P R := by
  rw [Machine.emulate]
  rw [hnumber, if_neg (by decide), if_pos rfl]

/-- What is emulated under the number `SC_READ`. -/
theorem emulate_eq_read (hnumber : M.readReg P regA7 = scRead) :
    M.emulate host P R = M.emulateRead host P R := by
  rw [Machine.emulate]
  rw [hnumber, if_neg (by decide), if_neg (by decide), if_pos rfl]

/-- What is emulated under the number `SC_WRITE`. -/
theorem emulate_eq_write (hnumber : M.readReg P regA7 = scWrite) :
    M.emulate host P R = M.emulateWrite host P R := by
  rw [Machine.emulate]
  rw [hnumber, if_neg (by decide), if_neg (by decide), if_neg (by decide), if_pos rfl]

/-- What is emulated under the number `SC_FSTAT`. -/
theorem emulate_eq_fstat (hnumber : M.readReg P regA7 = scFstat) :
    M.emulate host P R = M.emulateFstat host P R := by
  rw [Machine.emulate]
  rw [hnumber, if_neg (by decide), if_neg (by decide), if_neg (by decide), if_neg (by decide),
    if_pos rfl]

/-- What is emulated under the number `SC_GETTIMEOFDAY`. -/
theorem emulate_eq_gettimeofday (hnumber : M.readReg P regA7 = scGettimeofday) :
    M.emulate host P R = M.emulateGettimeofday P R := by
  rw [Machine.emulate]
  rw [hnumber, if_neg (by decide), if_neg (by decide), if_neg (by decide), if_neg (by decide),
    if_neg (by decide), if_neg (by decide), if_pos rfl]

/-- What is emulated under the number `SC_OPEN`. -/
theorem emulate_eq_open (hnumber : M.readReg P regA7 = scOpen) :
    M.emulate host P R = M.emulateOpen host P R := by
  rw [Machine.emulate]
  rw [hnumber, if_neg (by decide), if_neg (by decide), if_neg (by decide), if_neg (by decide),
    if_neg (by decide), if_neg (by decide), if_neg (by decide), if_neg (by decide), if_pos rfl]

/-- What is emulated under the number `SC_STAT`. -/
theorem emulate_eq_stat (hnumber : M.readReg P regA7 = scStat) :
    M.emulate host P R = M.emulateStat host P R := by
  rw [Machine.emulate]
  rw [hnumber, if_neg (by decide), if_neg (by decide), if_neg (by decide), if_neg (by decide),
    if_neg (by decide), if_neg (by decide), if_neg (by decide), if_neg (by decide),
    if_neg (by decide), if_pos rfl]

/-- Calling exit only stops the cores. -/
theorem emulate_of_exit (hexit : M.readReg P regA7 = scExit) :
    M.emulate host P R = M.haltCores := by
  rw [Machine.emulate]
  rw [hexit, if_neg (by decide), if_neg (by decide), if_neg (by decide), if_neg (by decide),
    if_neg (by decide), if_pos rfl]

/-- Emulation retires no instruction of the first core, and stops it when the program exits. -/
theorem emulate_prim (hP : P.KeepsCounts) :
    (M.emulate host P R).prim.cntInst = M.prim.cntInst ∧
      (M.emulate host P R).prim.halt = (M.prim.halt || decide (M.readReg P regA7 = scExit)) := by
  by_cases hexit : M.readReg P regA7 = scExit
  · rw [M.emulate_of_exit host hexit]
    simp [hexit, haltCores]
  · simp only [hexit, decide_false, Bool.or_false]
    refine emulate_invariant (I := fun M' =>
      M'.prim.cntInst = M.prim.cntInst ∧ M'.prim.halt = M.prim.halt)
      ?_ (fun _ h _ _ => h) (fun _ h _ => h) (fun _ h _ => h) host ⟨rfl, rfl⟩
      fun hexit' => absurd hexit' hexit
    intro M' h data
    exact ⟨(hP.cntInst_write ..).trans h.1, (hP.halt_write ..).trans h.2⟩

/-- Emulation retires no instruction of a replica, and stops it when the program exits. -/
theorem emulate_rep (hR : R.KeepsCounts) (i : Fin n) :
    ((M.emulate host P R).reps i).cntInst = (M.reps i).cntInst ∧
      ((M.emulate host P R).reps i).halt =
        ((M.reps i).halt || decide (M.readReg P regA7 = scExit)) := by
  by_cases hexit : M.readReg P regA7 = scExit
  · rw [M.emulate_of_exit host hexit]
    simp [hexit, haltCores]
  · simp only [hexit, decide_false, Bool.or_false]
    refine emulate_invariant (I := fun M' =>
      (M'.reps i).cntInst = (M.reps i).cntInst ∧ (M'.reps i).halt = (M.reps i).halt)
      ?_ (fun _ h _ _ => h) (fun _ h _ => h) (fun _ h _ => h) host ⟨rfl, rfl⟩
      fun hexit' => absurd hexit' hexit
    intro M' h data
    exact ⟨(hR.cntInst_write ..).trans h.1, (hR.halt_write ..).trans h.2⟩

end Frame

end Machine

end VeriCross
