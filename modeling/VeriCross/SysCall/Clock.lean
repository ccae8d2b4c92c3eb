import VeriCross.Memory.Words
import VeriCross.SysCall.Primitives

/-!
# The deterministic clock

Every million instructions are a second of the program's clock. The part of the second is given to
`stat` and `fstat` in nanoseconds, as `struct timespec` has it, and to `gettimeofday` as the same
number, where `struct timeval` has microseconds.
-/

namespace VeriCross

open RiscV SysCall

variable {n : ℕ}

/-! Times in memory. -/

/-- The seconds of the time that starts at a word of a structure. -/
def Memory.timeSec (m : Memory n) (addr : Word) (i : ℕ) : ℕ :=
  (m.wordAt addr (i + 1) ++ m.wordAt addr i).toNat

/-- The part of the second of the time that starts at a word of a structure. -/
def Memory.timeSub (m : Memory n) (addr : Word) (i : ℕ) : ℕ := (m.wordAt addr (i + 2)).toNat

/-- A `struct timeval`, in microseconds. -/
def Memory.timeval (m : Memory n) (addr : Word) : ℕ :=
  m.timeSec addr 0 * 1000000 + m.timeSub addr 0

/-- The `struct timespec` that starts at a word of a structure, in nanoseconds. -/
def Memory.timespec (m : Memory n) (addr : Word) (i : ℕ) : ℕ :=
  m.timeSec addr i * 1000000000 + m.timeSub addr i

/-- The seconds of the clock do not wrap around at an instruction count. -/
def ClockFits (cntInst : Counter) : Prop := 1640995200 + cntInst.toNat / 1000000 < 2 ^ 32

/-- The seconds of the virtual clock, as long as they fit. -/
theorem toNat_vtime {c : Counter} (h : ClockFits c) :
    (vtime c).toNat = 1640995200 + c.toNat / 1000000 := by
  have hsecond : (1000000 : Counter).toNat = 1000000 := rfl
  have hstart : (1640995200 : Counter).toNat = 1640995200 := rfl
  rw [ClockFits] at h
  rw [vtime, BitVec.toNat_setWidth, BitVec.toNat_add, BitVec.toNat_udiv, hsecond, hstart]
  omega

/-- The nanoseconds of the virtual clock. -/
theorem toNat_vtimeNsec (c : Counter) :
    (vtimeNsec c).toNat = c.toNat % 1000000 * 1000 := by
  have hsecond : (1000000 : Counter).toNat = 1000000 := rfl
  have hscale : (1000 : Counter).toNat = 1000 := rfl
  rw [vtimeNsec, BitVec.toNat_setWidth, BitVec.toNat_mul, BitVec.toNat_umod, hsecond, hscale]
  omega

/-- Two words with an empty upper one. -/
theorem toNat_zero_append (w : Word) : ((0 : Word) ++ w).toNat = w.toNat := by
  rw [BitVec.toNat_append]
  exact Nat.zero_or _

/-- The two words of a word in a 64-bit member. -/
theorem extractLsb'_setWidth (w : Word) :
    (w.setWidth 64).extractLsb' 0 32 = w ∧ (w.setWidth 64).extractLsb' 32 32 = (0 : Word) := by
  constructor
  · apply BitVec.eq_of_getLsbD_eq
    intro i hi
    simp [hi, Nat.lt_trans hi]
  · apply BitVec.eq_of_getLsbD_eq
    intro i hi
    simp [BitVec.getLsbD_extractLsb', BitVec.getLsbD_setWidth]

/-- The program receives thirty words of `struct stat`. -/
theorem length_postprocessStat (st : Stat) (sec nsec : Word) :
    (postprocessStat st sec nsec).length = 30 := by
  simp [postprocessStat, Stat.words, counterWords]

/-- The three time stamps of `struct stat`. -/
theorem postprocessStat_times (st : Stat) (sec nsec : Word) {i : ℕ} (hi : i ∈ [18, 22, 26]) :
    (postprocessStat st sec nsec)[i]? = some sec ∧
      (postprocessStat st sec nsec)[i + 1]? = some 0 ∧
      (postprocessStat st sec nsec)[i + 2]? = some nsec := by
  obtain ⟨hsec, hzero⟩ := extractLsb'_setWidth sec
  obtain ⟨hnsec, -⟩ := extractLsb'_setWidth nsec
  simp only [List.mem_cons, List.not_mem_nil, or_false] at hi
  rcases hi with rfl | rfl | rfl <;>
    simp [postprocessStat, fixStat, Stat.words, counterWords, hsec, hzero, hnsec]

namespace Machine

variable {α β : Type} {P : RegisterMethods α} {M M' : Machine n α β}

section Time

variable (host : Host) (R : RegisterMethods β)

/-- The memory after `gettimeofday`. -/
theorem mem_gettimeofday (hnumber : M.readReg P regA7 = scGettimeofday) :
    (M.emulate host P R).mem = M.mem.write (M.readReg P regA0)
      ([vtime M.prim.cntInst, 0, vtimeNsec M.prim.cntInst, 0].flatMap wordBytes) := by
  rw [emulate_eq_gettimeofday host M hnumber]
  rfl

/-- The time that `gettimeofday` writes. -/
theorem time_gettimeofday (hnw : M.mem.nwords = memWords)
    (hnumber : M.readReg P regA7 = scGettimeofday) (hfits : ClockFits M.prim.cntInst) :
    (M.emulate host P R).mem.timeSec (M.readReg P regA0) 0 =
        1640995200 + M.prim.cntInst.toNat / 1000000 ∧
      (M.emulate host P R).mem.timeSub (M.readReg P regA0) 0 =
        M.prim.cntInst.toNat % 1000000 * 1000 := by
  have hpow : M.mem.nwords.toNat = 2 ^ 19 := by rw [hnw]; rfl
  have hword : ∀ {i w}, [vtime M.prim.cntInst, 0, vtimeNsec M.prim.cntInst, 0][i]? = some w →
      (M.emulate host P R).mem.wordAt (M.readReg P regA0) i = w := by
    intro i w hw
    rw [mem_gettimeofday host R hnumber]
    exact Memory.wordAt_write (by decide) hpow _ (by simp) hw
  rw [Memory.timeSec, Memory.timeSub, hword (i := 0) rfl, hword (i := 1) rfl, hword (i := 2) rfl]
  exact ⟨(toNat_zero_append _).trans (toNat_vtime hfits), toNat_vtimeNsec _⟩

end Time

section Stat

variable {host : Host} {R : RegisterMethods β}

/-- The host call of a `stat` or an `fstat` succeeds. -/
def StatSucceeds (host : Host) (P : RegisterMethods α) (R : RegisterMethods β)
    (M : Machine n α β) : Prop :=
  (M.readReg P regA7 = scStat ∨ M.readReg P regA7 = scFstat) ∧
    (M.emulate host P R).calls ≠ M.calls ∧ ((M.emulate host P R).reply host).int = 0

/-- The memory after a host call of `stat` or `fstat` that succeeded. -/
theorem mem_finishStat (hP : P.Lawful) (hret : ((M.finishStat host P R).reply host).int = 0) :
    (M.finishStat host P R).mem = M.mem.write (M.readReg P regA1)
      ((postprocessStat (M.reply host).st (vtime M.prim.cntInst)
        (vtimeNsec M.prim.cntInst)).flatMap wordBytes) := by
  have hcalls : (M.finishStat host P R).calls = M.calls := by
    unfold finishStat
    dsimp only
    split <;> rfl
  have hret : (M.reply host).int = 0 := by rwa [reply, hcalls] at hret
  have ha1 : (M.writeReg P R regA0 0).readReg P regA1 = M.readReg P regA1 :=
    (hP.read_write ..).trans (if_neg (by decide))
  unfold finishStat
  dsimp only
  rw [if_pos hret, ha1]
  rfl

/-- The memory after a `stat` or an `fstat` that succeeded. -/
theorem StatSucceeds.mem_eq (hP : P.Lawful) (h : M.StatSucceeds host P R) :
    ∃ st, (M.emulate host P R).mem = M.mem.write (M.readReg P regA1)
      ((postprocessStat st (vtime M.prim.cntInst) (vtimeNsec M.prim.cntInst)).flatMap
        wordBytes) := by
  obtain ⟨hnumber, hcalls, hret⟩ := h
  rcases hnumber with hstat | hfstat
  · rw [emulate_eq_stat host M hstat] at hcalls hret ⊢
    unfold emulateStat at hcalls hret ⊢
    cases hpath : readPath M.mem.read (M.readReg P regA0) simPathMax with
    | none =>
      rw [hpath] at hcalls
      exact absurd rfl hcalls
    | some path =>
      rw [hpath] at hret
      exact ⟨_, mem_finishStat hP hret⟩
  · rw [emulate_eq_fstat host M hfstat] at hret ⊢
    exact ⟨_, mem_finishStat hP hret⟩

/-- A time stamp that `stat` and `fstat` write: the clock, in seconds and nanoseconds. -/
theorem StatSucceeds.timespec_eq (hP : P.Lawful) (hnw : M.mem.nwords = memWords)
    (h : M.StatSucceeds host P R) (hfits : ClockFits M.prim.cntInst) {i : ℕ}
    (hi : i ∈ [18, 22, 26]) :
    (M.emulate host P R).mem.timespec (M.readReg P regA1) i =
      (1640995200 + M.prim.cntInst.toNat / 1000000) * 1000000000 +
        M.prim.cntInst.toNat % 1000000 * 1000 := by
  have hpow : M.mem.nwords.toNat = 2 ^ 19 := by rw [hnw]; rfl
  obtain ⟨st, hmem⟩ := h.mem_eq hP
  obtain ⟨hsec, hzero, hsub⟩ :=
    postprocessStat_times st (vtime M.prim.cntInst) (vtimeNsec M.prim.cntInst) hi
  have hword : ∀ {j w}, (postprocessStat st (vtime M.prim.cntInst)
      (vtimeNsec M.prim.cntInst))[j]? = some w →
        (M.emulate host P R).mem.wordAt (M.readReg P regA1) j = w := by
    intro j w hw
    rw [hmem]
    exact Memory.wordAt_write (by decide) hpow _
      ((length_postprocessStat ..).trans_le (by decide)) hw
  rw [Memory.timespec, Memory.timeSec, Memory.timeSub, hword hsec, hword hzero, hword hsub,
    toNat_zero_append, toNat_vtime hfits, toNat_vtimeNsec]

end Stat

/-- At every instruction count some host answers a call of `fstat`. -/
theorem exists_statSucceeds (hP : P.Lawful) (R : RegisterMethods β) (M : Machine n α β) :
    ∃ (host' : Host) (N : Machine n α β), N.mem = M.mem ∧ N.prim.cntInst = M.prim.cntInst ∧
      N.StatSucceeds host' P R := by
  have hfstat : (M.writeReg P R regA7 scFstat).readReg P regA7 = scFstat :=
    (hP.read_write ..).trans (if_pos rfl)
  refine ⟨fun _ => default, M.writeReg P R regA7 scFstat, rfl, hP.cntInst_write .., .inr hfstat,
    ?_, rfl⟩
  rw [emulate_eq_fstat _ _ hfstat]
  intro hsame
  have hcalls : ∀ N : Machine n α β,
      (N.emulateFstat (fun _ => default) P R).calls.length = N.calls.length + 1 := by
    intro N
    unfold emulateFstat finishStat
    dsimp only
    split <;> exact List.length_append
  have hlength := hcalls (M.writeReg P R regA7 scFstat)
  rw [hsame] at hlength
  omega

/-- What a call of `gettimeofday` leaves: the memory and the address of the time in it, at an
instruction count. -/
structure TimeCall (n : ℕ) where
  cntInst : Counter
  mem : Memory n
  addr : Word

/-- The call of `gettimeofday` that a machine is about to make. -/
def timeCall (host : Host) (P : RegisterMethods α) (R : RegisterMethods β) (M : Machine n α β) :
    TimeCall n :=
  ⟨M.prim.cntInst, (M.emulate host P R).mem, M.readReg P regA0⟩

/-- Two calls give proper times, the first not after the second. -/
structure ClockRuns (t t' : TimeCall n) : Prop where
  first : t.mem.timeSub t.addr 0 < 1000000
  second : t'.mem.timeSub t'.addr 0 < 1000000
  ordered : t.mem.timeval t.addr ≤ t'.mem.timeval t'.addr

/-- The time stamps that `stat` and `fstat` report at the instruction count of a call denote the
time that it gives. -/
def StampsAgree (P : RegisterMethods α) (R : RegisterMethods β) (t : TimeCall n) : Prop :=
  ∀ (host : Host) (N : Machine n α β), N.mem.nwords = memWords → N.prim.cntInst = t.cntInst →
    N.StatSucceeds host P R → ∀ i ∈ [18, 22, 26],
      (N.emulate host P R).mem.timespec (N.readReg P regA1) i = 1000 * t.mem.timeval t.addr

/-- The clock that two calls and the time stamps at their instruction counts show to the program
behaves. -/
structure ClockBehaves (P P' : RegisterMethods α) (R R' : RegisterMethods β) (t t' : TimeCall n) :
    Prop where
  runs : ClockRuns t t'
  stamps : StampsAgree P R t
  stamps' : StampsAgree P' R' t'

section Calls

variable (host : Host) (R R' : RegisterMethods β) (hnw : M.mem.nwords = memWords)
  (hnumber : M.readReg P regA7 = scGettimeofday)

include hnw hnumber

/-- The clock runs between two calls exactly when both come in the first thousandth of a million
instructions. -/
theorem clockRuns_iff {P' : RegisterMethods α} (hnw' : M'.mem.nwords = memWords)
    (hnumber' : M'.readReg P' regA7 = scGettimeofday)
    (hle : M.prim.cntInst ≤ M'.prim.cntInst) (hfits : ClockFits M'.prim.cntInst) :
    ClockRuns (M.timeCall host P R) (M'.timeCall host P' R') ↔
      M.prim.cntInst.toNat % 1000000 < 1000 ∧ M'.prim.cntInst.toNat % 1000000 < 1000 := by
  have hle : M.prim.cntInst.toNat ≤ M'.prim.cntInst.toNat := hle
  have hfits₀ : ClockFits M.prim.cntInst := by
    rw [ClockFits] at hfits ⊢
    omega
  obtain ⟨hsec, hsub⟩ := time_gettimeofday host R hnw hnumber hfits₀
  obtain ⟨hsec', hsub'⟩ := time_gettimeofday host R' hnw' hnumber' hfits
  constructor
  · rintro ⟨hfirst, hsecond, -⟩
    rw [timeCall, hsub] at hfirst
    rw [timeCall, hsub'] at hsecond
    omega
  · rintro ⟨hfirst, hsecond⟩
    refine ⟨?_, ?_, ?_⟩
    · rw [timeCall, hsub]
      omega
    · rw [timeCall, hsub']
      omega
    · -- the seconds decide, and within one second the counts do
      rw [timeCall, timeCall, Memory.timeval, Memory.timeval, hsec, hsub, hsec', hsub']
      omega

/-- The stamps agree with the clock exactly at the start of a million instructions. -/
theorem stampsAgree_iff (hP : P.Lawful) (hfits : ClockFits M.prim.cntInst) :
    StampsAgree P R (M.timeCall host P R) ↔ M.prim.cntInst.toNat % 1000000 = 0 := by
  obtain ⟨hsec, hsub⟩ := time_gettimeofday host R hnw hnumber hfits
  have htime : (M.timeCall host P R).mem.timeval (M.timeCall host P R).addr =
      (1640995200 + M.prim.cntInst.toNat / 1000000) * 1000000 +
        M.prim.cntInst.toNat % 1000000 * 1000 := by
    rw [timeCall, Memory.timeval, hsec, hsub]
  constructor
  · intro h
    obtain ⟨host', N, hmem, hcnt, hsucceeds⟩ := exists_statSucceeds hP R M
    have hnw' : N.mem.nwords = memWords := by rw [hmem, hnw]
    have hstamp := h host' N hnw' hcnt hsucceeds 18 List.mem_cons_self
    rw [hsucceeds.timespec_eq hP hnw' (hcnt ▸ hfits) List.mem_cons_self, hcnt, htime] at hstamp
    omega
  · intro hzero host' N hnw' hcnt hsucceeds i hi
    have hcnt : N.prim.cntInst = M.prim.cntInst := hcnt
    rw [hsucceeds.timespec_eq hP hnw' (hcnt ▸ hfits) hi, hcnt, htime]
    omega

/-- The clock behaves exactly when both calls come at the start of a million instructions. -/
theorem clockBehaves_iff (hP : P.Lawful) {P' : RegisterMethods α} (hP' : P'.Lawful)
    (hnw' : M'.mem.nwords = memWords) (hnumber' : M'.readReg P' regA7 = scGettimeofday)
    (hle : M.prim.cntInst ≤ M'.prim.cntInst) (hfits : ClockFits M'.prim.cntInst) :
    ClockBehaves P P' R R' (M.timeCall host P R) (M'.timeCall host P' R') ↔
      M.prim.cntInst.toNat % 1000000 = 0 ∧ M'.prim.cntInst.toNat % 1000000 = 0 := by
  have hruns := clockRuns_iff host R R' hnw hnumber hnw' hnumber' hle hfits
  have hfits₀ : ClockFits M.prim.cntInst := by
    have hle : M.prim.cntInst.toNat ≤ M'.prim.cntInst.toNat := hle
    rw [ClockFits] at hfits ⊢
    omega
  have hstamps := stampsAgree_iff host R hnw hnumber hP hfits₀
  have hstamps' := stampsAgree_iff host R' hnw' hnumber' hP' hfits
  constructor
  · intro h
    exact ⟨hstamps.mp h.stamps, hstamps'.mp h.stamps'⟩
  · rintro ⟨hzero, hzero'⟩
    exact ⟨hruns.mpr ⟨by omega, by omega⟩, hstamps.mpr hzero, hstamps'.mpr hzero'⟩

end Calls

end Machine

end VeriCross
