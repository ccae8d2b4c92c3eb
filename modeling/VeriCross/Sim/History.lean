import VeriCross.Library.RingBuffer
import VeriCross.Sim.Termination

/-!
# The instructions shown after a mismatch

The main loop keeps the last instructions of the functional core in a ring buffer, with the
instruction count as its cursor. The report of a mismatch reads the buffer from the slot of the
count. This is the slot after the last instruction only if the count has advanced in the rejected
iteration, so the order is right exactly when the functional core knew the word it fetched, or
when the order makes no difference; and the sums that give the slots have to fit into an `int`.
-/

namespace VeriCross

variable {β : Type} {args : SimArgs} {host : Host} {V : CoreMethods β}

/-- The line shows an instruction of the history. -/
def Line.isHistory : Line → Bool
  | .history .. => true
  | _ => false

variable (args V) in
/-- The log of the functional core's instruction in the next iteration. -/
def iterationLog (s : ConcurrentState β) : String :=
  (RiscVLogInfo.new (nextRun args V s).machine.mem.read (nextRound args V s).fif).getLog.1

/-- The last `n` of `r` logs, oldest first, each labelled with its distance from the end. -/
def programOrder (n r : ℕ) (log : ℕ → String) : List Line :=
  (List.range n).filterMap fun i =>
    if n - i ≤ r then some (.history (n - i) (log (r - (n - i)))) else none

/-- The texts in a ring buffer of logs. -/
def bufferTexts (logBuffer : ℕ → Option RiscVLogInfo) (slot : ℕ) : Option String :=
  (logBuffer slot).map fun info => info.getLog.1

/-- History lines made of optional texts, with labels that count down. -/
def labelled (n : ℕ) (text : ℕ → Option String) : List Line :=
  (List.range n).filterMap fun i => (text i).map (.history (n - i))

/-- The lines determine the texts. -/
theorem labelled_inj {n : ℕ} {text text' : ℕ → Option String} :
    labelled n text = labelled n text' ↔ ∀ i < n, text i = text' i := by
  have hmem : ∀ {text : ℕ → Option String} {i : ℕ}, i < n → ∀ a,
      Line.history (n - i) a ∈ labelled n text ↔ text i = some a := by
    intro text i hi a
    rw [labelled, List.mem_filterMap]
    constructor
    · rintro ⟨j, hj, hline⟩
      rw [List.mem_range] at hj
      obtain ⟨b, hb, hline⟩ := Option.map_eq_some_iff.mp hline
      injection hline with hlabel htext
      rw [show i = j by omega, hb, htext]
    · intro h
      exact ⟨i, List.mem_range.mpr hi, by rw [h]; rfl⟩
  constructor
  · intro h i hi
    apply Option.ext
    intro a
    rw [← hmem hi a, h, hmem hi a]
  · intro h
    exact List.filterMap_congr fun i hi => by rw [h i (List.mem_range.mp hi)]

/-- The expected lines. -/
theorem programOrder_eq_labelled (n r : ℕ) (log : ℕ → String) :
    programOrder n r log =
      labelled n fun i => if n ≤ r + i then some (log (r + i - n)) else none := by
  refine List.filterMap_congr fun i hi => ?_
  rw [List.mem_range] at hi
  dsimp only
  by_cases hin : n - i ≤ r
  · rw [if_pos hin, if_pos (by omega), show r + i - n = r - (n - i) by omega]
    rfl
  · rw [if_neg hin, if_neg (by omega)]
    rfl

/-- Mapping fails when it does for an element. -/
theorem mapM_eq_none {α β : Type} {f : α → Option β} {xs : List α} {x : α} (hx : x ∈ xs)
    (h : f x = none) : xs.mapM f = none := by
  induction xs with
  | nil => cases hx
  | cons y xs ih =>
    rw [List.mapM_cons]
    rcases List.mem_cons.mp hx with rfl | hx
    · rw [h]
      rfl
    · rw [ih hx]
      cases f y <;> rfl

/-- The lines of the report in terms of the texts in the buffer. There are none when the last index
overflows. -/
theorem historyLines_eq_labelled (hN : 0 < args.mismatchInsts.toNat)
    (logBuffer : ℕ → Option RiscVLogInfo) (cntInst : Counter) :
    historyLines args logBuffer cntInst =
      if cntInst.toNat % args.mismatchInsts.toNat + args.mismatchInsts.toNat ≤ 0x80000000 then
        some (labelled args.mismatchInsts.toNat fun i =>
          bufferTexts logBuffer ((cntInst.toNat + i) % args.mismatchInsts.toNat))
      else none := by
  split
  · next hfits =>
    rw [historyLines_of_fits hfits, labelled]
    simp only [bufferTexts, Option.map_map]
    rfl
  · next hlarge =>
    have hlast : historyIndex args (cntInst.toNat % args.mismatchInsts.toNat)
        (args.mismatchInsts.toNat - 1) = none := by
      rw [historyIndex, if_neg (by omega)]
    unfold historyLines
    dsimp only
    rw [mapM_eq_none (List.mem_range.mpr (Nat.sub_lt hN Nat.one_pos)) (by rw [hlast]; rfl)]
    rfl

/-- Only the lines of the buffer are history lines. -/
theorem filter_mismatchLines (hN : 0 < args.mismatchInsts.toInt)
    {logBuffer : ℕ → Option RiscVLogInfo} (vld : Validator) {M : Machine 1 FunctionalState β}
    {text : ℕ → Option String}
    (h : historyLines args logBuffer M.prim.cntInst =
      some (labelled args.mismatchInsts.toNat text)) :
    (mismatchLines args logBuffer vld M).filter Line.isHistory =
      labelled args.mismatchInsts.toNat text := by
  have hall : ∀ line ∈ labelled args.mismatchInsts.toNat text, line.isHistory = true := by
    intro line hline
    rw [labelled, List.mem_filterMap] at hline
    obtain ⟨i, -, hline⟩ := hline
    obtain ⟨text, -, rfl⟩ := Option.map_eq_some_iff.mp hline
    rfl
  have haddress : (if vld.addressMis then [Line.address vld.faddr vld.vaddr] else []).filter
      Line.isHistory = [] := by
    split <;> rfl
  have hdata : (if vld.writeDataMis then [Line.writeData vld.fdata vld.vdata] else []).filter
      Line.isHistory = [] := by
    split <;> rfl
  rw [mismatchLines, List.filter_append, List.filter_append, List.filter_append,
    List.filter_append, haddress, hdata, if_pos hN, h, Option.getD_some,
    List.filter_eq_self.mpr hall]
  exact List.append_nil _

/-- The loop is going on after a number of iterations. Each of them retired an instruction of the
functional core, and the ring buffer has taken their logs. -/
structure KeepsHistory (args : SimArgs) (log : ℕ → String) (k : ℕ) (s : ConcurrentState β) :
    Prop where
  primCnt : s.machine.prim.cntInst.toNat = k
  below : k = 0 ∨ k < args.maxInsts.toNat
  buffer : bufferTexts s.logBuffer = RingBuffer.after args.mismatchInsts.toNat log k
  out : s.out = []
  overflow : s.overflow = false

/-- An iteration after which the functional core goes on puts its log into the buffer. -/
theorem KeepsHistory.next (hN : 0 < args.mismatchInsts.toInt) {log : ℕ → String} {k : ℕ}
    {s : ConcurrentState β} (h : KeepsHistory args log k s)
    (hprim : s.machine.prim.halt = false) (hmemory : s.machine.prim.self.memory = true)
    (hlog : log k = iterationLog args V s)
    (hgoing : (concurrentBody args host V s).machine.prim.halt = false) :
    KeepsHistory args log (k + 1) (concurrentBody args host V s) := by
  obtain ⟨hnum, hbelow⟩ : Retiring args (k + 1) (concurrentBody args host V s) :=
    Retiring.next ⟨h.primCnt, h.below⟩ hprim hmemory hgoing
  have haccepted : (nextRound args V s).accepted = true := by
    by_contra hrejected
    have hhalt := (concurrentBody_prim args host V hprim hmemory).2.mpr
      (.inl (Bool.eq_false_of_not_eq_true hrejected))
    rw [hgoing] at hhalt
    cases hhalt
  have hslot : (nextRun args V s).machine.prim.cntInst.toNat = k + 1 := by
    rw [← (prim_concurrentBody args host s).1, hnum]
  refine ⟨hnum, hbelow, ?_, (out_of_accepted haccepted).trans h.out,
    (concurrentBody_of_accepted haccepted).2.2.1.trans h.overflow⟩
  rw [logBuffer_of_accepted haccepted, if_pos hN, hslot, RingBuffer.after, ← h.buffer, hlog]
  exact Function.comp_update ..

/-- At every head the functional core is bound to the memory, and if the loop goes on the buffer
has taken the logs of the iterations so far. -/
theorem keepsHistory_of_reaches (hN : 0 < args.mismatchInsts.toInt)
    {M : Machine 1 FunctionalState β} (hmemory : M.prim.self.memory = true)
    (hcnt : M.prim.cntInst = 0) {k : ℕ} {t : ConcurrentState β}
    (h : (concurrentLoop args host V).Reaches (concurrentStart V M) k t) :
    t.machine.prim.self.memory = true ∧
      ((concurrentLoop args host V).guard t = true →
        KeepsHistory args (fun j => iterationLog args V
          ((concurrentBody args host V)^[j] (concurrentStart V M))) k t) := by
  refine h.invariant (I := fun k t => t.machine.prim.self.memory = true ∧
    ((concurrentLoop args host V).guard t = true → KeepsHistory args (fun j => iterationLog args V
      ((concurrentBody args host V)^[j] (concurrentStart V M))) k t)) ⟨hmemory, fun _ => ?_⟩ ?_
  · exact ⟨congrArg BitVec.toNat hcnt, .inl rfl, rfl, rfl, rfl⟩
  rintro k t hreach hguard ⟨hbound, hkeeps⟩
  obtain ⟨hprim, -⟩ := concurrentLoop_guard.mp hguard
  refine ⟨memory_concurrentBody hprim hbound, fun hnext => ?_⟩
  have hlog := congrArg (iterationLog args V) hreach.eq_iterate.symm
  exact (hkeeps hguard).next hN hprim hbound hlog (concurrentLoop_guard.mp hnext).1

variable (host) in
/-- The report of a rejected pair, from the texts that the buffer holds at the indices: the history
lines are labelled with them and no index overflows exactly when the last index is an `int`. -/
theorem report_iff (hN : 0 < args.mismatchInsts.toInt) {s : ConcurrentState β} (hout : s.out = [])
    (hoverflow : s.overflow = false) (hrejected : (nextRound args V s).accepted = false)
    (text : ℕ → Option String) :
    let n := args.mismatchInsts.toNat
    let c := (nextRun args V s).machine.prim.cntInst.toNat
    let t := concurrentBody args host V s
    (t.overflow = false ∧ t.out.filter Line.isHistory = labelled n text) ↔
      c % n + n ≤ 0x80000000 ∧ ∀ i < n, bufferTexts s.logBuffer ((c + i) % n) = text i := by
  intro n c t
  obtain ⟨hn, -⟩ := toNat_of_toInt_pos hN
  obtain ⟨⟨vld, hreport⟩, hflag, -⟩ : (∃ vld, t.out = s.out ++ mismatchLines args s.logBuffer vld
      (nextRun args V s).machine) ∧ t.overflow = _ ∧ t.logBuffer = _ :=
    concurrentBody_of_rejected hrejected
  have hlines := historyLines_eq_labelled hn s.logBuffer (nextRun args V s).machine.prim.cntInst
  have hflag : t.overflow = (historyLines args s.logBuffer
      (nextRun args V s).machine.prim.cntInst).isNone := by
    rw [show t.overflow = _ from hflag, hoverflow, Bool.false_or, reportOverflows,
      decide_eq_true hN, Bool.true_and]
  rw [hflag]
  by_cases hfits : c % n + n ≤ 0x80000000
  · rw [if_pos hfits] at hlines
    rw [show t.out = _ from hreport, hout, List.nil_append, filter_mismatchLines hN vld hlines,
      hlines, labelled_inj]
    exact (and_iff_right rfl).trans (and_iff_right hfits).symm
  · rw [if_neg hfits] at hlines
    rw [hlines]
    exact iff_of_false (fun h => Bool.noConfusion h.1) fun h => hfits h.1

/-- In an iteration in which the pair is rejected, no index overflows and the history lines are the
logs of the last instructions of the functional core in program order, with labels that count down
to one, exactly when the instruction count modulo the length of the history, together with this
length, is at most `2 ^ 31`, and the functional core knew the word it fetched in this iteration, or
none was retired before, or the buffer is full of equal logs. -/
theorem history_in_order_iff (hN : 0 < args.mismatchInsts.toInt)
    {M : Machine 1 FunctionalState β} (hmemory : M.prim.self.memory = true)
    (hcnt : M.prim.cntInst = 0) {r : ℕ} {s : ConcurrentState β}
    (h : (concurrentLoop args host V).Reaches (concurrentStart V M) r s)
    (hguard : (concurrentLoop args host V).guard s = true)
    (hrejected : (nextRound args V s).accepted = false) :
    let n := args.mismatchInsts.toNat
    let known := (FunctionalCore.instruction s.machine.mem.read s.machine.prim).instrId ≠ .unknown
    let count := if known then r + 1 else r
    let log j := iterationLog args V ((concurrentBody args host V)^[j] (concurrentStart V M))
    let t := concurrentBody args host V s
    (t.overflow = false ∧ t.out.filter Line.isHistory = programOrder n r log) ↔
      count % n + n ≤ 0x80000000 ∧
        (known ∨ r = 0 ∨ (n ≤ r ∧ ∀ i < n, log (r - n + i) = log (r - 1))) := by
  intro n known count log t
  obtain ⟨hn, -⟩ := toNat_of_toInt_pos hN
  obtain ⟨hprim, -⟩ := concurrentLoop_guard.mp hguard
  obtain ⟨hbound, hkeeps⟩ := keepsHistory_of_reaches hN hmemory hcnt h
  obtain ⟨hnum, hbelow, hbuffer, hout, hoverflow⟩ := hkeeps hguard
  have hspec := functionalStep_spec args hprim hbound
  have hcursor : (nextRun args V s).machine.prim.cntInst.toNat = count := by
    have hsame : (nextRun args V s).machine.prim = _ := (samePrimary_verilatedStep ..).prim
    rw [hsame, hspec.cntInst]
    by_cases hknown : known
    · rw [if_pos (hspec.driven.mpr hknown), toNat_succ_of_below hnum hbelow]
      exact (if_pos hknown).symm
    · rw [if_neg (mt hspec.driven.mp hknown), hnum]
      exact (if_neg hknown).symm
  have hexpected : programOrder n r log = labelled n fun i =>
      RingBuffer.after n log r ((r + 1 + i) % n) := by
    rw [programOrder_eq_labelled]
    exact labelled_inj.mpr fun i hi => (RingBuffer.after_next log r hi).symm
  have hreport := report_iff host hN hout hoverflow hrejected fun i =>
    RingBuffer.after n log r ((r + 1 + i) % n)
  dsimp only at hreport
  rw [hcursor, hbuffer] at hreport
  rw [hexpected]
  refine hreport.trans (and_congr_right fun _ => ?_)
  by_cases hknown : known
  · rw [show count = r + 1 from if_pos hknown]
    exact iff_of_true (fun _ _ => rfl) (.inl hknown)
  · rw [show count = r from if_neg hknown]
    rw [RingBuffer.after_last_eq_next_iff log hn]
    exact (or_iff_right hknown).symm

/-- The second of two known instructions is rejected: the first one is shown with label one. -/
theorem nop_history :
    let V := RVCorePCore.methods Playback.top
    let host : Host := fun _ => default
    let nop (pc : Word) : CoreInstructionIF := ⟨1, pc, 0x00000013, 0, 0, 0, 0, 0, 0⟩
    let args : SimArgs := ⟨10, 2, false⟩
    let start := concurrentStart V
      (playbackMachine [0x00000013, 0x00000013] [nop 0x00010000, nop 0x00020000])
    let s := (concurrentLoop args host V).body start
    let t := concurrentBody args host V s
    t.overflow = false ∧ t.out.filter Line.isHistory =
      programOrder 2 1 fun j => iterationLog args V ((concurrentBody args host V)^[j] start) := by
  intro V host nop args start s t
  have hgoing : (concurrentLoop args host V).guard start = true := by
    decide +kernel
  have hguard : (concurrentLoop args host V).guard s = true := by
    decide +kernel
  have hrejected : (nextRound args V s).accepted = false := by
    decide +kernel
  have hknown :
      (FunctionalCore.instruction s.machine.mem.read s.machine.prim).instrId ≠ .unknown := by
    decide +kernel
  have hreach : (concurrentLoop args host V).Reaches start 1 s :=
    WhileLoop.Reaches.start.next hgoing
  refine (history_in_order_iff (by decide) rfl rfl hreach hguard hrejected).mpr ⟨?_, .inl hknown⟩
  rw [if_pos hknown]
  decide

/-- After one instruction the functional core fetches a word of zeros, and the verilated core
retires something else. The only instruction before is shown with label two. -/
theorem history_label_off :
    let V := RVCorePCore.methods Playback.top
    let host : Host := fun _ => default
    let nop (pc : Word) : CoreInstructionIF := ⟨1, pc, 0x00000013, 0, 0, 0, 0, 0, 0⟩
    let args : SimArgs := ⟨10, 2, false⟩
    let start := concurrentStart V
      (playbackMachine [0x00000013] [nop 0x00010000, nop 0x00020000])
    let s := (concurrentLoop args host V).body start
    (concurrentLoop args host V).Reaches start 1 s ∧ (concurrentLoop args host V).guard s = true ∧
      (nextRound args V s).accepted = false ∧
      (concurrentBody args host V s).out.filter Line.isHistory ≠
        programOrder 2 1 fun j => iterationLog args V ((concurrentBody args host V)^[j] start) := by
  intro V host nop args start s
  have hgoing : (concurrentLoop args host V).guard start = true := by
    decide +kernel
  refine ⟨WhileLoop.Reaches.start.next hgoing, ?_, ?_, ?_⟩
  · decide +kernel
  · decide +kernel
  · decide +kernel

end VeriCross
