import VeriCross.Memory.Words
import VeriCross.SysCall.Primitives

/-!
# What a system call can do to the program

The program sees an emulated call in `a0` and in at most one buffer, which starts where `a0` or
`a1` points to. All other registers and all other bytes of the memory are as before.
-/

namespace VeriCross

open RiscV SysCall

/-- Writing no bytes changes nothing. -/
theorem Memory.write_nil {n : ℕ} (m : Memory n) (addr : Word) : m.write addr [] = m := by
  rw [write]
  split
  · rw [writeWords]
    intro b0 b1 b2 b3 rest h
    cases h
  · rfl

namespace Machine

variable {n : ℕ} {α β : Type} {host : Host} {P : RegisterMethods α} {R : RegisterMethods β}

/-- The memory of the second machine is that of the first after one buffer was filled that `a0` or
`a1` points to. -/
def FillsBuffer (P : RegisterMethods α) (M M' : Machine n α β) : Prop :=
  ∃ addr data, (addr = M.readReg P regA0 ∨ addr = M.readReg P regA1) ∧
    M'.mem = M.mem.write addr data

/-- A step that leaves the memory alone fills a buffer of no bytes. -/
theorem FillsBuffer.of_mem_eq {M M' : Machine n α β} (h : M'.mem = M.mem) : M.FillsBuffer P M' :=
  ⟨_, [], .inl rfl, h.trans (M.mem.write_nil _).symm⟩

/-- The common part of `SC_FSTAT` and `SC_STAT` fills the buffer in `a1`. -/
theorem FillsBuffer.finishStat (hP : P.Lawful) {M M' : Machine n α β} (hmem : M'.mem = M.mem)
    (ha1 : M'.readReg P regA1 = M.readReg P regA1) :
    M.FillsBuffer P (M'.finishStat host P R) := by
  have hzero : (M'.writeReg P R regA0 0).readReg P regA1 = M'.readReg P regA1 :=
    (hP.read_write ..).trans (if_neg (by decide))
  unfold Machine.finishStat
  dsimp only
  split
  · rw [hzero]
    refine ⟨M'.readReg P regA1, (postprocessStat (M'.reply host).st (vtime M'.prim.cntInst)
      (vtimeNsec M'.prim.cntInst)).flatMap wordBytes, .inr ha1, ?_⟩
    rw [← hmem]
    rfl
  · exact .of_mem_eq hmem

variable (host R) in
/-- A system call fills at most one buffer. -/
theorem fillsBuffer_emulate (hP : P.Lawful) (M : Machine n α β) :
    M.FillsBuffer P (M.emulate host P R) := by
  rw [emulate]
  refine iteInduction (fun _ => ?_) fun _ => ?_
  · unfold emulateClose
    dsimp only
    split <;> exact .of_mem_eq rfl
  refine iteInduction (fun _ => .of_mem_eq rfl) fun _ => ?_
  refine iteInduction (fun _ => ?_) fun _ => ?_
  · unfold emulateRead
    dsimp only
    split
    · exact ⟨_, _, .inr rfl, rfl⟩
    · exact .of_mem_eq rfl
  refine iteInduction (fun _ => .of_mem_eq rfl) fun _ => ?_
  refine iteInduction (fun _ => .finishStat hP rfl rfl) fun _ => ?_
  refine iteInduction (fun _ => .of_mem_eq rfl) fun _ => ?_
  refine iteInduction (fun _ => ⟨_, _, .inl rfl, rfl⟩) fun _ => ?_
  refine iteInduction (fun _ => ?_) fun _ => ?_
  · unfold emulateSbrk
    split <;> exact .of_mem_eq rfl
  refine iteInduction (fun _ => ?_) fun _ => ?_
  · unfold emulateOpen
    split
    · exact .of_mem_eq rfl
    · dsimp only
      split <;> exact .of_mem_eq rfl
  refine iteInduction (fun _ => ?_) fun _ => .of_mem_eq rfl
  unfold emulateStat
  split
  · exact .of_mem_eq rfl
  · exact .finishStat hP rfl rfl

variable (host R) in
/-- A system call writes no register of the first core but `a0`. -/
theorem readReg_emulate (hP : P.Lawful) (M : Machine n α β) {r : RegIndex} (hr : r ≠ regA0) :
    (M.emulate host P R).readReg P r = M.readReg P r := by
  refine emulate_invariant (I := fun M' => M'.readReg P r = M.readReg P r) ?_ (fun _ h _ _ => h)
    (fun _ h _ => h) (fun _ h _ => h) host rfl fun _ => ?_
  · intro M' h data
    exact ((hP.read_write ..).trans (if_neg hr)).trans h
  · exact congrFun (hP.read_halt M.prim true) r

end Machine

end VeriCross
