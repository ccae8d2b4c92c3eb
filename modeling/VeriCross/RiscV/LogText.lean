import VeriCross.Library.DigitText
import VeriCross.Library.PrefixCode
import VeriCross.RiscV.Log

/-!
# Reading the log

A log line has the program counter and the instruction word in fixed columns, the instruction in
words and what the instruction did in columns of no fixed width. A reader finds the end of every
line without knowing where the next one begins, and what the lines show.
-/

namespace VeriCross

open RiscV PrefixCode

/-- What a line shows: the instruction with the word that it stores, with the result that it puts
into a register, or alone. -/
inductive LogEffect
  | store (pc ir wordAddr data : Word)
  | write (pc ir rd result : Word)
  | plain (pc ir : Word)
  deriving DecidableEq

namespace LogEffect

/-- The columns of the instruction. -/
def instColumns (pc ir : Word) : List Char :=
  (Nat.toDigits 16 pc.toNat).leftpad 8 ' ' ++ ([':', ' '] ++
    ((Nat.toDigits 16 ir.toNat).leftpad 8 '0' ++ ([' ', ' '] ++
      (RiscVLogInfo.getMnemonic (RiscVInstruction.decode pc ir)).toList)))

/-- The line that shows an effect. -/
def line : LogEffect → List Char
  | store pc ir wordAddr data =>
    (instColumns pc ir).rightpad 55 ' ' ++ (" mem[0x".toList ++ (Nat.toDigits 16 wordAddr.toNat ++
      (']' :: (" <- 0x".toList ++ (Nat.toDigits 16 data.toNat ++ ['\n'])))))
  | write pc ir rd result =>
    (instColumns pc ir).rightpad 55 ' ' ++ (" x".toList ++
      ((Nat.toDigits 10 rd.toNat).rightpad 2 ' ' ++ (" <- 0x".toList ++
        (Nat.toDigits 16 result.toNat ++ ['\n']))))
  | plain pc ir => instColumns pc ir ++ ['\n']

/-- The address of the instruction. -/
def pc : LogEffect → Word
  | store pc _ _ _ | write pc _ _ _ | plain pc _ => pc

/-- The instruction word. -/
def ir : LogEffect → Word
  | store _ ir _ _ | write _ ir _ _ | plain _ ir => ir

/-- The effect is of the kind that the instruction has. -/
def Proper : LogEffect → Prop
  | store pc ir _ _ => (RiscVInstruction.decode pc ir).isStore = true
  | write pc ir _ _ => (RiscVInstruction.decode pc ir).isStore = false ∧
      (RiscVInstruction.decode pc ir).writesRd = true
  | plain pc ir => (RiscVInstruction.decode pc ir).isStore = false ∧
      (RiscVInstruction.decode pc ir).writesRd = false

/-- The columns of the instruction determine it, whatever follows. -/
theorem instColumns_inj {pc ir pc' ir' : Word} {xs xs' : List Char}
    (heq : instColumns pc ir ++ xs = instColumns pc' ir' ++ xs') : pc = pc' ∧ ir = ir' := by
  have hwidth : ∀ (w : Word) c, ((Nat.toDigits 16 w.toNat).leftpad 8 c).length = 8 := by
    intro w c
    have hlength := (Nat.length_toDigits_le_iff (b := 16) (k := 8) (by decide) (by decide)).mpr
      w.isLt
    rw [List.length_leftpad]
    omega
  simp only [instColumns, List.append_assoc] at heq
  obtain ⟨hpc, hrest⟩ := List.append_inj heq (by rw [hwidth, hwidth])
  obtain ⟨hir, -⟩ := List.append_inj (List.append_cancel_left hrest) (by rw [hwidth, hwidth])
  have hblank : ∀ n, ' ' ∉ Nat.toDigits 16 n :=
    DigitText.notMem_toDigits (by decide) (by decide) (by decide)
  constructor
  · exact BitVec.eq_of_toNat_eq (DigitText.toDigits_inj (by decide) (by decide)
      (leftpad_inj (hblank _) (hblank _) hpc))
  · have hread := fun n => DigitText.value?_leftpad (b := 16) (by decide)
      (fun d hd => DigitText.digit?_digitChar d hd) 8 n
    have hvalue := hread ir.toNat
    rw [hir, hread, Option.some_inj] at hvalue
    exact BitVec.eq_of_toNat_eq hvalue.symm

/-- A line begins with the columns of its instruction. -/
theorem exists_line_eq (e : LogEffect) : ∃ tail, e.line = instColumns e.pc e.ir ++ tail := by
  cases e with
  | store | write => exact ⟨_, List.append_assoc ..⟩
  | plain => exact ⟨_, rfl⟩

/-- A number with a mark behind it that is no digit. -/
theorem toDigits_append_inj {b : ℕ} (hb : 1 < b) (hb' : b ≤ 16) {sep : Char}
    (hsep : DigitText.digit? sep = none) {m n : ℕ} {xs ys : List Char}
    (heq : Nat.toDigits b m ++ sep :: xs = Nat.toDigits b n ++ sep :: ys) : m = n ∧ xs = ys := by
  obtain ⟨hdigits, hrest⟩ := eq_of_append_cons (DigitText.notMem_toDigits hb hb' hsep m)
    (DigitText.notMem_toDigits hb hb' hsep n) heq
  exact ⟨DigitText.toDigits_inj hb hb' hdigits, hrest⟩

/-- The first of the blanks behind a text ends it. -/
theorem rightpad_append_cons (width : ℕ) (c : Char) (xs ys : List Char) :
    xs.rightpad width c ++ c :: ys =
      xs ++ c :: (List.replicate (width - xs.length) c ++ ys) := by
  have hshift : ∀ k, List.replicate k c ++ c :: ys = c :: (List.replicate k c ++ ys) := by
    intro k
    induction k with
    | zero => rfl
    | succ k ih => rw [List.replicate_succ, List.cons_append, ih, List.cons_append]
  rw [List.rightpad, List.append_assoc, hshift]

/-- Lines are self-delimiting for their effects. -/
theorem delimits_line : Delimits Proper line id := by
  intro x y hx hy xs ys heq
  obtain ⟨tail, hline⟩ := exists_line_eq x
  obtain ⟨tail', hline'⟩ := exists_line_eq y
  have hhead := heq
  rw [hline, hline', List.append_assoc, List.append_assoc] at hhead
  obtain ⟨hpc, hir⟩ := instColumns_inj hhead
  have hstore : (RiscVInstruction.decode x.pc x.ir).isStore =
      (RiscVInstruction.decode y.pc y.ir).isStore := by rw [hpc, hir]
  have hwrites : (RiscVInstruction.decode x.pc x.ir).writesRd =
      (RiscVInstruction.decode y.pc y.ir).writesRd := by rw [hpc, hir]
  -- the instruction decides the kind of the effect
  cases x with
  | store pc ir wordAddr data =>
    cases y with
    | store pc' ir' wordAddr' data' =>
      change pc = pc' at hpc
      change ir = ir' at hir
      subst hpc hir
      simp only [line, List.append_assoc, List.append_cancel_left_eq, List.cons_append] at heq
      obtain ⟨hwordAddr, hrest⟩ := toDigits_append_inj (by decide) (by decide) (by decide) heq
      obtain ⟨hdata, hrest⟩ := toDigits_append_inj (by decide) (by decide) (by decide)
        (List.append_cancel_left hrest)
      rw [BitVec.eq_of_toNat_eq hwordAddr, BitVec.eq_of_toNat_eq hdata]
      exact ⟨rfl, hrest⟩
    | write => exact absurd (hx.symm.trans (hstore.trans hy.1)) (by decide)
    | plain => exact absurd (hx.symm.trans (hstore.trans hy.1)) (by decide)
  | write pc ir rd result =>
    cases y with
    | store => exact absurd (hy.symm.trans (hstore.symm.trans hx.1)) (by decide)
    | write pc' ir' rd' result' =>
      change pc = pc' at hpc
      change ir = ir' at hir
      subst hpc hir
      have hmark : " <- 0x".toList = ' ' :: "<- 0x".toList := rfl
      simp only [line, List.append_assoc, List.append_cancel_left_eq, hmark, List.cons_append,
        rightpad_append_cons] at heq
      obtain ⟨hrd, hrest⟩ := toDigits_append_inj (by decide) (by decide) (by decide) heq
      rw [hrd] at hrest
      obtain ⟨hresult, hrest⟩ := toDigits_append_inj (by decide) (by decide) (by decide)
        (List.append_cancel_left (List.append_cancel_left hrest))
      rw [BitVec.eq_of_toNat_eq hrd, BitVec.eq_of_toNat_eq hresult]
      exact ⟨rfl, hrest⟩
    | plain => exact absurd (hx.2.symm.trans (hwrites.trans hy.2)) (by decide)
  | plain pc ir =>
    cases y with
    | store => exact absurd (hy.symm.trans (hstore.symm.trans hx.1)) (by decide)
    | write => exact absurd (hy.2.symm.trans (hwrites.symm.trans hx.2)) (by decide)
    | plain pc' ir' =>
      change pc = pc' at hpc
      change ir = ir' at hir
      subst hpc hir
      simp only [line, List.append_assoc, List.append_cancel_left_eq] at heq
      exact ⟨rfl, heq⟩

end LogEffect

namespace RiscVLogInfo

/-- An entry of a valid record: it keeps the decoding of the record. -/
def Decoded (info : RiscVLogInfo) : Prop :=
  info.inst = some (RiscVInstruction.decode info.iif.pc info.iif.ir)

/-- What the line of an entry shows. -/
def effect (info : RiscVLogInfo) : LogEffect :=
  let inst := RiscVInstruction.decode info.iif.pc info.iif.ir
  let done := info.simulateAccess inst
  if inst.isStore then .store info.iif.pc info.iif.ir (info.iif.dAddr >>> 2) done.memData
  else if inst.writesRd then .write info.iif.pc info.iif.ir done.iif.rd done.iif.result
  else .plain info.iif.pc info.iif.ir

/-- The effect of an entry is of the kind that its instruction has. -/
theorem proper_effect (info : RiscVLogInfo) : info.effect.Proper := by
  unfold effect
  dsimp only
  split
  · next hstore => exact hstore
  · next hstore =>
    rw [Bool.not_eq_true] at hstore
    split
    · next hwrites => exact ⟨hstore, hwrites⟩
    · next hwrites => exact ⟨hstore, Bool.eq_false_iff.mpr hwrites⟩

/-- The line of an entry is the line of its effect. -/
theorem toList_getLog {info : RiscVLogInfo} (h : info.Decoded) :
    info.getLog.1.toList = info.effect.line := by
  rw [Decoded] at h
  unfold getLog effect
  rw [h]
  dsimp only
  split
  · simp [LogEffect.line, LogEffect.instColumns, padLeft, padRight, hex, toString]
  · split
    · simp [LogEffect.line, LogEffect.instColumns, padLeft, padRight, hex, toString]
    · simp [LogEffect.line, LogEffect.instColumns, padLeft, hex, toString]

end RiscVLogInfo

end VeriCross
