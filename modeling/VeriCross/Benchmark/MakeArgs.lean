import Mathlib.Data.Int.Bitwise
import Mathlib.Data.Nat.Digits.Defs
import VeriCross.RiscV.Log

/-!
# The stack image of the benchmarks

`make_args.py` lays out a command line as a C program expects it at its stack pointer: the number
of arguments, a pointer to each of them, a null pointer and then the texts. The image is written
as one hexadecimal word in a line. An integer that does not fit into four bytes raises an
exception, which is `none` here.
-/

namespace VeriCross

namespace MakeArgs

/-- The default of `sp_base`. -/
def spBase : ℕ := 0x1e6400

/-- The word (4-byte) aligned address. -/
def alignWord (x : ℤ) : ℤ := Int.land (x + 3) (~~~3)

/-- Pack an integer to a word. -/
def packWord (x : ℕ) : Option (List Byte) :=
  if x < 2 ^ 32 then some (wordBytes (BitVec.ofNat 32 x)) else none

/-- The bytes of a text in UTF-8. -/
def encode (arg : List Char) : List Byte :=
  arg.flatMap fun c => (String.utf8EncodeChar c).map UInt8.toBitVec

/-- The text of an argument with its NUL, filled to whole words. -/
def argData (arg : List Char) : List Byte :=
  let data := encode arg ++ [0]
  data ++ List.replicate (alignWord data.length - data.length).toNat 0

/-- The loop over the arguments from a number on: the pointer is put into the table, and the text
goes to the end. -/
def putArgs (spBase : ℕ) (mem : List Byte) (i : ℕ) : List (List Char) → Option (List Byte)
  | [] => some mem
  | arg :: rest => do
    let strAddr := spBase + mem.length
    let ptrAddr := 4 * (i + 1)
    let packed ← packWord strAddr
    let mem := mem.take ptrAddr ++ packed ++ mem.drop (ptrAddr + 4)
    putArgs spBase (mem ++ argData arg) (i + 1) rest

/-- The memory image made from command line arguments. -/
def genArgs (argStr : List Char) (spBase : ℕ) : Option (List Byte) := do
  let argv := argStr.splitOn ' '
  let argc := argv.length
  let mem ← packWord argc
  let mem := mem ++ List.replicate (4 * (argc + 1)) 0
  let mem ← putArgs spBase mem 0 argv
  return mem ++ List.replicate 4 0

/-- The integer with the given little-endian bytes. -/
def fromBytes (bytes : List Byte) : ℕ := Nat.ofDigits 256 (bytes.map BitVec.toNat)

/-- The lines of the stack image file. -/
def writeArgs (mem : List Byte) : List Char :=
  (List.range ((mem.length + 3) / 4)).flatMap fun i =>
    (padLeft 8 '0' (hex (fromBytes ((mem.drop (4 * i)).take 4)))).toList ++ ['\n']

/-- The command line of an application. -/
def commandLine (binname args : List Char) : List Char :=
  let arg := "./".toList ++ binname
  if args ≠ [] then arg ++ ' ' :: args else arg

/-! The image in closed form. -/

/-- Aligning goes to the next multiple of four. -/
theorem alignWord_natCast (n : ℕ) : alignWord n = (4 * ((n + 3) / 4) : ℕ) := by
  have hclear : Nat.ldiff (n + 3) 3 = 4 * ((n + 3) / 4) := by
    apply Nat.eq_of_testBit_eq
    intro i
    have hdiv : 4 * ((n + 3) / 4) = ((n + 3) >>> 2) <<< 2 := by
      rw [Nat.shiftLeft_eq, Nat.shiftRight_eq_div_pow, Nat.mul_comm]
    have hlow : Nat.testBit 3 i = decide (i < 2) := by
      rw [show 3 = 2 ^ 2 - 1 from rfl, Nat.testBit_two_pow_sub_one]
    rw [hdiv, Nat.testBit_ldiff, Nat.testBit_shiftLeft, Nat.testBit_shiftRight, hlow]
    by_cases hi : 2 ≤ i
    · have hnot : decide (i < 2) = false := decide_eq_false (by omega)
      rw [hnot, decide_eq_true hi, show 2 + (i - 2) = i by omega]
      rw [Bool.not_false, Bool.and_true, Bool.true_and]
    · have hbelow : decide (i < 2) = true := decide_eq_true (by omega)
      rw [hbelow, decide_eq_false hi]
      rw [Bool.not_true, Bool.and_false, Bool.false_and]
  rw [← hclear]
  rfl

/-- The text of an argument is filled with zeros. -/
theorem argData_eq (arg : List Char) :
    ∃ pad, argData arg = (encode arg ++ [0]) ++ List.replicate pad 0 := ⟨_, rfl⟩

/-- The text of an argument takes whole words. -/
theorem length_argData (arg : List Char) :
    (argData arg).length = 4 * ((encode arg).length / 4 + 1) := by
  rw [argData, alignWord_natCast, List.length_append, List.length_replicate, List.length_append,
    List.length_singleton]
  omega

/-- The addresses of the texts, from the address of the first one on. -/
def pointers (addr : ℕ) : List (List Char) → List ℕ
  | [] => []
  | arg :: rest => addr :: pointers (addr + (argData arg).length) rest

/-- There is one pointer for each argument. -/
theorem length_pointers (addr : ℕ) (args : List (List Char)) :
    (pointers addr args).length = args.length := by
  induction args generalizing addr with
  | nil => rfl
  | cons arg rest ih => rw [pointers, List.length_cons, ih, List.length_cons]

/-- An integer as the bytes of a word. -/
def packed (x : ℕ) : List Byte := wordBytes (BitVec.ofNat 32 x)

/-- The loop fills the table behind what it has filled before, and appends the texts. -/
theorem putArgs_eq {spBase addr : ℕ} (args : List (List Char)) {i : ℕ}
    {front zeros back : List Byte}
    (hfront : front.length = 4 * (i + 1))
    (haddr : addr = spBase + (front.length + 4 * args.length + zeros.length + back.length))
    (hfits : addr + (args.flatMap argData).length ≤ 2 ^ 32) :
    putArgs spBase (front ++ (List.replicate (4 * args.length) 0 ++ (zeros ++ back))) i args =
      some (front ++ ((pointers addr args).flatMap packed ++
        (zeros ++ (back ++ args.flatMap argData)))) := by
  -- the induction is on the arguments: each turns one place of the table into a pointer
  induction args generalizing i front back addr with
  | nil => simp [putArgs, pointers]
  | cons arg rest ih =>
    have hdata := length_argData arg
    rw [List.length_cons] at haddr
    rw [List.flatMap_cons, List.length_append] at hfits
    have hplaces : List.replicate (4 * (rest.length + 1)) (0 : Byte) =
        List.replicate 4 0 ++ List.replicate (4 * rest.length) 0 := by
      rw [List.replicate_append_replicate, Nat.mul_succ, Nat.add_comm]
    have hlength : spBase + (front ++ (List.replicate (4 * (rest.length + 1)) 0 ++
        (zeros ++ back))).length = addr := by
      rw [List.length_append, List.length_append, List.length_append, List.length_replicate]
      omega
    have htake : (front ++ (List.replicate (4 * (rest.length + 1)) 0 ++
        (zeros ++ back))).take (4 * (i + 1)) = front := List.take_left' hfront
    have hdrop : (front ++ (List.replicate (4 * (rest.length + 1)) 0 ++
        (zeros ++ back))).drop (4 * (i + 1) + 4) =
          List.replicate (4 * rest.length) 0 ++ (zeros ++ back) := by
      rw [hplaces, List.append_assoc, ← List.append_assoc, List.drop_left']
      rw [List.length_append, hfront, List.length_replicate]
    have hpacked : (packed addr).length = 4 := rfl
    have hfront' : (front ++ packed addr).length = 4 * (i + 1 + 1) := by
      rw [List.length_append, hfront, hpacked]
      omega
    have haddr' : addr + (argData arg).length = spBase + ((front ++ packed addr).length +
        4 * rest.length + zeros.length + (back ++ argData arg).length) := by
      rw [List.length_append, List.length_append, hpacked]
      omega
    have hnext := ih hfront' haddr' (by omega)
    rw [putArgs, List.length_cons, hlength, htake, hdrop, packWord, if_pos (by omega)]
    simp only [Option.bind_eq_bind, Option.bind_some, List.append_assoc, pointers,
      List.flatMap_cons]
    simp only [List.append_assoc] at hnext
    exact hnext

/-- The number of bytes of the image of some arguments. -/
def imageSize (argv : List (List Char)) : ℕ :=
  4 * (argv.length + 2) + (argv.flatMap argData).length + 4

/-- The table of an image: the number of arguments, the pointers and a null pointer. -/
def table (spBase : ℕ) (argv : List (List Char)) : List ℕ :=
  argv.length :: pointers (spBase + 4 * (argv.length + 2)) argv ++ [0]

/-- The table, the texts behind it and one additional word. -/
def image (spBase : ℕ) (argv : List (List Char)) : List Byte :=
  (table spBase argv).flatMap packed ++ (argv.flatMap argData ++ List.replicate 4 0)

/-- The table has a word for each argument and two more. -/
theorem length_table (spBase : ℕ) (argv : List (List Char)) :
    ((table spBase argv).flatMap packed).length = 4 * (argv.length + 2) := by
  have hwords : ∀ l : List ℕ, (l.flatMap packed).length = 4 * l.length := by
    intro l
    induction l with
    | nil => rfl
    | cons x l ih =>
      rw [List.flatMap_cons, List.length_append, ih, List.length_cons]
      change 4 + _ = _
      omega
  rw [hwords, table, List.length_append, List.length_cons, length_pointers]
  rfl

/-- The number of bytes of the image. -/
theorem length_image (spBase : ℕ) (argv : List (List Char)) :
    (image spBase argv).length = imageSize argv := by
  rw [image, List.length_append, length_table, List.length_append, List.length_replicate, imageSize]
  omega

/-- When it fits into the address space, the image is as described. -/
theorem genArgs_eq (argStr : List Char) (spBase : ℕ)
    (hfits : spBase + imageSize (argStr.splitOn ' ') ≤ 2 ^ 32) :
    genArgs argStr spBase = some (image spBase (argStr.splitOn ' ')) := by
  generalize hargv : argStr.splitOn ' ' = argv at hfits
  rw [imageSize] at hfits
  have hpacked : (packed argv.length).length = 4 := rfl
  have hzeros : List.replicate (4 * (argv.length + 1)) (0 : Byte) =
      List.replicate (4 * argv.length) 0 ++ (packed 0 ++ []) := by
    rw [Nat.mul_succ, ← List.replicate_append_replicate]
    rfl
  have haddr : spBase + 4 * (argv.length + 2) = spBase + ((packed argv.length).length +
      4 * argv.length + (packed 0).length + ([] : List Byte).length) := by
    change _ = _ + (4 + _ + 4 + 0)
    omega
  have hloop := putArgs_eq (i := 0) argv rfl haddr (by omega)
  rw [genArgs, hargv, packWord, if_pos (by omega)]
  simp only [Option.bind_eq_bind, Option.bind_some]
  rw [hzeros, ← packed, hloop]
  simp [image, table]

/-- An image takes whole words. -/
theorem imageSize_mod (argv : List (List Char)) : imageSize argv % 4 = 0 := by
  have htexts : (argv.flatMap argData).length % 4 = 0 := by
    induction argv with
    | nil => rfl
    | cons arg rest ih =>
      rw [List.flatMap_cons, List.length_append, length_argData]
      omega
  rw [imageSize]
  omega

/-- The arguments of a command line begin with the path of the binary. -/
theorem splitOn_commandLine {binname : List Char} (hname : ' ' ∉ binname) (args : List Char) :
    (commandLine binname args).splitOn ' ' =
      ("./".toList ++ binname) :: if args = [] then [] else args.splitOn ' ' := by
  have hpath : ' ' ∉ "./".toList ++ binname := by
    rw [List.mem_append, not_or]
    exact ⟨by decide, hname⟩
  rw [commandLine]
  by_cases hargs : args = []
  · rw [if_neg (not_not.mpr hargs), if_pos hargs, List.splitOn_eq_singleton hpath]
  · rw [if_pos hargs, if_neg hargs, List.splitOn_append_cons_self_of_not_mem hpath]

end MakeArgs

end VeriCross
