import VeriCross.Benchmark.MakeArgs
import VeriCross.Library.DigitText
import VeriCross.Loader.Image
import VeriCross.SysCall.Failures

/-!
# The arguments of a benchmark

The stack image that `make_args.py` writes goes through the loader and `main` into the memory. At
the stack pointer that the functional core starts with, the program finds its command line, and a
system call that receives one of the pointers as a path copies the argument.
-/

namespace VeriCross

open MakeArgs RiscV PrivateMemory

/-! Reading the file. -/

namespace Loader

/-- The digits of the loader are those that are printed. -/
theorem hexDigit?_digitChar : ∀ d < 16, hexDigit? (Nat.digitChar d) = some d := by
  decide

/-- A line ends at its line feed. -/
theorem lines_append {line : List Char} (hline : '\n' ∉ line) (rest : List Char) :
    lines (line ++ '\n' :: rest) = line :: lines rest := by
  induction line with
  | nil => rfl
  | cons c line ih =>
    rw [List.mem_cons, not_or] at hline
    rw [List.cons_append, lines, if_neg (Ne.symm hline.1), ih hline.2]

/-- A word that has been printed with eight digits is read back. -/
theorem matchWord?_padLeft {n : ℕ} (hn : n < 2 ^ 32) :
    matchWord? (padLeft 8 '0' (hex n)).toList = some (BitVec.ofNat 32 n) := by
  have hvalue := DigitText.value?_leftpad (by decide) hexDigit?_digitChar 8 n
  have hlength : (Nat.toDigits 16 n).length ≤ 8 :=
    (Nat.length_toDigits_le_iff (by decide) (by decide)).mpr hn
  rw [DigitText.value?, Option.map_eq_some_iff] at hvalue
  obtain ⟨digits, hdigits, hn'⟩ := hvalue
  rw [padLeft, hex, String.toList_ofList, String.toList_ofList, matchWord?,
    if_pos (DigitText.length_leftpad hlength), hdigits, Option.map_some, hn']

/-- A printed word has no line feed. -/
theorem newline_notMem_padLeft (n : ℕ) : '\n' ∉ (padLeft 8 '0' (hex n)).toList := by
  have hvalue := DigitText.value?_leftpad (by decide) hexDigit?_digitChar 8 n
  intro hmem
  rw [padLeft, hex, String.toList_ofList, String.toList_ofList] at hmem
  exact absurd (DigitText.isSome_digit?_of_mem hvalue hmem) (by decide)

end Loader

/-- At most four bytes make the same integer in the script and in the loader. -/
theorem MakeArgs.fromBytes_eq {bytes : List Byte} (hshort : bytes.length ≤ 4) :
    fromBytes bytes = (bytesWord bytes).toNat := by
  rw [fromBytes]
  induction bytes with
  | nil => rfl
  | cons b rest ih =>
    rw [List.length_cons] at hshort
    have hrest : Nat.ofDigits 256 (rest.map BitVec.toNat) <
        256 ^ (rest.map BitVec.toNat).length := by
      apply Nat.ofDigits_lt_base_pow_length (by decide)
      intro x hx
      obtain ⟨c, -, rfl⟩ := List.mem_map.mp hx
      exact c.isLt
    rw [List.length_map] at hrest
    have hbound : 256 ^ rest.length ≤ 256 ^ 3 := Nat.pow_le_pow_right (by decide) (by omega)
    have hb : b.toNat < 2 ^ 8 := b.isLt
    have hword : bytesWord (b :: rest) = (bytesWord rest <<< 8) ||| b.setWidth 32 := rfl
    rw [List.map_cons, Nat.ofDigits_cons, ih (by omega)]
    rw [ih (by omega)] at hrest
    rw [hword, BitVec.toNat_or, BitVec.toNat_shiftLeft, BitVec.toNat_setWidth, Nat.shiftLeft_eq,
      Nat.mod_eq_of_lt (by omega), Nat.mod_eq_of_lt (by omega), ← Nat.shiftLeft_eq,
      ← Nat.shiftLeft_add_eq_or_of_lt hb, Nat.shiftLeft_eq]
    omega

/-- The lines of an image, word by word. -/
theorem MakeArgs.writeArgs_cons (b0 b1 b2 b3 : Byte) (rest : List Byte) :
    writeArgs (b0 :: b1 :: b2 :: b3 :: rest) =
      (padLeft 8 '0' (hex (bytesWord [b0, b1, b2, b3]).toNat)).toList ++
        '\n' :: writeArgs rest := by
  have hcount : ((b0 :: b1 :: b2 :: b3 :: rest).length + 3) / 4 = (rest.length + 3) / 4 + 1 := by
    simp only [List.length_cons]
    omega
  rw [writeArgs, hcount, List.range_succ_eq_map, List.flatMap_cons, List.flatMap_map, writeArgs,
    ← fromBytes_eq (by rfl)]
  simp [Nat.mul_succ]

/-- The loader reads the words of an image from its file. -/
theorem Loader.stackWords_writeArgs {mem : List Byte} (hwhole : mem.length % 4 = 0) :
    stackWords (writeArgs mem) = imageWords mem := by
  rw [stackWords]
  fun_induction imageWords mem with
  | case1 b0 b1 b2 b3 rest ih =>
    have hrest : rest.length % 4 = 0 := by
      simp only [List.length_cons] at hwhole
      omega
    rw [writeArgs_cons, lines_append (newline_notMem_padLeft _), List.filterMap_cons,
      matchWord?_padLeft (BitVec.isLt _), BitVec.ofNat_toNat, BitVec.setWidth_eq]
    dsimp only
    rw [ih hrest]
  | case2 mem hshort =>
    rcases mem with _ | ⟨b0, _ | ⟨b1, _ | ⟨b2, _ | ⟨b3, rest⟩⟩⟩⟩
    · rfl
    · cases hwhole
    · cases hwhole
    · cases hwhole
    · exact absurd rfl (hshort b0 b1 b2 b3 rest)

/-- The file of an image has a line for each of its words. -/
theorem Loader.length_stackWords {mem : List Byte} (hwhole : mem.length % 4 = 0) :
    4 * (stackWords (writeArgs mem)).length = mem.length := by
  have hcount := congrArg List.length (flatMap_imageWords hwhole)
  rwa [length_flatMap_wordBytes, ← stackWords_writeArgs hwhole] at hcount

/-! Bytes at an address. -/

/-- A sequence of bytes lies at an address. -/
def BytesAt (byte : Word → Byte) (addr : Word) (data : List Byte) : Prop :=
  ∀ d b, data[d]? = some b → byte (addr + BitVec.ofNat 32 d) = b

namespace BytesAt

variable {byte : Word → Byte} {addr : Word} {xs ys : List Byte}

/-- The front of a sequence lies at its address. -/
theorem left (h : BytesAt byte addr (xs ++ ys)) : BytesAt byte addr xs := by
  intro d b hd
  obtain ⟨hlt, -⟩ := List.getElem?_eq_some_iff.mp hd
  exact h d b (by rw [List.getElem?_append_left hlt, hd])

/-- The back of a sequence lies behind its front. -/
theorem right (h : BytesAt byte addr (xs ++ ys)) :
    BytesAt byte (addr + BitVec.ofNat 32 xs.length) ys := by
  intro d b hd
  rw [BitVec.add_assoc, ← BitVec.ofNat_add]
  apply h
  rw [List.getElem?_append_right (by omega), Nat.add_sub_cancel_left, hd]

end BytesAt

/-- A NUL-terminated path without a NUL that fits into the buffer is copied. -/
theorem SysCall.readPath_eq_some {n : ℕ} (m : Memory n) {addr : Word} {text : List Byte} {size : ℕ}
    (htext : BytesAt (m.read1b .primary) addr (text ++ [0])) (hnul : 0 ∉ text)
    (hfits : text.length < size) : readPath m.read addr size = some text := by
  induction text generalizing addr size with
  | nil =>
    obtain ⟨size, rfl⟩ := Nat.exists_eq_succ_of_ne_zero (Nat.ne_zero_of_lt hfits)
    have hfirst : m.read1b .primary addr = 0 := by simpa using htext 0 0 rfl
    rw [readPath, m.read_one, hfirst]
    rfl
  | cons b rest ih =>
    obtain ⟨size, rfl⟩ := Nat.exists_eq_succ_of_ne_zero (Nat.ne_zero_of_lt hfits)
    rw [List.mem_cons, not_or] at hnul
    rw [List.length_cons] at hfits
    have hfirst : m.read1b .primary addr = b := by simpa using htext 0 b rfl
    have hbytes : BytesAt (m.read1b .primary) addr ([b] ++ (rest ++ [0])) := htext
    have hrest : readPath m.read (addr + 1) size = some rest :=
      ih hbytes.right hnul.2 (by omega)
    have hbyte : (bytesWord [b]).setWidth 8 = b := by simp [bytesWord]
    unfold readPath
    dsimp only
    rw [m.read_one, hfirst, hbyte, if_neg (Ne.symm hnul.1), hrest, Option.map_some]

/-- UTF-8 makes a NUL of nothing else. -/
theorem MakeArgs.zero_notMem_encode {arg : List Char} (hnul : '\x00' ∉ arg) : 0 ∉ encode arg := by
  intro hmem
  obtain ⟨c, hc, hb⟩ := List.mem_flatMap.mp hmem
  obtain ⟨b, hb, hzero⟩ := List.mem_map.mp hb
  have hbyte : b.toNat = 0 := congrArg BitVec.toNat hzero
  have hchar : c.toNat = 0 := by
    unfold String.utf8EncodeChar at hb
    dsimp only at hb
    -- every byte of a longer sequence has its highest bit set
    split_ifs at hb <;> simp only [List.mem_cons, List.not_mem_nil, or_false] at hb
    · rw [hb, UInt8.toNat_ofNat'] at hbyte
      change c.val.toNat = 0
      omega
    · rcases hb with rfl | rfl <;> rw [UInt8.toNat_ofNat'] at hbyte <;> omega
    · rcases hb with rfl | rfl | rfl <;> rw [UInt8.toNat_ofNat'] at hbyte <;> omega
    · rcases hb with rfl | rfl | rfl | rfl <;> rw [UInt8.toNat_ofNat'] at hbyte <;> omega
  rw [show c = '\x00' from Char.toNat_inj.mp hchar] at hc
  exact hnul hc

/-! The layout of the image. -/

/-- What a program finds at its stack pointer: the number of its arguments, a pointer to each and
a null pointer, and at each pointer a text that ends with a NUL. -/
structure ArgumentVector (byte : Word → Byte) (sp : Word) (ptrs : List Word)
    (argv : List (List Byte)) : Prop where
  table : BytesAt byte sp
    ((BitVec.ofNat 32 argv.length :: (ptrs ++ [0])).flatMap wordBytes)
  texts : List.Forall₂ (fun ptr text => BytesAt byte ptr (text ++ [0])) ptrs argv

/-- The texts of the arguments lie at the pointers. -/
theorem MakeArgs.forall₂_pointers {byte : Word → Byte} {addr : ℕ} {argv : List (List Char)}
    (h : BytesAt byte (BitVec.ofNat 32 addr) (argv.flatMap argData)) :
    List.Forall₂ (fun ptr text => BytesAt byte ptr (text ++ [0]))
      ((pointers addr argv).map (BitVec.ofNat 32)) (argv.map encode) := by
  induction argv generalizing addr with
  | nil => exact .nil
  | cons arg rest ih =>
    obtain ⟨pad, hdata⟩ := argData_eq arg
    rw [List.flatMap_cons] at h
    have hright := h.right
    rw [← BitVec.ofNat_add] at hright
    have hleft := h.left
    rw [hdata] at hleft
    exact .cons hleft.left (ih hright)

/-- An image in memory is an argument vector. -/
theorem MakeArgs.argumentVector {byte : Word → Byte} {argv : List (List Char)} {spBase : ℕ}
    (h : BytesAt byte (BitVec.ofNat 32 spBase) (image spBase argv)) :
    ArgumentVector byte (BitVec.ofNat 32 spBase)
      ((pointers (spBase + 4 * (argv.length + 2)) argv).map (BitVec.ofNat 32))
      (argv.map encode) := by
  have htexts := h.right
  rw [length_table, ← BitVec.ofNat_add] at htexts
  refine ⟨?_, forall₂_pointers htexts.left⟩
  have htable := h.left
  have hwords : (table spBase argv).flatMap packed =
      ((table spBase argv).map (BitVec.ofNat 32)).flatMap wordBytes := by
    rw [List.flatMap_map]
    rfl
  rw [hwords, table] at htable
  simpa using htable

/-! The way into memory. -/

/-- Public writes keep the views equal. -/
theorem Memory.view_loadSections_agent {n : ℕ} {m : Memory n} {a : Agent n}
    (ha : m.view a = m.view none) (sections : List Section) :
    (m.loadSections sections).view a = (m.loadSections sections).view none := by
  refine List.foldlRecOn (motive := fun c : Memory n => c.view a = c.view none) sections
    Memory.loadSection ha ?_
  intro m hm s _
  refine List.foldlRecOn (motive := fun c : Memory n => c.view a = c.view none)
    (List.range (s.length.toNat / 4)) _ hm ?_
  intro m hm i _
  rw [view_write _ _ _ _ hm, view_write _ _ _ _ rfl, hm]

/-- All cores see the image at the start of a main loop. -/
theorem view_boot {n : ℕ} {β : Type} (instif : CoreInstructionIF) (memif : CoreMemoryIF)
    (reps : Fin n → Core β) (ifPrim : CoreMemoryIF) (ifReps : Fin n → CoreMemoryIF)
    (sections : List Section) (brkAddr : Word) (a : Agent n) :
    let m := (boot instif memif reps ifPrim ifReps sections brkAddr).mem
    m.view a = m.view none := by
  apply Memory.view_loadSections_agent
  rw [Memory.view_new_agent, Memory.view_new_agent]

section Loaded

variable {binFile dumpFile spFile : String} {files : LoaderFiles} {ld : Loader}
  (hnew : Loader.new binFile dumpFile spFile files = some ld) (hvalid : ld.valid = true)
  {bin : List Byte} {dump : List Char} (hbin : files.bin = some bin)
  (hdump : files.dump = some dump) {mem : List Byte} (hsp : files.sp = some (writeArgs mem))

include hnew hvalid hbin hdump hsp

/-- The image of a stack file that the script wrote lies at the stack pointer, for every core. -/
theorem bytesAt_stack (hwhole : mem.length % 4 = 0)
    (hfits : initialSp.toNat + mem.length ≤ 4 * memWords.toNat) {n : ℕ} {β : Type}
    (instif : CoreInstructionIF) (memif : CoreMemoryIF) (reps : Fin n → Core β)
    (ifPrim : CoreMemoryIF) (ifReps : Fin n → CoreMemoryIF) (a : Agent n) :
    BytesAt ((boot instif memif reps ifPrim ifReps ld.sections ld.brkAddr).mem.read1b a.id)
      initialSp mem := by
  intro d b hd
  have hagree := agree_boot instif memif reps ifPrim ifReps ld.sections ld.brkAddr
  have hview := view_boot instif memif reps ifPrim ifReps ld.sections ld.brkAddr a
  dsimp only at hagree hview
  have hbytes := Loader.flatMap_imageWords hwhole
  rw [← Loader.stackWords_writeArgs hwhole] at hbytes
  have hcount := Loader.length_stackWords hwhole
  obtain ⟨hlt, hb⟩ := List.getElem?_eq_some_iff.mp hd
  have hsplit : 4 * (d / 4) + d % 4 = d := Nat.div_add_mod d 4
  have hj : d / 4 < (Loader.stackWords (writeArgs mem)).length := by omega
  have hlane : d % 4 < 4 := Nat.mod_lt _ (by decide)
  have hstack := Loader.loadBytes_stack hnew hvalid hbin hdump hsp (fun _ => 0) (by omega) hj hlane
  have hword := getElem?_flatMap_wordBytes (Loader.stackWords (writeArgs mem)) (d / 4) hlane
  rw [hsplit] at hstack hword
  rw [hbytes, hd, List.getElem?_eq_getElem hj, Option.bind_some,
    List.getElem?_eq_getElem hlane] at hword
  rw [Memory.read1b_eq_getByte, hview, hagree.2.getByte, hstack]
  exact (Option.some.inj hword).symm

end Loaded

/-- A loader is valid when it finds `_start`, a binary whose size is an `int` and a stack image of
at least four words. -/
theorem Loader.exists_valid (binFile dumpFile spFile : String) {bin : List Byte}
    {dump sp : List Char} (hbin : bin.length < 2 ^ 31) (hstart : startAddr dump ≠ 0)
    (hfew : 4 ≤ (stackWords sp).length) (hmany : (stackWords sp).length < 2 ^ 29) :
    ∃ ld, new binFile dumpFile spFile ⟨none, some bin, some dump, some sp⟩ = some ld ∧
      ld.valid = true := by
  have hsize : BitVec.ofNat 32 bin.length ≠ -1 := by
    intro heq
    have hnat := congrArg BitVec.toNat heq
    rw [BitVec.toNat_ofNat, Nat.mod_eq_of_lt (by omega)] at hnat
    change bin.length = 2 ^ 32 - 1 at hnat
    omega
  have hsign : (binSize bin).msb = false := by
    rw [BitVec.msb_eq_false_iff_two_mul_lt, toNat_binSize]
    omega
  rw [new]
  dsimp only
  rw [if_neg hsize, if_neg hstart, if_neg (by omega), if_neg (by omega), hsign]
  exact ⟨_, rfl, rfl⟩

/-- The loader accepts every image that the script makes and that fits into the memory. -/
theorem Loader.exists_valid_image (binFile dumpFile spFile : String) {argv : List (List Char)}
    (hargv : argv ≠ []) (hfits : spBase + imageSize argv ≤ 4 * memWords.toNat) {bin : List Byte}
    {dump : List Char} (hbin : bin.length < 2 ^ 31) (hstart : startAddr dump ≠ 0) :
    ∃ ld, new binFile dumpFile spFile
        ⟨none, some bin, some dump, some (writeArgs (image spBase argv))⟩ = some ld ∧
      ld.valid = true := by
  have hmemory : 4 * memWords.toNat = 2 ^ 21 := rfl
  have hlength := length_image spBase argv
  have hwhole : (image spBase argv).length % 4 = 0 := by rw [hlength, imageSize_mod]
  have hcount := length_stackWords hwhole
  have hmore : 16 ≤ imageSize argv := by
    have hpos := List.length_pos_of_ne_nil hargv
    rw [imageSize]
    omega
  exact exists_valid _ _ _ hbin hstart (by omega) (by omega)

/-- Every command line whose image fits into the memory arrives at the program. The script makes an
image that the loader accepts; when the loader is valid, all cores see at the initial stack pointer
the number of arguments, a pointer to each and a null pointer, and at the pointers the arguments in
UTF-8; and a system call that gets such a pointer as a path copies the argument, unless it holds a
NUL or is too long for the buffer. -/
theorem arguments_arrive (argStr : List Char)
    (hfits : spBase + imageSize (argStr.splitOn ' ') ≤ 4 * memWords.toNat) :
    ∃ mem, genArgs argStr spBase = some mem ∧
      ∀ (binFile dumpFile spFile : String) (bin : List Byte) (dump : List Char),
        let loaded := Loader.new binFile dumpFile spFile
          ⟨none, some bin, some dump, some (writeArgs mem)⟩
        (bin.length < 2 ^ 31 → Loader.startAddr dump ≠ 0 →
          ∃ ld, loaded = some ld ∧ ld.valid = true) ∧
        ∀ ld, loaded = some ld → ld.valid = true →
          ∀ {n : ℕ} {β : Type} (instif : CoreInstructionIF) (memif : CoreMemoryIF)
            (reps : Fin n → Core β) (ifPrim : CoreMemoryIF) (ifReps : Fin n → CoreMemoryIF),
            let M := boot instif memif reps ifPrim ifReps ld.sections ld.brkAddr
            let argv := argStr.splitOn ' '
            ∃ ptrs : List Word,
              (∀ a : Agent n, ArgumentVector (M.mem.read1b a.id)
                (M.prim.self.reg regSp) ptrs (argv.map encode)) ∧
              List.Forall₂ (fun ptr arg => '\x00' ∉ arg →
                (encode arg).length < SysCall.simPathMax →
                SysCall.readPath M.mem.read ptr SysCall.simPathMax = some (encode arg))
                ptrs argv := by
  have hmemory : 4 * memWords.toNat = 2 ^ 21 := rfl
  rw [hmemory] at hfits
  refine ⟨_, genArgs_eq argStr spBase (by omega), ?_⟩
  intro binFile dumpFile spFile bin dump loaded
  have hlength := length_image spBase (argStr.splitOn ' ')
  have hwhole : (image spBase (argStr.splitOn ' ')).length % 4 = 0 := by
    rw [hlength, imageSize_mod]
  constructor
  · intro hbin hstart
    exact Loader.exists_valid_image _ _ _ (List.splitOn_ne_nil ' ' argStr) hfits hbin hstart
  · intro ld hnew hvalid n β instif memif reps ifPrim ifReps M argv
    have himage : ∀ a : Agent n, BytesAt (M.mem.read1b a.id) (BitVec.ofNat 32 spBase)
        (image spBase argv) :=
      bytesAt_stack hnew hvalid rfl rfl rfl hwhole (by rw [hmemory, hlength]; exact hfits) instif
        memif reps ifPrim ifReps
    have hvector := fun a => argumentVector (himage a)
    refine ⟨_, hvector, ?_⟩
    have htexts := (hvector none).texts
    rw [List.forall₂_map_right_iff] at htexts
    refine htexts.imp fun ptr arg htext hnul hshort => ?_
    exact SysCall.readPath_eq_some _ htext (zero_notMem_encode hnul) hshort

/-- A binary with one argument is started with its path and the argument. -/
theorem hello_arrives :
    let zero : CoreInstructionIF := ⟨0, 0, 0, 0, 0, 0, 0, 0, 0⟩
    let memif : CoreMemoryIF := ⟨0, 0, 0, 0, 0, 0, 0, 0, 0⟩
    ∃ mem ld, genArgs (commandLine "hello".toList "in.txt".toList) spBase = some mem ∧
      Loader.new "hello.bin" "hello.dump" "hello_sp.txt" ⟨none, some [0x13, 0, 0, 0],
        some "00010008 <_start>:\n".toList, some (writeArgs mem)⟩ = some ld ∧
      ∃ ptrs, ArgumentVector ((boot zero memif (Fin.elim0 : Fin 0 → Core FunctionalState) memif
          Fin.elim0 ld.sections ld.brkAddr).mem.read1b .primary)
        initialSp ptrs [encode "./hello".toList, encode "in.txt".toList] := by
  intro zero memif
  have hargv : (commandLine "hello".toList "in.txt".toList).splitOn ' ' =
      ["./hello".toList, "in.txt".toList] := by
    rw [splitOn_commandLine (by decide)]
    decide
  have hsize : imageSize ["./hello".toList, "in.txt".toList] = 36 := by
    rw [imageSize, List.flatMap_cons, List.flatMap_singleton, List.length_append, length_argData,
      length_argData]
    decide
  obtain ⟨mem, hmem, hload⟩ := arguments_arrive (commandLine "hello".toList "in.txt".toList)
    (by rw [hargv, hsize]; decide)
  obtain ⟨hvalid, hloaded⟩ := hload "hello.bin" "hello.dump" "hello_sp.txt" [0x13, 0, 0, 0]
    "00010008 <_start>:\n".toList
  obtain ⟨ld, hnew, hld⟩ := hvalid (by decide) (by decide)
  obtain ⟨ptrs, hvector, -⟩ := hloaded ld hnew hld zero memif
    (Fin.elim0 : Fin 0 → Core FunctionalState) memif Fin.elim0
  have hprimary := hvector none
  rw [hargv] at hprimary
  exact ⟨mem, ld, hmem, hnew, ptrs, hprimary⟩

end VeriCross
