import VeriCross.Loader.Model
import VeriCross.Memory.Words

/-!
# The image in memory

`main` writes the sections of the loader word by word with public writes, whose addresses need
not be aligned. On the byte array of the primary core this stores the bytes of one section after
the other. The stack and, of the binary, all whole words arrive in memory when the sections do
not overlap; the one to three bytes after the last whole word are dropped.
-/

namespace VeriCross

open PrivateMemory

variable {numReps : ℕ} {k : ℕ}

/-! Words and bytes of a section. -/

/-- The bytes of whole words are those of the file. -/
theorem Loader.flatMap_imageWords {bytes : List Byte} (hwhole : bytes.length % 4 = 0) :
    (imageWords bytes).flatMap wordBytes = bytes := by
  fun_induction imageWords bytes with
  | case1 b0 b1 b2 b3 rest ih =>
    have hrest : rest.length % 4 = 0 := by
      simp only [List.length_cons] at hwhole
      omega
    rw [List.flatMap_cons, ih hrest, wordBytes_bytesWord]
    rfl
  | case2 bytes hshort =>
    match bytes, hwhole, hshort with
    | [], _, _ => rfl
    | b0 :: b1 :: b2 :: b3 :: rest, _, hshort => exact absurd rfl (hshort b0 b1 b2 b3 rest)

/-- The bytes that the loop over a section writes. -/
def Section.bytes (s : Section) : List Byte :=
  (List.range (s.length.toNat / 4)).flatMap fun i => wordBytes (s.data.getD i 0)

/-- A section whose length fits its data has the bytes of its words. -/
theorem Section.bytes_eq {s : Section} (hfits : s.length.toNat = 4 * s.data.length) :
    s.bytes = s.data.flatMap wordBytes := by
  have hcount : s.length.toNat / 4 = s.data.length := by omega
  have hdata : (List.range s.data.length).map (fun i => s.data.getD i 0) = s.data := by
    apply List.ext_getElem
    · simp
    · intro i hi hi'
      simp [hi']
  rw [bytes, hcount]
  conv_rhs => rw [← hdata, List.flatMap_map]

/-! Writing the sections. -/

/-- The first words of a section are stored as their bytes. -/
theorem Memory.agree_loadWords {m : Memory numReps} (hnw : m.nwords.toNat = 2 ^ k)
    {bytes : ℕ → Byte} (h : Agree k m.nwords (m.view none) bytes) (s : Section) (count : ℕ) :
    let loaded := (List.range count).foldl
      (fun m i => m.write (s.addr + BitVec.ofNat 32 (i * 4)) (wordBytes (s.data.getD i 0))) m
    loaded.nwords = m.nwords ∧
      Agree k m.nwords (loaded.view none) (storeBytes k bytes s.addr
        ((List.range count).flatMap fun i => wordBytes (s.data.getD i 0))) := by
  -- the induction is on the number of words: each is written after the ones before it
  induction count with
  | zero => exact ⟨rfl, h⟩
  | succ count ih =>
    obtain ⟨hwords, hagree⟩ := ih
    have hlength : ((List.range count).flatMap fun i => wordBytes (s.data.getD i 0)).length =
        count * 4 := by
      rw [← List.flatMap_map (f := fun i => s.data.getD i 0), length_flatMap_wordBytes,
        List.length_map, List.length_range, Nat.mul_comm]
    dsimp only
    rw [List.range_succ, List.foldl_append, List.foldl_cons, List.foldl_nil, List.flatMap_append,
      List.flatMap_singleton, storeBytes_append, hlength]
    refine ⟨by rw [nwords_write, hwords], ?_⟩
    rw [view_write _ _ _ _ rfl, hwords]
    exact hagree.put hnw _ _

/-- A section is stored as its bytes. -/
theorem Memory.agree_loadSection {m : Memory numReps} (hnw : m.nwords.toNat = 2 ^ k)
    {bytes : ℕ → Byte} (h : Agree k m.nwords (m.view none) bytes) (s : Section) :
    (m.loadSection s).nwords = m.nwords ∧
      Agree k m.nwords ((m.loadSection s).view none) (storeBytes k bytes s.addr s.bytes) :=
  agree_loadWords hnw h s _

/-- The bytes of the memory after the sections have been stored one after the other. -/
def loadBytes (k : ℕ) (bytes : ℕ → Byte) (sections : List Section) : ℕ → Byte :=
  sections.foldl (fun bytes s => storeBytes k bytes s.addr s.bytes) bytes

/-- The sections are stored as their bytes, in order. -/
theorem Memory.agree_loadSections {m : Memory numReps} (hnw : m.nwords.toNat = 2 ^ k)
    {bytes : ℕ → Byte} (h : Agree k m.nwords (m.view none) bytes) (sections : List Section) :
    (m.loadSections sections).nwords = m.nwords ∧
      Agree k m.nwords ((m.loadSections sections).view none) (loadBytes k bytes sections) := by
  induction sections generalizing m bytes with
  | nil => exact ⟨rfl, h⟩
  | cons s rest ih =>
    obtain ⟨hwords, hagree⟩ := agree_loadSection hnw h s
    rw [← hwords] at hnw hagree
    have hrest := ih hnw hagree
    rw [hwords] at hrest
    exact hrest

/-- The memory at the start of a main loop has the bytes of the sections in a memory of zeros. -/
theorem agree_boot {β : Type} (instif : CoreInstructionIF) (memif : CoreMemoryIF)
    (reps : Fin numReps → Core β) (ifPrim : CoreMemoryIF) (ifReps : Fin numReps → CoreMemoryIF)
    (sections : List Section) (brkAddr : Word) :
    let m := (boot instif memif reps ifPrim ifReps sections brkAddr).mem
    m.nwords = memWords ∧
      Agree 19 m.nwords (m.view none) (loadBytes 19 (fun _ => 0) sections) := by
  have hnew : Refines 19 (Memory.new ifPrim ifReps memWords) _ := Refines.new rfl ifPrim ifReps
  obtain ⟨hwords, hagree⟩ := Memory.agree_loadSections hnew.nwords (hnew.agree none) sections
  dsimp only
  refine ⟨hwords, ?_⟩
  rw [show (boot instif memif reps ifPrim ifReps sections brkAddr).mem.nwords = memWords
    from hwords]
  exact hagree

/-! The sections of a valid loader. -/

/-- The loaded size is that of the file, as an `int`, without its last partial word. -/
theorem Loader.toNat_binSize (bin : List Byte) :
    (binSize bin).toNat = bin.length % 2 ^ 32 - bin.length % 4 := by
  have hcut := BitFields.toNat_and_not_low (BitVec.ofNat 32 bin.length) 2
  rw [BitVec.toNat_ofNat] at hcut
  rw [binSize]
  exact hcut.trans (by omega)

/-- Ranges that lie apart in the memory have no byte in common. -/
theorem not_covers_of_apart (hk : k ≤ 30) (addr addr' : Word) (size d : ℕ)
    (hin : addr.toNat + size ≤ 4 * 2 ^ k) (hin' : addr'.toNat + d < 4 * 2 ^ k)
    (hapart : addr.toNat + size ≤ addr'.toNat + d ∨ addr'.toNat + d < addr.toNat) :
    ¬Covers (byteCell k) addr size (byteCell k (addr' + BitVec.ofNat 32 d)) := by
  rintro ⟨e, he, hsame⟩
  rw [byteCell_add_ofNat hk, byteCell_add_ofNat hk, Nat.mod_eq_of_lt (by omega),
    Nat.mod_eq_of_lt hin'] at hsame
  omega

section Valid

variable {binFile dumpFile spFile : String} {files : LoaderFiles} {ld : Loader}
  (hnew : Loader.new binFile dumpFile spFile files = some ld) (hvalid : ld.valid = true)
  {bin : List Byte} {dump sp : List Char} (hbin : files.bin = some bin)
  (hdump : files.dump = some dump) (hsp : files.sp = some sp) (bytes : ℕ → Byte)

include hnew hvalid hbin hdump hsp

/-- The bytes that `main` writes for a valid loader: the whole words of the binary, the stack
and the jump. -/
theorem Loader.loadBytes_new :
    loadBytes k bytes ld.sections =
      storeBytes k
        (storeBytes k
          (storeBytes k bytes (textAddr dump) (bin.take (binSize bin).toNat))
          initialSp ((stackWords sp).flatMap wordBytes))
        initialPc (wordBytes (makeJal (startAddr dump - initialPc))) := by
  obtain ⟨-, hsmall, hsections, -⟩ := new_valid hnew hvalid hbin hdump hsp
  have hsize := toNat_binSize bin
  have htake : (bin.take (binSize bin).toNat).length = (binSize bin).toNat := by
    rw [List.length_take]
    omega
  have himage : (imageWords (bin.take (binSize bin).toNat)).flatMap wordBytes =
      bin.take (binSize bin).toNat := flatMap_imageWords (by omega)
  have hcount := congrArg List.length himage
  rw [length_flatMap_wordBytes, htake] at hcount
  have hstack : (BitVec.ofNat 32 (4 * (stackWords sp).length)).toNat =
      4 * (stackWords sp).length := by
    rw [BitVec.toNat_ofNat]
    omega
  rw [hsections, loadBytes, List.foldl_cons, List.foldl_cons, List.foldl_cons, List.foldl_nil,
    Section.bytes_eq hcount.symm, Section.bytes_eq hstack,
    Section.bytes_eq (s := ⟨initialPc, 4, _⟩) rfl, himage, List.flatMap_singleton]

/-- Every byte of a whole word of the binary arrives when the binary lies between the jump and the
stack. -/
theorem Loader.loadBytes_image
    (hlow : initialPc.toNat + 4 ≤ (textAddr dump).toNat)
    (hhigh : (textAddr dump).toNat + (binSize bin).toNat ≤ initialSp.toNat)
    (hstack : initialSp.toNat + 4 * (stackWords sp).length ≤ 4 * memWords.toNat)
    {i : ℕ} (hi : i < (binSize bin).toNat) (hi' : i < bin.length) :
    loadBytes 19 bytes ld.sections (byteCell 19 (textAddr dump + BitVec.ofNat 32 i)) = bin[i] := by
  have hcount := length_flatMap_wordBytes (stackWords sp)
  have hpc : initialPc.toNat = 0x10000 := rfl
  have hspAddr : initialSp.toNat = 0x1e6400 := rfl
  have hwords : memWords.toNat = 2 ^ 19 := rfl
  rw [hspAddr] at hhigh hstack
  rw [hpc] at hlow
  rw [hwords] at hstack
  -- neither the jump nor the stack covers the binary
  have hjump := not_covers_of_apart (k := 19) (by decide) initialPc (textAddr dump) 4 i
    (by omega) (by omega) (by omega)
  have hstack' := not_covers_of_apart (k := 19) (by decide) initialSp (textAddr dump)
    ((stackWords sp).flatMap wordBytes).length i (by omega) (by omega) (by omega)
  have htake : i < (bin.take (binSize bin).toNat).length := by
    rw [List.length_take]
    omega
  have hfits : (bin.take (binSize bin).toNat).length ≤ 4 * 2 ^ 19 := by
    rw [List.length_take]
    omega
  rw [loadBytes_new hnew hvalid hbin hdump hsp, storeBytes_of_not_covers hjump,
    storeBytes_of_not_covers hstack', storeBytes_getElem (by decide) hfits htake, List.getElem_take]

/-- Every byte of the stack arrives when the stack lies inside the memory. -/
theorem Loader.loadBytes_stack
    (hstack : initialSp.toNat + 4 * (stackWords sp).length ≤ 4 * memWords.toNat)
    {j e : ℕ} (hj : j < (stackWords sp).length) (he : e < (wordBytes (stackWords sp)[j]).length) :
    loadBytes 19 bytes ld.sections (byteCell 19 (initialSp + BitVec.ofNat 32 (4 * j + e))) =
      (wordBytes (stackWords sp)[j])[e] := by
  have hcount := length_flatMap_wordBytes (stackWords sp)
  have hlane : e < 4 := he
  have hpc : initialPc.toNat = 0x10000 := rfl
  have hspAddr : initialSp.toNat = 0x1e6400 := rfl
  have hwords : memWords.toNat = 2 ^ 19 := rfl
  rw [hspAddr, hwords] at hstack
  have hjump := not_covers_of_apart (k := 19) (by decide) initialPc initialSp 4 (4 * j + e)
    (by omega) (by omega) (by omega)
  have hbyte := getElem?_flatMap_wordBytes (stackWords sp) j hlane
  rw [List.getElem?_eq_getElem hj, Option.bind_some, List.getElem?_eq_getElem he,
    List.getElem?_eq_getElem (by omega), Option.some_inj] at hbyte
  rw [loadBytes_new hnew hvalid hbin hdump hsp, storeBytes_of_not_covers hjump,
    storeBytes_getElem (by decide) (by omega) (by omega), hbyte]

end Valid

/-! The whole image. -/

/-- The memory holds every byte of the binary and every word of the stack, and the heap starts
after the binary. -/
structure ImageComplete (m : Memory numReps) (ld : Loader) (bin : List Byte) (textAddr : Word)
    (stack : List Word) : Prop where
  image : ∀ i (hi : i < bin.length), m.read (textAddr + BitVec.ofNat 32 i) 1 = [bin[i]]
  stack : ∀ j (hj : j < stack.length),
    m.read (initialSp + BitVec.ofNat 32 (4 * j)) 4 = wordBytes stack[j]
  brk : textAddr.toNat + bin.length ≤ ld.brkAddr.toNat

/-- After the initialization the memory holds the whole image exactly when the size of the binary
is a multiple of four. -/
theorem imageComplete_iff {β : Type} (binFile dumpFile spFile : String) (files : LoaderFiles)
    {ld : Loader} (hnew : Loader.new binFile dumpFile spFile files = some ld)
    (hvalid : ld.valid = true) {bin : List Byte} {dump sp : List Char}
    (hbin : files.bin = some bin) (hdump : files.dump = some dump) (hsp : files.sp = some sp)
    (hlow : initialPc.toNat + 4 ≤ (Loader.textAddr dump).toNat)
    (hhigh : (Loader.textAddr dump).toNat + bin.length ≤ initialSp.toNat)
    (hstack : initialSp.toNat + 4 * (Loader.stackWords sp).length ≤ 4 * memWords.toNat)
    (instif : CoreInstructionIF) (memif : CoreMemoryIF) (reps : Fin numReps → Core β)
    (ifPrim : CoreMemoryIF) (ifReps : Fin numReps → CoreMemoryIF) :
    ImageComplete (boot instif memif reps ifPrim ifReps ld.sections ld.brkAddr).mem ld bin
        (Loader.textAddr dump) (Loader.stackWords sp) ↔
      bin.length % 4 = 0 := by
  obtain ⟨-, -, -, hbrk⟩ := Loader.new_valid hnew hvalid hbin hdump hsp
  have hsize := Loader.toNat_binSize bin
  have hspAddr : initialSp.toNat = 0x1e6400 := rfl
  constructor
  · intro h
    have hheap := h.brk
    rw [hbrk, BitVec.toNat_add] at hheap
    omega
  · intro hwhole
    obtain ⟨-, hagree⟩ := agree_boot instif memif reps ifPrim ifReps ld.sections ld.brkAddr
    generalize (boot instif memif reps ifPrim ifReps ld.sections ld.brkAddr).mem = m at hagree
    refine ⟨fun i hi => ?_, fun j hj => ?_, ?_⟩
    · refine Memory.read_of_bytes hagree _ [bin[i]] fun e he => ?_
      have hzero : e = 0 := Nat.lt_one_iff.mp he
      subst hzero
      rw [BitVec.add_zero]
      exact Loader.loadBytes_image hnew hvalid hbin hdump hsp _ hlow (by omega) hstack (by omega) hi
    · refine Memory.read_of_bytes hagree _ (wordBytes (Loader.stackWords sp)[j]) fun e he => ?_
      have hsum : initialSp + BitVec.ofNat 32 (4 * j) + BitVec.ofNat 32 e =
        initialSp + BitVec.ofNat 32 (4 * j + e) := by bv_omega
      rw [hsum]
      exact Loader.loadBytes_stack hnew hvalid hbin hdump hsp _ hstack hj he
    · rw [hbrk, BitVec.toNat_add]
      omega

/-- A binary of one word with its stack image is in memory after the initialization. -/
theorem word_complete :
    let bin : List Byte := [0x6f, 0, 0, 0]
    let dump := "00010010 <_start>:\n".toList
    let sp := "00000001\n001e6410\n00000000\n00000000\n".toList
    let files : LoaderFiles := ⟨none, some bin, some dump, some sp⟩
    let idle : CoreMemoryIF := ⟨0, 0, 0, 0, 0, 0, 0, 0, 0⟩
    let reps : Fin 0 → Core Unit := Fin.elim0
    ∃ ld, Loader.new "a.bin" "a.objdump" "a_sp.txt" files = some ld ∧
      ImageComplete (boot ⟨0, 0, 0, 0, 0, 0, 0, 0, 0⟩ idle reps idle Fin.elim0
        ld.sections ld.brkAddr).mem ld bin (Loader.textAddr dump) (Loader.stackWords sp) :=
  ⟨_, rfl, (imageComplete_iff "a.bin" "a.objdump" "a_sp.txt" ⟨none, some _, some _, some _⟩
    rfl rfl rfl rfl rfl (by decide) (by decide) (by decide) _ _ _ _ _).mpr (by decide)⟩

/-- A binary of five bytes is cut to four, and the heap starts at its last byte. -/
theorem fifth_byte_dropped :
    let bin : List Byte := [0x6f, 0, 0, 0, 7]
    let dump := "00010010 <_start>:\n".toList
    let sp := "00000001\n001e6410\n00000000\n00000000\n".toList
    let files : LoaderFiles := ⟨none, some bin, some dump, some sp⟩
    let idle : CoreMemoryIF := ⟨0, 0, 0, 0, 0, 0, 0, 0, 0⟩
    let reps : Fin 0 → Core Unit := Fin.elim0
    ∃ ld, Loader.new "a.bin" "a.objdump" "a_sp.txt" files = some ld ∧ ld.valid = true ∧
      Loader.textAddr dump = 0x00010010 ∧ Loader.stackWords sp = [1, 0x001e6410, 0, 0] ∧
      ¬ImageComplete (boot ⟨0, 0, 0, 0, 0, 0, 0, 0, 0⟩ idle reps idle Fin.elim0
        ld.sections ld.brkAddr).mem ld bin (Loader.textAddr dump) (Loader.stackWords sp) :=
  ⟨_, rfl, rfl, by decide, by decide, fun h => absurd (h.image 4 (by decide)) (by decide +kernel)⟩

end VeriCross
