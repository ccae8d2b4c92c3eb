import VeriCross.Library.KnownFile
import VeriCross.Memory.Words
import VeriCross.SysCall.FilePosition

/-!
# The contents of a file

The program knows a part of each open file from its own calls. As long as nothing else moves or
changes the file, this part is right over any sequence of calls, and a read at a known position puts
the known bytes into the memory of every core: what was written is read back.
-/

namespace VeriCross

open RiscV SysCall

variable {n : ℕ} {α β : Type}

/-- Data that fits into the memory is found by every core where a public write puts it. -/
theorem Memory.read1b_write {k : ℕ} (m : Memory n) (hk : k ≤ 30) (hnw : m.nwords.toNat = 2 ^ k)
    (addr : Word) {data : List Byte} (hfits : data.length ≤ 4 * 2 ^ k) (a : Agent n) {i : ℕ}
    (hi : i < data.length) :
    (m.write addr data).read1b a.id (addr + BitVec.ofNat 32 i) = data[i] := by
  rw [write]
  split
  · next haligned =>
    rw [m.read1b_writeWords hnw haligned.1 haligned.2, storeBytes_getElem hk hfits]
  · rw [m.read1b_writeBytes hnw, storeBytes_getElem hk hfits]

/-- The host keeps the bytes of a file under a descriptor: a call that fails leaves the file as it
is and sets an error number, a seek returns the new position, and a transfer moves at most as many
bytes as `int` can count. -/
structure Host.Stores (host : Host) (fd : Word) (file : List HostCall → StoredFile Byte) :
    Prop where
  failed : ∀ calls c, c.Moves fd → (host (calls ++ [c])).ret.toInt < 0 →
    (host (calls ++ [c])).ret.toInt = -1 ∧ 0 < (host (calls ++ [c])).errno.toInt ∧
      file (calls ++ [c]) = file calls
  seek : ∀ calls offset whence, 0 ≤ (host (calls ++ [.lseek fd offset whence])).ret.toInt →
    file (calls ++ [.lseek fd offset whence]) =
      { file calls with position := (host (calls ++ [.lseek fd offset whence])).ret.toNat }
  read : ∀ calls count, 0 ≤ (host (calls ++ [.read fd count])).ret.toInt →
    let r := host (calls ++ [.read fd count])
    r.ret.toInt < 2 ^ 31 ∧
      file (calls ++ [.read fd count]) =
        { file calls with position := (file calls).position + r.ret.toNat } ∧
      ∀ i < r.ret.toNat, r.data i = (file calls).content ((file calls).position + i)
  write : ∀ calls data count, 0 ≤ (host (calls ++ [.write fd data count])).ret.toInt →
    let r := host (calls ++ [.write fd data count])
    r.ret.toInt < 2 ^ 31 ∧
      (file calls).Written data r.ret.toNat (file (calls ++ [.write fd data count]))

/-- A result that fits is returned as it is. -/
theorem HostReply.result_of_nonneg {r : HostReply} (hpos : 0 ≤ r.ret.toInt)
    (hfits : r.ret.toInt < 2 ^ 31) :
    0 ≤ r.result.toInt ∧ r.result.toNat = r.ret.toNat ∧ r.int = r.result := by
  have hret := BitVec.toInt_eq_toNat_cond r.ret
  have hnat : r.ret.toNat < 2 ^ 31 := by
    split at hret <;> omega
  have hresult : r.result.toNat = r.ret.toNat := by
    rw [result_of_fits hpos hfits, BitVec.toNat_ofNat]
    omega
  refine ⟨?_, hresult, ?_⟩
  · rw [BitVec.toInt_eq_toNat_of_lt (by omega)]
    exact Int.natCast_nonneg _
  · apply BitVec.eq_of_toNat_eq
    rw [hresult, int, BitVec.toNat_setWidth, Nat.mod_eq_of_lt (by omega)]

/-- After a failure a negative value is returned. -/
theorem HostReply.result_neg {r : HostReply} (h : r.ret.toInt = -1) (herrno : 0 < r.errno.toInt) :
    r.result.toInt < 0 := by
  rw [result_of_failed h]
  have hcond := BitVec.toInt_eq_toNat_cond r.errno
  have hneg := BitVec.toInt_eq_toNat_cond (-r.errno)
  rw [BitVec.toNat_neg] at hneg
  split at hcond <;> split at hneg <;> omega

namespace DescriptorState

/-- What the program knows of the file of a number after a call that returned a value. -/
def learns (P : RegisterMethods α) (number : Word) (f : KnownFile Byte) (ctx : CallContext n α β)
    (ret : Word) : KnownFile Byte :=
  if P.readReg ctx.prim regA0 ≠ number ∨ ret.toInt < 0 then f
  else if P.readReg ctx.prim regA7 = scLseek then f.seek ret.toNat
  else if P.readReg ctx.prim regA7 = scRead then f.read ret.toNat
  else if P.readReg ctx.prim regA7 = scWrite then
    f.write (ctx.mem.read (P.readReg ctx.prim regA1) (P.readReg ctx.prim regA2).toInt) ret.toNat
  else f

section Knows

variable (n : ℕ) (host : Host) (P : RegisterMethods α) (R : RegisterMethods β) (number fd : Word)
  (file : List HostCall → StoredFile Byte)

variable {n} in
/-- No open gives the number to another file, only the seeks and transfers under the number move or
change the file, and a seek stays below two gigabytes. -/
structure Undisturbed (s : DescriptorState) (ctx : CallContext n α β) : Prop where
  fresh : P.readReg ctx.prim regA7 = scOpen → s.sys.fdNext ≠ number
  range : P.readReg ctx.prim regA0 = number → P.readReg ctx.prim regA7 = scLseek →
    (host (s.calls ++ [fileCallOf P fd ctx])).ret.toInt < 2 ^ 31
  other : ¬MoveCall P number ctx → file (s.step host P R ctx).calls = file s.calls

/-- The states after sequences of such calls, from one in which the number stands for the
descriptor, with what the program knows of the file. -/
inductive Knows : DescriptorState → KnownFile Byte → Prop
  | start {s : DescriptorState} : s.sys.fdMap[number]? = some fd → Knows s .nothing
  | step {s : DescriptorState} {f : KnownFile Byte} (ctx : CallContext n α β) : Knows s f →
    Undisturbed host P R number fd file s ctx →
      Knows (s.step host P R ctx)
        (learns P number f ctx ((s.emulated host P R ctx).readReg P regA0))

end Knows

variable {host : Host} {P : RegisterMethods α} {R : RegisterMethods β} {number fd : Word}
  {file : List HostCall → StoredFile Byte} {s : DescriptorState} {f : KnownFile Byte}
  {ctx : CallContext n α β}

/-- The number keeps its entry, if no open gives it to another file. -/
theorem fdMap_step (hP : P.Lawful) (hfd : s.sys.fdMap[number]? = some fd)
    (hfresh : P.readReg ctx.prim regA7 = scOpen → s.sys.fdNext ≠ number) :
    (s.step host P R ctx).sys.fdMap[number]? = some fd := by
  have htouch : (s.sys.fdTouch (P.readReg ctx.prim regA0)).fdMap[number]? = some fd :=
    SysCall.fdTouch_getElem? _ _ hfd
  change ((s.machine ctx).emulate host P R).sys.fdMap[number]? = some fd
  by_cases huses : UsesDescriptor (P.readReg ctx.prim regA7)
  · rcases huses with hclose | hother
    · rw [((s.machine ctx).emulate_of_close host hP hclose).1]
      exact htouch
    · rw [((s.machine ctx).emulate_of_transfer host rfl hother).1]
      exact htouch
  by_cases hopen : P.readReg ctx.prim regA7 = scOpen
  · rcases (s.machine ctx).emulate_of_open (R := R) host hP hopen with ⟨hsys, -⟩ | ⟨_, _, _, -, h⟩
    · rw [hsys]
      exact hfd
    · split at h
      · rw [h.1]
        change (s.sys.fdMap.insert s.sys.fdNext _)[number]? = some fd
        rw [TreeMaps.getElem?_insert_ite, if_neg (hfresh hopen).symm]
        exact hfd
      · rw [h]
        exact hfd
  · rw [((s.machine ctx).emulate_of_other host huses hopen).1]
    exact hfd

/-- A call that is no seek or transfer under the number teaches nothing. -/
theorem learns_of_other (f : KnownFile Byte) (ret : Word) (hctx : ¬MoveCall P number ctx) :
    learns P number f ctx ret = f := by
  rw [learns]
  by_cases hnumber : P.readReg ctx.prim regA0 = number
  · have hkind := fun hkind => hctx ⟨hnumber, hkind⟩
    have hseek : P.readReg ctx.prim regA7 ≠ scLseek := fun h => hkind (.inl h)
    have hread : P.readReg ctx.prim regA7 ≠ scRead := fun h => hkind (.inr (.inl h))
    have hwrite : P.readReg ctx.prim regA7 ≠ scWrite := fun h => hkind (.inr (.inr h))
    rw [if_neg hseek, if_neg hread, if_neg hwrite, ite_self]
  · exact if_pos (.inl hnumber)

/-- What is learnt from a call under the number that has succeeded. -/
theorem learns_of_answer (f : KnownFile Byte) (hnumber : P.readReg ctx.prim regA0 = number)
    {r : HostReply} (hpos : 0 ≤ r.ret.toInt) (hfits : r.ret.toInt < 2 ^ 31) :
    learns P number f ctx r.result =
      if P.readReg ctx.prim regA7 = scLseek then f.seek r.ret.toNat
      else if P.readReg ctx.prim regA7 = scRead then f.read r.ret.toNat
      else if P.readReg ctx.prim regA7 = scWrite then
        f.write (ctx.mem.read (P.readReg ctx.prim regA1) (P.readReg ctx.prim regA2).toInt)
          r.ret.toNat
      else f := by
  obtain ⟨hnonneg, hnat, -⟩ := HostReply.result_of_nonneg hpos hfits
  rw [learns, hnumber, hnat]
  exact if_neg (not_or_intro (not_not_intro rfl) (not_lt.mpr hnonneg))

/-- What is learnt from a seek or a transfer is right. -/
theorem learns_sound (hstores : host.Stores fd file) {calls : List HostCall}
    (hsound : f.Sound (file calls)) (hctx : MoveCall P number ctx)
    (hrange : P.readReg ctx.prim regA7 = scLseek →
      (host (calls ++ [fileCallOf P fd ctx])).ret.toInt < 2 ^ 31) :
    (learns P number f ctx (host (calls ++ [fileCallOf P fd ctx])).result).Sound
      (file (calls ++ [fileCallOf P fd ctx])) := by
  by_cases hfailed : (host (calls ++ [fileCallOf P fd ctx])).ret.toInt < 0
  -- a failed call changes neither the file nor what is known of it
  · obtain ⟨hret, herrno, hfile⟩ := hstores.failed _ _ (fileCallOf_moves P fd ctx) hfailed
    rw [learns, if_pos (.inr (HostReply.result_neg hret herrno)), hfile]
    exact hsound
  rw [not_lt] at hfailed
  by_cases hseek : P.readReg ctx.prim regA7 = scLseek
  · rw [learns_of_answer f hctx.descriptor hfailed (hrange hseek), if_pos hseek]
    rw [fileCallOf, if_pos hseek] at hfailed ⊢
    rw [hstores.seek _ _ _ hfailed]
    exact hsound.seek _
  by_cases hread : P.readReg ctx.prim regA7 = scRead
  · have hcall : fileCallOf P fd ctx = .read fd (P.readReg ctx.prim regA2) :=
      (if_neg hseek).trans (if_pos hread)
    rw [hcall] at hfailed ⊢
    obtain ⟨hlimit, hfile, -⟩ := hstores.read _ _ hfailed
    rw [learns_of_answer f hctx.descriptor hfailed hlimit, if_neg hseek, if_pos hread, hfile]
    exact hsound.read _
  · have hwrite : P.readReg ctx.prim regA7 = scWrite :=
      (hctx.kind.resolve_left hseek).resolve_left hread
    have hcall : fileCallOf P fd ctx = _ := (if_neg hseek).trans (if_neg hread)
    rw [hcall] at hfailed ⊢
    obtain ⟨hlimit, hfile⟩ := hstores.write _ _ _ hfailed
    rw [learns_of_answer f hctx.descriptor hfailed hlimit, if_neg hseek, if_neg hread,
      if_pos hwrite]
    exact hsound.write hfile

/-- The number keeps its entry, and what the program knows is right. -/
theorem Knows.sound (hP : P.Lawful) (hstores : host.Stores fd file)
    (h : Knows n host P R number fd file s f) :
    s.sys.fdMap[number]? = some fd ∧ f.Sound (file s.calls) := by
  induction h with
  | start hfd => exact ⟨hfd, .nothing _⟩
  | step ctx _ hquiet ih =>
    obtain ⟨hfd, hsound⟩ := ih
    refine ⟨fdMap_step hP hfd hquiet.fresh, ?_⟩
    by_cases hctx : MoveCall P number ctx
    · obtain ⟨hcalls, hret, -⟩ := step_of_moveCall host (R := R) hP hfd hctx
      rw [hcalls, hret]
      exact learns_sound hstores hsound hctx (hquiet.range hctx.descriptor)
    · rw [learns_of_other _ _ hctx, hquiet.other hctx]
      exact hsound

variable (host) in
/-- The memory after a read. -/
theorem emulated_mem_of_read (hfd : s.sys.fdMap[number]? = some fd)
    (hnumber : P.readReg ctx.prim regA0 = number) (hread : P.readReg ctx.prim regA7 = scRead) :
    let r := host (s.calls ++ [.read fd (P.readReg ctx.prim regA2)])
    (s.emulated host P R ctx).mem =
      if 0 < r.int.toInt then
        ctx.mem.write (P.readReg ctx.prim regA1) ((List.range r.int.toNat).map r.data)
      else ctx.mem := by
  have hat : (s.machine ctx).sys.fdAt ((s.machine ctx).readReg P regA0) = fd := by
    change s.sys.fdAt (P.readReg ctx.prim regA0) = fd
    rw [hnumber, SysCall.fdAt, hfd, Option.getD_some]
  subst hat
  rw [emulated, (s.machine ctx).emulate_eq_read host hread, Machine.emulateRead]
  dsimp only
  split
  · next h => exact (if_pos h).symm
  · next h => exact (if_neg h).symm

/-- What the program knows of the bytes of a file at a known position is what a read puts into the
memory of every core: the bytes written last are read back. -/
theorem known_bytes_read (hP : P.Lawful) (hstores : host.Stores fd file)
    (h : Knows n host P R number fd file s f) {k : ℕ} (hk : k ≤ 30)
    (hnw : ctx.mem.nwords.toNat = 2 ^ k) (hnumber : P.readReg ctx.prim regA0 = number)
    (hread : P.readReg ctx.prim regA7 = scRead) {position : ℕ} (hp : f.position = some position) :
    let M := s.emulated host P R ctx
    0 ≤ (M.readReg P regA0).toInt → (M.readReg P regA0).toNat ≤ 4 * 2 ^ k →
      ∀ i < (M.readReg P regA0).toNat, ∀ b, f.content (position + i) = some b →
        ∀ a : Agent n,
          M.mem.read1b a.id (P.readReg ctx.prim regA1 + BitVec.ofNat 32 i) = b := by
  intro M hret hfits i hi b hb a
  obtain ⟨hfd, hsound⟩ := h.sound hP hstores
  have hctx : MoveCall P number ctx := ⟨hnumber, .inr (.inl hread)⟩
  have hcall : fileCallOf P fd ctx = .read fd (P.readReg ctx.prim regA2) := by
    rw [fileCallOf, hread]
    rfl
  obtain ⟨-, hresult, -⟩ := step_of_moveCall host (R := R) hP hfd hctx
  rw [hcall] at hresult
  rw [hresult] at hret hfits hi
  have hpos : 0 ≤ (host (s.calls ++ [.read fd (P.readReg ctx.prim regA2)])).ret.toInt := by
    -- a failure would have been returned as a negative value
    by_contra hneg
    obtain ⟨hminus, herrno, -⟩ := hstores.failed s.calls (.read fd _) rfl (not_le.mp hneg)
    exact absurd (HostReply.result_neg hminus herrno) (not_lt.mpr hret)
  obtain ⟨hlimit, -, hdata⟩ := hstores.read _ _ hpos
  obtain ⟨-, hnat, hint⟩ := HostReply.result_of_nonneg hpos hlimit
  have hmem := emulated_mem_of_read host (R := R) hfd hnumber hread
  have hmoved : 0 < (host (s.calls ++ [.read fd (P.readReg ctx.prim regA2)])).int.toInt := by
    rw [hint]
    have hcond := BitVec.toInt_eq_toNat_cond
      (host (s.calls ++ [.read fd (P.readReg ctx.prim regA2)])).result
    split at hcond <;> omega
  dsimp only at hmem
  rw [if_pos hmoved, hint] at hmem
  change (s.emulated host P R ctx).mem.read1b a.id _ = b
  rw [hmem, ctx.mem.read1b_write hk hnw _ (by simpa using hfits) a (by simpa using hi),
    List.getElem_map, List.getElem_range, hdata i (by rwa [hnat] at hi),
    hsound.position position hp]
  exact hsound.content _ _ hb

end DescriptorState

/-! A file on a disk. -/

/-- A file that ends after its last byte. -/
structure Disk where
  position : ℕ
  bytes : List Byte

namespace Disk

/-- The answer to a call: a seek counts from the start, the position or the end, and a transfer
moves what there is, at most `0x7ffff000` bytes. -/
def reply (d : Disk) : HostCall → HostReply
  | .lseek _ offset whence =>
    let f : OpenFile := ⟨d.position, d.bytes.length⟩
    let target := f.base whence + offset.toInt
    { (default : HostReply) with
      ret := if 0 ≤ target ∧ target < 2 ^ 63 then BitVec.ofInt 64 target else -1
      errno := einval }
  | .read _ count =>
    { (default : HostReply) with
      ret := BitVec.ofNat 64 (min (min count.toNat (d.bytes.length - d.position)) 0x7ffff000)
      data := fun i => d.bytes.getD (d.position + i) 0 }
  | .write _ _ count =>
    { (default : HostReply) with ret := BitVec.ofNat 64 (min count.toNat 0x7ffff000) }
  | _ => default

/-- Write some bytes, at the end or beyond it, too. -/
def write (d : Disk) (data : List Byte) (moved : ℕ) : Disk :=
  { position := d.position + moved
    bytes :=
      if moved = 0 then d.bytes
      else
        (List.range (max d.bytes.length (d.position + moved))).map fun x =>
          if x < d.position ∨ d.position + moved ≤ x then d.bytes.getD x 0
          else data.getD (x - d.position) 0 }

/-- The file after a call. -/
def after (d : Disk) (c : HostCall) : Disk :=
  let ret := (d.reply c).ret
  if ret.toInt < 0 then d
  else
    match c with
    | .lseek _ _ _ => { d with position := ret.toNat }
    | .read _ _ => { d with position := d.position + ret.toNat }
    | .write _ data _ => d.write data ret.toNat
    | _ => d

/-- The file after some calls. -/
def afterAll (calls : List HostCall) : Disk := calls.foldl after ⟨0, []⟩

/-- The host on which all calls are made on the file. -/
def host : Host := fun calls =>
  (calls.getLast?.map (afterAll calls.dropLast).reply).getD default

/-- The bytes of the file, zero after the end. -/
def stored (d : Disk) : StoredFile Byte := ⟨d.position, fun x => d.bytes.getD x 0⟩

/-- The last call is answered from the disk after the others. -/
theorem host_concat (calls : List HostCall) (c : HostCall) :
    host (calls ++ [c]) = (afterAll calls).reply c := by
  rw [host, List.getLast?_concat, List.dropLast_concat]
  rfl

/-- The disk after one more call. -/
theorem afterAll_concat (calls : List HostCall) (c : HostCall) :
    afterAll (calls ++ [c]) = (afterAll calls).after c := by
  rw [afterAll, List.foldl_append]
  rfl

/-- A transfer is not negative and stays below the limit. -/
theorem toInt_moved (count : ℕ) :
    0 ≤ (BitVec.ofNat 64 (min count 0x7ffff000)).toInt ∧
      (BitVec.ofNat 64 (min count 0x7ffff000)).toInt < 2 ^ 31 := by
  rw [BitVec.toInt_eq_toNat_of_lt] <;> rw [BitVec.toNat_ofNat] <;> omega

/-- Only a seek fails. -/
theorem reply_failed (d : Disk) {c : HostCall} (h : (d.reply c).ret.toInt < 0) :
    (d.reply c).ret.toInt = -1 ∧ (d.reply c).errno = einval := by
  cases c with
  | lseek fd offset whence =>
    rw [reply] at h ⊢
    dsimp only at h ⊢
    split at h
    · next htarget =>
      rw [BitVec.toInt_ofInt_eq_self (by decide) (by omega) (by omega)] at h
      omega
    · next htarget =>
      rw [if_neg htarget]
      exact ⟨rfl, rfl⟩
  | read | write => exact absurd h (not_lt.mpr (toInt_moved _).1)
  | close | fstat | «open» | stat => exact absurd h (by change ¬(0 : Counter).toInt < 0; decide)

/-- The bytes after a write. -/
theorem written_write (d : Disk) (data : List Byte) (moved : ℕ) :
    d.stored.Written data moved (d.write data moved).stored where
  position := rfl
  inside := by
    intro i hi hmoved
    have hne : moved ≠ 0 := by omega
    simp only [stored, write, if_neg hne]
    rw [List.getD_eq_getElem?_getD, List.getElem?_map, List.getElem?_range (by omega)]
    simp [hi, hmoved]
  outside := by
    intro x hx
    simp only [stored, write]
    split
    · rfl
    · rw [List.getD_eq_getElem?_getD, List.getElem?_map]
      by_cases hlt : x < max d.bytes.length (d.position + moved)
      · rw [List.getElem?_range hlt, Option.map_some]
        exact if_pos hx
      · have hlength : d.bytes.length ≤ x := by omega
        rw [List.getElem?_eq_none (by simpa using hlt), List.getD_eq_getElem?_getD,
          List.getElem?_eq_none hlength]
        rfl

/-- The host keeps the file under every descriptor. -/
theorem host_stores (fd : Word) : host.Stores fd fun calls => (afterAll calls).stored where
  failed := by
    intro calls c hmoves hneg
    rw [host_concat] at hneg ⊢
    obtain ⟨hret, herrno⟩ := reply_failed _ hneg
    have hafter : (afterAll calls).after c = afterAll calls := if_pos hneg
    rw [afterAll_concat, hafter, herrno]
    exact ⟨hret, by decide, rfl⟩
  seek := by
    intro calls offset whence hret
    rw [host_concat] at hret ⊢
    rw [afterAll_concat, after, if_neg (not_lt.mpr hret)]
    rfl
  read := by
    intro calls count hret r
    have hr : r = (afterAll calls).reply (.read fd count) := host_concat calls _
    rw [host_concat] at hret
    rw [afterAll_concat, after, if_neg (not_lt.mpr hret), hr]
    exact ⟨(toInt_moved _).2, rfl, fun i _ => rfl⟩
  write := by
    intro calls data count hret r
    have hr : r = (afterAll calls).reply (.write fd data count) := host_concat calls _
    rw [host_concat] at hret
    rw [afterAll_concat, after, if_neg (not_lt.mpr hret), hr]
    exact ⟨(toInt_moved _).2, written_write _ _ _⟩

end Disk

/-- A call under number 3, with two more arguments and a memory. -/
def diskCall (number a1 a2 : Word) (mem : Memory 1) :
    CallContext 1 FunctionalState FunctionalState :=
  let core := FunctionalCore.new ⟨0, 0, 0, 0, 0, 0, 0, 0, 0⟩ ⟨0, 0, 0, 0, 0, 0, 0, 0, 0⟩
  let core := FunctionalCore.writeReg (FunctionalCore.writeReg core regA7 number) regA0 3
  let core := FunctionalCore.writeReg (FunctionalCore.writeReg core regA1 a1) regA2 a2
  { prim := core, reps := fun _ => core, mem := mem }

/-- A memory in which two bytes stand at address 16. -/
def hiMemory : Memory 1 :=
  let request : CoreMemoryIF := ⟨0, 0, 0, 0, 0, 0, 0, 0, 0⟩
  (Memory.new request (fun _ => request) memWords).write 16 [104, 105]

/-- Seeks and transfers disturb nothing. -/
theorem diskCall_undisturbed (s : DescriptorState) {number : Word} (a1 a2 : Word)
    (mem : Memory 1) (hkind : number = scLseek ∨ number = scRead ∨ number = scWrite)
    (hrange : number = scLseek → (Disk.host (s.calls ++
      [fileCallOf FunctionalCore.registers 3 (diskCall number a1 a2 mem)])).ret.toInt < 2 ^ 31) :
    s.Undisturbed Disk.host FunctionalCore.registers FunctionalCore.registers 3 3
      (fun calls => (Disk.afterAll calls).stored) (diskCall number a1 a2 mem) where
  fresh := by
    change number = scOpen → _
    rintro rfl
    revert hkind
    simp [scOpen, scLseek, scRead, scWrite]
  range := fun _ => hrange
  other := by
    intro hno
    refine absurd ⟨rfl, ?_⟩ hno
    exact hkind

/-- The program has gone to place 5, written the two bytes and gone to place 6. -/
def hiWritten : DescriptorState :=
  let P := FunctionalCore.registers
  let s := oneFileOpen.step Disk.host P P (diskCall scLseek 5 0 hiMemory)
  let s := s.step Disk.host P P (diskCall scWrite 16 2 hiMemory)
  s.step Disk.host P P (diskCall scLseek 6 0 hiMemory)

/-- Of the two bytes it reads the second one into the memories of both cores. -/
theorem second_byte_read_back :
    let M := hiWritten.emulated Disk.host FunctionalCore.registers FunctionalCore.registers
      (diskCall scRead 32 2 hiMemory)
    M.readReg FunctionalCore.registers regA0 = 1 ∧ ∀ a : Agent 1, M.mem.read1b a.id 32 = 105 := by
  intro M
  have hret : M.readReg FunctionalCore.registers regA0 = 1 := by decide +kernel
  have hfd : oneFileOpen.sys.fdMap[(3 : Word)]? = some 3 := by decide
  have hstart : DescriptorState.Knows 1 Disk.host FunctionalCore.registers
      FunctionalCore.registers 3 3 (fun calls => (Disk.afterAll calls).stored) oneFileOpen
      .nothing := .start hfd
  have hseek := hstart.step (diskCall scLseek 5 0 hiMemory)
    (diskCall_undisturbed _ 5 0 hiMemory (.inl rfl) (by decide +kernel))
  have hwrite := hseek.step (diskCall scWrite 16 2 hiMemory)
    (diskCall_undisturbed _ 16 2 hiMemory (.inr (.inr rfl)) (by decide))
  have hback := hwrite.step (diskCall scLseek 6 0 hiMemory)
    (diskCall_undisturbed _ 6 0 hiMemory (.inl rfl) (by decide +kernel))
  have hnw : (diskCall scRead 32 2 hiMemory).mem.nwords.toNat = 2 ^ 19 := by decide
  have hread := DescriptorState.known_bytes_read FunctionalCore.registers_lawful
    (Disk.host_stores 3) hback (by decide) hnw rfl rfl (show _ = some 6 by decide +kernel)
    (by decide +kernel) (by decide +kernel) 0 (by decide +kernel) 105 (by decide +kernel)
  exact ⟨hret, hread⟩

end VeriCross
