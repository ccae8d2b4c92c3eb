import VeriCross.SysCall.Descriptors

/-!
# The position of a file

The program seeks with a signed 32-bit offset in `a1`, and the emulation hands the unsigned word to
the host. A sequence of seeks and transfers on one open file is compared with a file on which the
offset is added as a signed number: the host's position and the returned values are the same
exactly when no offset is negative.
-/

namespace VeriCross

open RiscV SysCall

variable {n : ℕ} {α β : Type}

/-- An open file: where the next transfer starts, and how long the file is. -/
structure OpenFile where
  position : ℕ
  size : ℕ
  deriving DecidableEq

namespace OpenFile

/-- Where an offset counts from: the start of the file, the position or the end. -/
def base (f : OpenFile) (whence : Word) : ℕ :=
  if whence = 0 then 0 else if whence = 1 then f.position else f.size

/-- Move by an offset, unless this leads before the start of the file. -/
def seek (f : OpenFile) (offset : ℤ) (whence : Word) : Option OpenFile :=
  let target := f.base whence + offset
  if 0 ≤ target then some { f with position := target.toNat } else none

/-- Read some bytes. -/
def read (f : OpenFile) (count : ℕ) : OpenFile := { f with position := f.position + count }

/-- Write some bytes, at the end or beyond it, too. -/
def write (f : OpenFile) (count : ℕ) : OpenFile :=
  if count = 0 then f
  else { position := f.position + count, size := max f.size (f.position + count) }

/-- A write moves the position by what it has written. -/
theorem position_write (f : OpenFile) (count : ℕ) :
    (f.write count).position = f.position + count := by
  rw [write]
  split
  · next h => rw [h, Nat.add_zero]
  · rfl

end OpenFile

/-- The number of the error `EINVAL`. -/
def einval : Word := 22

/-- How the host answers the calls on a file, from the number of all the calls before. -/
structure HostFile where
  lseek : ℕ → OpenFile → Counter → Word → HostReply
  read : ℕ → OpenFile → Word → HostReply
  write : ℕ → OpenFile → List Byte → Word → HostReply

/-- A number of transferred bytes, or minus one. -/
def HostReply.Transfers (r : HostReply) (count : Word) : Prop :=
  -1 ≤ r.ret.toInt ∧ r.ret.toInt ≤ count.toNat

namespace HostFile

/-- Seeks add the 64-bit offset to the base, or fail when this is negative, and transfers report
how much they moved. -/
structure Posix (F : HostFile) : Prop where
  seek : ∀ k f offset whence, whence.toNat < 3 → 0 ≤ (f.base whence : ℤ) + offset.toInt →
    (f.base whence : ℤ) + offset.toInt < 2 ^ 63 →
    (F.lseek k f offset whence).ret.toInt = f.base whence + offset.toInt
  refuse : ∀ k f offset whence, whence.toNat < 3 → (f.base whence : ℤ) + offset.toInt < 0 →
    (F.lseek k f offset whence).ret.toInt = -1 ∧ (F.lseek k f offset whence).errno = einval
  read : ∀ k f count, (F.read k f count).Transfers count
  write : ∀ k f data count, (F.write k f data count).Transfers count

/-- The answer to a call on the file. -/
def reply (F : HostFile) (k : ℕ) (f : OpenFile) : HostCall → HostReply
  | .lseek _ offset whence => F.lseek k f offset whence
  | .read _ count => F.read k f count
  | .write _ data count => F.write k f data count
  | _ => default

/-- The file after a call on it. -/
def after (F : HostFile) (k : ℕ) (f : OpenFile) (c : HostCall) : OpenFile :=
  let ret := (F.reply k f c).ret
  if ret.toInt < 0 then f
  else
    match c with
    | .lseek _ _ _ => { f with position := ret.toNat }
    | .read _ _ => f.read ret.toNat
    | .write _ _ _ => f.write ret.toNat
    | _ => f

section After

variable (F : HostFile) (k : ℕ) (f : OpenFile) (fd count : Word)

/-- The file after a seek. -/
theorem after_lseek (offset : Counter) (whence : Word) :
    F.after k f (.lseek fd offset whence) =
      if (F.lseek k f offset whence).ret.toInt < 0 then f
      else { f with position := (F.lseek k f offset whence).ret.toNat } := rfl

/-- The file after a read. -/
theorem after_read :
    F.after k f (.read fd count) =
      if (F.read k f count).ret.toInt < 0 then f else f.read (F.read k f count).ret.toNat := rfl

/-- The file after a write. -/
theorem after_write (data : List Byte) :
    F.after k f (.write fd data count) =
      if (F.write k f data count).ret.toInt < 0 then f
      else f.write (F.write k f data count).ret.toNat := rfl

end After

end HostFile

/-- The call seeks or transfers on a descriptor. -/
def HostCall.Moves (fd : Word) : HostCall → Prop
  | .lseek fd' _ _ => fd' = fd
  | .read fd' _ => fd' = fd
  | .write fd' _ _ => fd' = fd
  | _ => False

/-- The host serves a file under a descriptor: from the file after some calls follow the answer to
a further one and the file after it. -/
structure Host.Serves (host : Host) (F : HostFile) (fd : Word) (file : List HostCall → OpenFile) :
    Prop where
  reply : ∀ calls c, c.Moves fd → host (calls ++ [c]) = F.reply calls.length (file calls) c
  file : ∀ calls c, c.Moves fd → file (calls ++ [c]) = F.after calls.length (file calls) c

/-- A seek or a transfer under a number of the program. -/
structure FileCall (P : RegisterMethods α) (number : Word) (ctx : CallContext n α β) : Prop where
  descriptor : P.readReg ctx.prim regA0 = number
  kind : P.readReg ctx.prim regA7 = scLseek ∧ (P.readReg ctx.prim regA2).toNat < 3 ∨
    P.readReg ctx.prim regA7 = scRead ∨ P.readReg ctx.prim regA7 = scWrite

/-- A seek from anywhere or a transfer under a number of the program. -/
structure MoveCall (P : RegisterMethods α) (number : Word) (ctx : CallContext n α β) : Prop where
  descriptor : P.readReg ctx.prim regA0 = number
  kind : P.readReg ctx.prim regA7 = scLseek ∨ P.readReg ctx.prim regA7 = scRead ∨
    P.readReg ctx.prim regA7 = scWrite

/-- A seek from one of the three places is a seek. -/
theorem FileCall.moveCall {P : RegisterMethods α} {number : Word} {ctx : CallContext n α β}
    (h : FileCall P number ctx) : MoveCall P number ctx :=
  ⟨h.descriptor, h.kind.imp_left And.left⟩

/-- The call on the reference file and the value returned: the offset is a signed number. -/
def referenceStep (F : HostFile) (P : RegisterMethods α) (k : ℕ) (f : OpenFile)
    (ctx : CallContext n α β) : OpenFile × Word :=
  let a1 := P.readReg ctx.prim regA1
  let a2 := P.readReg ctx.prim regA2
  if P.readReg ctx.prim regA7 = scLseek then
    match f.seek a1.toInt a2 with
    | some f' => (f', BitVec.ofNat 32 f'.position)
    | none => (f, -einval)
  else if P.readReg ctx.prim regA7 = scRead then
    let r := F.read k f a2
    if r.ret.toInt < 0 then (f, -r.errno)
    else (f.read r.ret.toNat, BitVec.ofNat 32 r.ret.toNat)
  else
    let r := F.write k f (ctx.mem.read a1 a2.toInt) a2
    if r.ret.toInt < 0 then (f, -r.errno)
    else (f.write r.ret.toNat, BitVec.ofNat 32 r.ret.toNat)

/-- The positions of the reference file and the returned values over a sequence of calls. -/
def referencePositions (F : HostFile) (P : RegisterMethods α) :
    ℕ → OpenFile → List (CallContext n α β) → List (ℕ × Word)
  | _, _, [] => []
  | k, f, ctx :: ctxs =>
    let (f', ret) := referenceStep F P k f ctx
    (f'.position, ret) :: referencePositions F P (k + 1) f' ctxs

/-- The positions of the host's file and the values returned in `a0` over a sequence of calls. -/
def hostPositions (host : Host) (P : RegisterMethods α) (R : RegisterMethods β)
    (file : List HostCall → OpenFile) :
    DescriptorState → List (CallContext n α β) → List (ℕ × Word)
  | _, [] => []
  | s, ctx :: ctxs =>
    let s' := s.step host P R ctx
    ((file s'.calls).position, (s.emulated host P R ctx).readReg P regA0) ::
      hostPositions host P R file s' ctxs

/-! The host call of one emulated call. -/

/-- The host call: the word of the offset is taken as an unsigned number. -/
def fileCallOf (P : RegisterMethods α) (fd : Word) (ctx : CallContext n α β) : HostCall :=
  let a1 := P.readReg ctx.prim regA1
  let a2 := P.readReg ctx.prim regA2
  if P.readReg ctx.prim regA7 = scLseek then .lseek fd (a1.setWidth 64) a2
  else if P.readReg ctx.prim regA7 = scRead then .read fd a2
  else .write fd (ctx.mem.read a1 a2.toInt) a2

/-- The host call seeks or transfers on the descriptor. -/
theorem fileCallOf_moves (P : RegisterMethods α) (fd : Word) (ctx : CallContext n α β) :
    (fileCallOf P fd ctx).Moves fd := by
  unfold fileCallOf
  dsimp only
  split
  · rfl
  · split <;> rfl

section Step

variable {host : Host} {P : RegisterMethods α} {R : RegisterMethods β} {F : HostFile}
  {fd number : Word} {file : List HostCall → OpenFile} {s : DescriptorState}
  {ctx : CallContext n α β}

variable (host) in
/-- A seek or a transfer makes its host call, returns the result of it and keeps the descriptor. -/
theorem step_of_moveCall (hP : P.Lawful) (hfd : s.sys.fdMap[number]? = some fd)
    (hctx : MoveCall P number ctx) :
    (s.step host P R ctx).calls = s.calls ++ [fileCallOf P fd ctx] ∧
      (s.emulated host P R ctx).readReg P regA0 =
        (host (s.calls ++ [fileCallOf P fd ctx])).result ∧
      (s.step host P R ctx).sys.fdMap[number]? = some fd := by
  have hat : (s.machine ctx).sys.fdAt ((s.machine ctx).readReg P regA0) = fd := by
    change s.sys.fdAt (P.readReg ctx.prim regA0) = fd
    rw [hctx.descriptor, SysCall.fdAt, hfd, Option.getD_some]
  have hkept : ((s.machine ctx).lookup P).2.sys.fdMap[number]? = some fd :=
    SysCall.fdTouch_getElem? _ _ hfd
  change (s.emulated host P R ctx).calls = _ ∧ _ ∧
    (s.emulated host P R ctx).sys.fdMap[number]? = some fd
  unfold DescriptorState.emulated fileCallOf
  subst hat
  rcases hctx.kind with hnumber | hnumber | hnumber
  · rw [if_pos hnumber, (s.machine ctx).emulate_eq_lseek host hnumber]
    exact ⟨rfl, (hP.read_write ..).trans (if_pos rfl), hkept⟩
  · rw [hnumber, if_neg (by decide), if_pos rfl, (s.machine ctx).emulate_eq_read host hnumber]
    rw [Machine.emulateRead]
    dsimp only
    split <;> exact ⟨rfl, (hP.read_write ..).trans (if_pos rfl), hkept⟩
  · rw [hnumber, if_neg (by decide), if_neg (by decide),
      (s.machine ctx).emulate_eq_write host hnumber]
    exact ⟨rfl, (hP.read_write ..).trans (if_pos rfl), hkept⟩

end Step

/-! Results of the host as words. -/

/-- A result that fits is returned. -/
theorem HostReply.result_of_fits {r : HostReply} (hpos : 0 ≤ r.ret.toInt)
    (hfits : r.ret.toInt < 2 ^ 31) : r.result = BitVec.ofNat 32 r.ret.toNat := by
  have hnat : r.ret.toNat < 2 ^ 31 := by
    have h := BitVec.toInt_eq_toNat_cond r.ret
    split at h <;> omega
  have hint : r.int = BitVec.ofNat 32 r.ret.toNat := by
    apply BitVec.eq_of_toNat_eq
    rw [int, BitVec.toNat_setWidth, BitVec.toNat_ofNat]
  have hsign : 0 ≤ r.int.toInt := by
    rw [hint, BitVec.toInt_eq_toNat_of_lt]
    · exact Int.natCast_nonneg _
    · rw [BitVec.toNat_ofNat]
      omega
  rw [result, if_pos hsign, hint]

/-- After a failure the negated error number is returned. -/
theorem HostReply.result_of_failed {r : HostReply} (h : r.ret.toInt = -1) :
    r.result = -r.errno := by
  have hret : r.ret = -1 := BitVec.eq_of_toInt_eq h
  rw [result, int, hret]
  exact if_neg (by decide)

/-- A transfer that leaves the position below the limit moves the file and returns what the
reference does. -/
theorem HostReply.Transfers.agrees {r : HostReply} {count : Word} (h : r.Transfers count)
    {f : OpenFile} {move : ℕ → OpenFile}
    (hmove : ∀ moved, (move moved).position = f.position + moved) {x : OpenFile × Word}
    (hx : x = if r.ret.toInt < 0 then (f, -r.errno)
      else (move r.ret.toNat, BitVec.ofNat 32 r.ret.toNat))
    (hrange : x.1.position < 2 ^ 31) :
    (if r.ret.toInt < 0 then f else move r.ret.toNat) = x.1 ∧ r.result = x.2 := by
  have hlow := h.1
  subst hx
  by_cases hneg : r.ret.toInt < 0
  · rw [if_pos hneg, if_pos hneg]
    exact ⟨rfl, result_of_failed (by omega)⟩
  · rw [if_neg hneg] at hrange
    change (move r.ret.toNat).position < 2 ^ 31 at hrange
    rw [if_neg hneg, if_neg hneg]
    have hposition := hmove r.ret.toNat
    have hnat := BitVec.toInt_eq_toNat_cond r.ret
    exact ⟨rfl, result_of_fits (by omega) (by split at hnat <;> omega)⟩

/-- The host takes the word of an offset as an unsigned number. -/
theorem toInt_offset (w : Word) : (w.setWidth 64).toInt = w.toNat := by
  rw [BitVec.toInt_eq_toNat_of_lt]
  · rw [BitVec.toNat_setWidth_of_le (by decide)]
  · rw [BitVec.toNat_setWidth_of_le (by decide)]
    omega

/-- A result that is not negative as a natural number. -/
theorem toNat_of_toInt {r : Counter} {t : ℤ} (h : r.toInt = t) (ht : 0 ≤ t) :
    r.toNat = t.toNat := by
  have hcond := BitVec.toInt_eq_toNat_cond r
  split at hcond <;> omega

/-! One call on the host and on the reference. -/

section Compare

variable {P : RegisterMethods α} {F : HostFile} {fd number : Word} {k : ℕ} {f : OpenFile}
  {ctx : CallContext n α β}

variable (fd k) in
/-- A seek of the host by a word, at any whence and from any base. -/
theorem after_of_seek (hposix : F.Posix) (hctx : FileCall P number ctx)
    (hseek : P.readReg ctx.prim regA7 = scLseek)
    (hfits : (f.base (P.readReg ctx.prim regA2) : ℤ) + (P.readReg ctx.prim regA1).toNat < 2 ^ 63) :
    let target := f.base (P.readReg ctx.prim regA2) + (P.readReg ctx.prim regA1).toNat
    F.after k f (fileCallOf P fd ctx) = { f with position := target } ∧
      (F.reply k f (fileCallOf P fd ctx)).ret.toInt = target := by
  intro target
  have hwhence : (P.readReg ctx.prim regA2).toNat < 3 := by
    rcases hctx.kind with ⟨-, hwhence⟩ | hother | hother
    · exact hwhence
    · rw [hseek] at hother
      cases hother
    · rw [hseek] at hother
      cases hother
  have hret := hposix.seek k f ((P.readReg ctx.prim regA1).setWidth 64) _ hwhence
    (by rw [toInt_offset]; omega) (by rw [toInt_offset]; exact hfits)
  rw [toInt_offset] at hret
  have hnat := toNat_of_toInt hret (by omega)
  have hcall : fileCallOf P fd ctx = .lseek fd ((P.readReg ctx.prim regA1).setWidth 64)
      (P.readReg ctx.prim regA2) := if_pos hseek
  rw [hcall, HostFile.after_lseek, if_neg (by omega), hnat]
  exact ⟨rfl, hret⟩

variable (fd) in
/-- A call that is no backward seek does on the host what it does on the reference. -/
theorem after_of_forward (hposix : F.Posix) (hctx : FileCall P number ctx)
    (hrange : (referenceStep F P k f ctx).1.position < 2 ^ 31)
    (hforward : P.readReg ctx.prim regA7 = scLseek → 0 ≤ (P.readReg ctx.prim regA1).toInt) :
    F.after k f (fileCallOf P fd ctx) = (referenceStep F P k f ctx).1 ∧
      (F.reply k f (fileCallOf P fd ctx)).result = (referenceStep F P k f ctx).2 := by
  by_cases hseek : P.readReg ctx.prim regA7 = scLseek
  · have hoffset : (P.readReg ctx.prim regA1).toInt = (P.readReg ctx.prim regA1).toNat := by
      have hcond := BitVec.toInt_eq_toNat_cond (P.readReg ctx.prim regA1)
      have hsign := hforward hseek
      split at hcond <;> omega
    have hstep : referenceStep F P k f ctx =
        let target := f.base (P.readReg ctx.prim regA2) + (P.readReg ctx.prim regA1).toNat
        ({ f with position := target }, BitVec.ofNat 32 target) := by
      rw [referenceStep, if_pos hseek, OpenFile.seek, hoffset, if_pos (by omega)]
      rfl
    rw [hstep] at hrange ⊢
    dsimp only at hrange ⊢
    obtain ⟨hafter, hret⟩ := after_of_seek fd k hposix hctx hseek
      (show (f.base _ : ℤ) + _ < 2 ^ 63 by omega)
    have hnat := toNat_of_toInt hret (by omega)
    refine ⟨hafter, ?_⟩
    rw [HostReply.result_of_fits (by omega) (by omega), hnat]
    rfl
  · by_cases hread : P.readReg ctx.prim regA7 = scRead
    · have hcall : fileCallOf P fd ctx = .read fd (P.readReg ctx.prim regA2) :=
        (if_neg hseek).trans (if_pos hread)
      have hstep : referenceStep F P k f ctx = _ := (if_neg hseek).trans (if_pos hread)
      rw [hcall, HostFile.after_read]
      exact (hposix.read k f _).agrees (fun _ => rfl) hstep hrange
    · have hcall : fileCallOf P fd ctx = _ := (if_neg hseek).trans (if_neg hread)
      have hstep : referenceStep F P k f ctx = _ := (if_neg hseek).trans (if_neg hread)
      rw [hcall, HostFile.after_write]
      exact (hposix.write k f _ _).agrees (OpenFile.position_write f) hstep hrange

/-- After a backward seek the host's position is too large by all the unsigned words. -/
theorem after_of_backward (hposix : F.Posix) (hctx : FileCall P number ctx)
    (hf : f.position < 2 ^ 31) (hrange : (referenceStep F P k f ctx).1.position < 2 ^ 31)
    (hseek : P.readReg ctx.prim regA7 = scLseek) (hback : (P.readReg ctx.prim regA1).toInt < 0) :
    (F.after k f (fileCallOf P fd ctx)).position ≠ (referenceStep F P k f ctx).1.position := by
  have hoffset := BitVec.toInt_eq_toNat_cond (P.readReg ctx.prim regA1)
  have hword := (P.readReg ctx.prim regA1).isLt
  rw [referenceStep, if_pos hseek, OpenFile.seek] at hrange ⊢
  split at hoffset
  · omega
  by_cases htarget : 0 ≤ (f.base (P.readReg ctx.prim regA2) : ℤ) + (P.readReg ctx.prim regA1).toInt
  · rw [if_pos htarget] at hrange ⊢
    dsimp only at hrange ⊢
    obtain ⟨hafter, -⟩ := after_of_seek fd k hposix hctx hseek
      (show (f.base _ : ℤ) + _ < 2 ^ 63 by omega)
    rw [hafter]
    dsimp only
    omega
  · rw [if_neg htarget] at hrange ⊢
    dsimp only at hrange ⊢
    obtain ⟨hafter, -⟩ := after_of_seek fd k hposix hctx hseek
      (show (f.base _ : ℤ) + _ < 2 ^ 63 by omega)
    rw [hafter]
    dsimp only
    omega

end Compare

section Sequence

variable {host : Host} {P : RegisterMethods α} {R : RegisterMethods β} {F : HostFile}
  {fd number : Word} {file : List HostCall → OpenFile}

/-- Over a sequence of seeks and transfers on one open descriptor, the positions of the host and the
returned values are those of the reference exactly when no offset is negative. -/
theorem filePosition_iff (hP : P.Lawful) (hposix : F.Posix) (hserves : host.Serves F fd file)
    {s : DescriptorState} (hfd : s.sys.fdMap[number]? = some fd) {ctxs : List (CallContext n α β)}
    (hcalls : ∀ ctx ∈ ctxs, FileCall P number ctx) (hstart : (file s.calls).position < 2 ^ 31)
    (hrange : ∀ x ∈ referencePositions F P s.calls.length (file s.calls) ctxs, x.1 < 2 ^ 31) :
    hostPositions host P R file s ctxs =
        referencePositions F P s.calls.length (file s.calls) ctxs ↔
      ∀ ctx ∈ ctxs, P.readReg ctx.prim regA7 = scLseek →
        0 ≤ (P.readReg ctx.prim regA1).toInt := by
  induction ctxs generalizing s with
  | nil => exact iff_of_true rfl fun ctx h => absurd h List.not_mem_nil
  | cons ctx ctxs ih =>
    obtain ⟨hctx, hcalls⟩ := List.forall_mem_cons.mp hcalls
    rw [referencePositions] at hrange ⊢
    obtain ⟨hnext, hrange⟩ := List.forall_mem_cons.mp hrange
    obtain ⟨hmade, hret, hkept⟩ := step_of_moveCall host (R := R) hP hfd hctx.moveCall
    have hmoves := fileCallOf_moves P fd ctx
    rw [hostPositions, List.forall_mem_cons, List.cons.injEq, Prod.mk.injEq, hmade, hret,
      hserves.reply _ _ hmoves, hserves.file _ _ hmoves]
    by_cases hforward : P.readReg ctx.prim regA7 = scLseek →
        0 ≤ (P.readReg ctx.prim regA1).toInt
    · obtain ⟨hafter, hresult⟩ := after_of_forward fd hposix hctx hnext hforward
      have hfile : file (s.step host P R ctx).calls =
          (referenceStep F P s.calls.length (file s.calls) ctx).1 := by
        rw [hmade, hserves.file _ _ hmoves, hafter]
      have hlength : (s.step host P R ctx).calls.length = s.calls.length + 1 := by
        rw [hmade, List.length_append, List.length_singleton]
      have hrest := ih hkept hcalls
      rw [hfile, hlength] at hrest
      rw [hafter, hresult, and_iff_right ⟨rfl, rfl⟩, and_iff_right hforward]
      exact hrest hnext hrange
    · refine iff_of_false (fun h => ?_) fun h => hforward h.1
      rw [Classical.not_imp, not_le] at hforward
      exact after_of_backward hposix hctx hstart hnext hforward.1 hforward.2 h.1.1

end Sequence

/-! A file without failures. -/

/-- A file that transfers as much as there is to read and all that is to be written. -/
def plainFile : HostFile where
  lseek := fun _ f offset whence =>
    let target := f.base whence + offset.toInt
    { (default : HostReply) with
      ret := if 0 ≤ target then BitVec.ofInt 64 target else -1
      errno := einval }
  read := fun _ f count =>
    { (default : HostReply) with ret := BitVec.ofNat 64 (min count.toNat (f.size - f.position)) }
  write := fun _ _ _ count => { (default : HostReply) with ret := count.setWidth 64 }

/-- The plain file answers as it should. -/
theorem plainFile_posix : plainFile.Posix where
  seek := by
    intro k f offset whence _ hpos hfits
    change (if 0 ≤ (f.base whence : ℤ) + offset.toInt then BitVec.ofInt 64 _ else -1).toInt = _
    rw [if_pos hpos, BitVec.toInt_ofInt_eq_self (by decide) (by omega) (by omega)]
  refuse := by
    intro k f offset whence _ hneg
    refine ⟨?_, rfl⟩
    change (if 0 ≤ (f.base whence : ℤ) + offset.toInt then BitVec.ofInt 64 _ else -1).toInt = _
    rw [if_neg (by omega)]
    rfl
  read := by
    intro k f count
    have hcount := count.isLt
    have hret : ((plainFile.read k f count).ret).toInt =
        (min count.toNat (f.size - f.position) : ℕ) := by
      change (BitVec.ofNat 64 (min count.toNat (f.size - f.position))).toInt = _
      rw [BitVec.toInt_eq_toNat_of_lt] <;> rw [BitVec.toNat_ofNat] <;> omega
    rw [HostReply.Transfers, hret]
    omega
  write := by
    intro k f data count
    have hret : ((plainFile.write k f data count).ret).toInt = count.toNat := toInt_offset count
    rw [HostReply.Transfers, hret]
    omega

/-- The file after some calls. -/
def plainFileAfter (f : OpenFile) (calls : List HostCall) : OpenFile :=
  calls.foldl (plainFile.after 0) f

/-- The host on which all calls are made on the file. -/
def plainHost (f : OpenFile) : Host := fun calls =>
  (calls.getLast?.map (plainFile.reply 0 (plainFileAfter f calls.dropLast))).getD default

/-- The plain host serves the plain file. -/
theorem plainHost_serves (f : OpenFile) (fd : Word) :
    (plainHost f).Serves plainFile fd (plainFileAfter f) where
  reply := by
    intro calls c _
    rw [plainHost, List.getLast?_concat, List.dropLast_concat]
    cases c <;> rfl
  file := by
    intro calls c _
    rw [plainFileAfter, List.foldl_append]
    cases c <;> rfl

/-- A seek under number 3. -/
def seekCall (offset whence : Word) : CallContext 0 FunctionalState FunctionalState :=
  let ctx := DescriptorState.sampleCall scLseek 3
  { ctx with
    prim :=
      FunctionalCore.writeReg (FunctionalCore.writeReg ctx.prim regA1 offset) regA2 whence }

/-- A state in which number 3 stands for descriptor 3. -/
def oneFileOpen : DescriptorState where
  sys := (SysCall.new 0 1 2 0).fdAdd 3
  calls := []
  guest := []

/-- From position 5, three bytes forward. -/
theorem seek_forward_agrees :
    hostPositions (plainHost ⟨5, 10⟩) FunctionalCore.registers FunctionalCore.registers
      (plainFileAfter ⟨5, 10⟩) oneFileOpen [seekCall 3 1] = [(8, 8)] := by
  have hfd : oneFileOpen.sys.fdMap[(3 : Word)]? = some 3 := by decide
  refine ((filePosition_iff FunctionalCore.registers_lawful plainFile_posix
    (plainHost_serves ⟨5, 10⟩ 3) hfd ?_ (by decide) ?_).mpr ?_).trans ?_
  · intro ctx hctx
    rw [List.mem_singleton.mp hctx]
    exact ⟨rfl, .inl ⟨rfl, by decide⟩⟩
  · decide +kernel
  · intro ctx hctx _
    rw [List.mem_singleton.mp hctx]
    decide
  · decide +kernel

/-- From position 5, one byte backward: the returned value is right, but the host has moved beyond
four gigabytes. -/
theorem seek_back_runs_ahead :
    plainFile.Posix ∧ (plainHost ⟨5, 10⟩).Serves plainFile 3 (plainFileAfter ⟨5, 10⟩) ∧
      oneFileOpen.sys.fdMap[(3 : Word)]? = some 3 ∧
      FileCall FunctionalCore.registers 3 (seekCall (-1) 1) ∧
      referencePositions plainFile FunctionalCore.registers 0 ⟨5, 10⟩ [seekCall (-1) 1] =
        [(4, 4)] ∧
      hostPositions (plainHost ⟨5, 10⟩) FunctionalCore.registers FunctionalCore.registers
        (plainFileAfter ⟨5, 10⟩) oneFileOpen [seekCall (-1) 1] = [(4294967300, 4)] := by
  refine ⟨plainFile_posix, plainHost_serves .., by decide, ⟨rfl, .inl ⟨rfl, by decide⟩⟩, ?_, ?_⟩
  · decide +kernel
  · decide +kernel

end VeriCross
