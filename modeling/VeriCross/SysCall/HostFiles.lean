import VeriCross.SysCall.Model

/-!
# Files of the host

Every file the host has open was either open when the simulation started or opened by one of
the calls made to it. The table of open files after a sequence of calls follows from the
answers: a successful `open` adds an entry and a successful `close` removes one.
-/

namespace VeriCross

open SysCall

/-- An open file of the host: one of those open at the start, by its descriptor, or the one
opened by a call, by the position of the call. -/
inductive FileId
  | initial (fd : Word)
  | opened (position : ℕ)
  deriving DecidableEq

/-- The open files by host descriptor. -/
abbrev FileTable := Word → Option FileId

/-- The descriptor that a call acts on, with the number of the system call it serves. -/
def HostCall.descriptor : HostCall → Option (Word × Word)
  | .close fd => some (scClose, fd)
  | .lseek fd _ _ => some (scLseek, fd)
  | .read fd _ => some (scRead, fd)
  | .write fd _ _ => some (scWrite, fd)
  | .fstat fd => some (scFstat, fd)
  | .open _ _ _ => none
  | .stat _ => none

/-- The open files at the start. -/
def FileTable.start (isOpen : Word → Bool) : FileTable := fun fd =>
  if isOpen fd then some (.initial fd) else none

/-- The effect of the call at a position. -/
def FileTable.after (files : FileTable) (c : HostCall) (r : HostReply) (position : ℕ) :
    FileTable :=
  match c with
  | .open _ _ _ =>
    if 0 ≤ r.int.toInt then Function.update files r.int (some (.opened position)) else files
  | .close fd => if r.int = 0 then Function.update files fd none else files
  | _ => files

/-- The effect of the calls that follow some earlier ones. -/
def hostFilesFrom (host : Host) : List HostCall → FileTable → List HostCall → FileTable
  | _, files, [] => files
  | past, files, c :: rest =>
    hostFilesFrom host (past ++ [c]) (files.after c (host (past ++ [c])) past.length) rest

/-- The open files after a sequence of calls. -/
def hostFiles (host : Host) (isOpen : Word → Bool) (calls : List HostCall) : FileTable :=
  hostFilesFrom host [] (.start isOpen) calls

/-- The host's `open` returns a descriptor from three up that is not open. -/
def Host.OpensFresh (host : Host) (isOpen : Word → Bool) : Prop :=
  ∀ calls path flags mode,
    let r := host (calls ++ [.open path flags mode])
    0 ≤ r.int.toInt → 3 ≤ r.int.toInt ∧ hostFiles host isOpen calls r.int = none

/-- One more call after the others. -/
theorem hostFilesFrom_append (host : Host) (past : List HostCall) (files : FileTable)
    (calls : List HostCall) (c : HostCall) :
    hostFilesFrom host past files (calls ++ [c]) =
      (hostFilesFrom host past files calls).after c (host (past ++ calls ++ [c]))
        (past ++ calls).length := by
  induction calls generalizing past files with
  | nil =>
    rw [List.append_nil]
    rfl
  | cons d calls ih =>
    rw [List.cons_append, hostFilesFrom, ih, hostFilesFrom, List.append_assoc past [d] calls]
    rfl

/-- The open files after one more call. -/
theorem hostFiles_append (host : Host) (isOpen : Word → Bool) (calls : List HostCall)
    (c : HostCall) :
    hostFiles host isOpen (calls ++ [c]) =
      (hostFiles host isOpen calls).after c (host (calls ++ [c])) calls.length :=
  hostFilesFrom_append host [] _ calls c

/-- The open files after one more close. -/
theorem hostFiles_close (host : Host) (isOpen : Word → Bool) (calls : List HostCall) (fd : Word) :
    hostFiles host isOpen (calls ++ [.close fd]) =
      if (host (calls ++ [.close fd])).int = 0 then
        Function.update (hostFiles host isOpen calls) fd none
      else hostFiles host isOpen calls :=
  hostFiles_append ..

/-- The open files after one more open. -/
theorem hostFiles_open (host : Host) (isOpen : Word → Bool) (calls : List HostCall)
    (path : List Byte) (flags mode : Word) :
    hostFiles host isOpen (calls ++ [.open path flags mode]) =
      if 0 ≤ (host (calls ++ [.open path flags mode])).int.toInt then
        Function.update (hostFiles host isOpen calls)
          (host (calls ++ [.open path flags mode])).int (some (.opened calls.length))
      else hostFiles host isOpen calls :=
  hostFiles_append ..

/-- What holds of the open files in every state the host can reach: a file that was open at the
start has its own descriptor, and an opened file has a descriptor from three up and the
position of a past call. -/
structure HostFilesInv (files : FileTable) (position : ℕ) : Prop where
  initial : ∀ fd fd', files fd = some (.initial fd') → fd = fd'
  opened : ∀ fd k, files fd = some (.opened k) → 3 ≤ fd.toInt ∧ k < position

/-- The invariant after any sequence of calls. -/
theorem hostFiles_inv {host : Host} {isOpen : Word → Bool} (hopen : host.OpensFresh isOpen)
    (calls : List HostCall) : HostFilesInv (hostFiles host isOpen calls) calls.length := by
  induction calls using List.reverseRecOn with
  | nil =>
    have hstart : hostFiles host isOpen [] = FileTable.start isOpen := rfl
    rw [hstart]
    unfold FileTable.start
    refine ⟨fun fd fd' h => ?_, fun fd k h => ?_⟩
    · split at h <;> simp_all
    · split at h <;> simp_all
  | append_singleton calls c ih =>
    have hlength : calls.length < (calls ++ [c]).length := by simp
    have hsame : HostFilesInv (hostFiles host isOpen calls) (calls ++ [c]).length :=
      ⟨ih.initial, fun fd k h => ⟨(ih.opened fd k h).1, (ih.opened fd k h).2.trans hlength⟩⟩
    rw [hostFiles_append]
    unfold FileTable.after
    cases c with
    | «open» path flags mode =>
      dsimp only
      split
      · next hret =>
        obtain ⟨hge, -⟩ := hopen calls path flags mode hret
        refine ⟨fun fd fd' h => ?_, fun fd k h => ?_⟩
        · rw [Function.update_apply] at h
          split at h
          · cases h
          · exact hsame.initial fd fd' h
        · rw [Function.update_apply] at h
          split at h
          · next heq =>
            cases h
            exact ⟨heq ▸ hge, hlength⟩
          · exact hsame.opened fd k h
      · exact hsame
    | close fd₀ =>
      dsimp only
      split
      · refine ⟨fun fd fd' h => ?_, fun fd k h => ?_⟩
        · rw [Function.update_apply] at h
          split at h
          · cases h
          · exact hsame.initial fd fd' h
        · rw [Function.update_apply] at h
          split at h
          · cases h
          · exact hsame.opened fd k h
      · exact hsame
    | lseek | read | write | fstat | stat => exact hsame

/-- Only open and close change the open files. -/
theorem FileTable.after_of_descriptor (files : FileTable) {c : HostCall} {number fd : Word}
    (hc : c.descriptor = some (number, fd)) (hnumber : number ≠ scClose) (r : HostReply)
    (position : ℕ) : files.after c r position = files := by
  cases c with
  | close => cases hc; exact absurd rfl hnumber
  | «open» => cases hc
  | lseek | read | write | fstat | stat => rfl

end VeriCross
