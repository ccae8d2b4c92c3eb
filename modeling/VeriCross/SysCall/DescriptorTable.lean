import VeriCross.Library.TreeMaps
import VeriCross.SysCall.HostFiles
import VeriCross.SysCall.Primitives

/-!
# The virtual descriptor table

A history of calls, the numbers the program knows as open in it (from a successful open until a
successful close) and what a descriptor table owes to the program. Every emulated call changes
the table and the host calls in one of four ways.
-/

namespace VeriCross

open RiscV SysCall

variable {n : ℕ} {α β : Type}

/-- What the program and the other parts of the simulator may change between two calls. -/
structure CallContext (n : ℕ) (α β : Type) where
  prim : Core α
  reps : Fin n → Core β
  mem : Memory n

/-- The emulation state over a history of calls, with the numbers the program knows as open and
the files they were opened for. -/
structure DescriptorState where
  sys : SysCall
  calls : List HostCall
  guest : List (Word × FileId)

namespace DescriptorState

/-- The machine on which a call is emulated. -/
def machine (s : DescriptorState) (ctx : CallContext n α β) : Machine n α β :=
  { prim := ctx.prim, reps := ctx.reps, mem := ctx.mem, sys := s.sys, calls := s.calls }

/-- The state before the first call: numbers 0, 1 and 2 stand for the simulator's own. -/
def start (brkAddr : Word) : DescriptorState where
  sys := SysCall.new 0 1 2 brkAddr
  calls := []
  guest := [(0, .initial 0), (1, .initial 1), (2, .initial 2)]

section Step

variable (host : Host) (P : RegisterMethods α) (R : RegisterMethods β)

/-- The machine after the call is emulated. -/
def emulated (s : DescriptorState) (ctx : CallContext n α β) : Machine n α β :=
  (s.machine ctx).emulate host P R

/-- The state after the call. A close that returns zero closes the number it names; an open for
which the host opened a file opens the number it returns. -/
def step (s : DescriptorState) (ctx : CallContext n α β) : DescriptorState :=
  let M := s.emulated host P R ctx
  { sys := M.sys
    calls := M.calls
    guest :=
      if P.readReg ctx.prim regA7 = scClose ∧ M.readReg P regA0 = 0 then
        s.guest.filter (·.1 ≠ P.readReg ctx.prim regA0)
      else if P.readReg ctx.prim regA7 = scOpen ∧ M.calls ≠ s.calls ∧
          0 ≤ (M.reply host).int.toInt then
        (M.readReg P regA0, .opened s.calls.length) :: s.guest
      else s.guest }

end Step

/-- The system calls that take a descriptor. -/
def UsesDescriptor (number : Word) : Prop :=
  number = scClose ∨ number = scLseek ∨ number = scRead ∨ number = scWrite ∨ number = scFstat

/-- The program knows the number as open. -/
def IsOpen (s : DescriptorState) (number : Word) : Prop := ∃ file, (number, file) ∈ s.guest

/-- A call that takes a descriptor names a number that is open. -/
def NamesOpen (P : RegisterMethods α) (s : DescriptorState) (ctx : CallContext n α β) : Prop :=
  UsesDescriptor (P.readReg ctx.prim regA7) → s.IsOpen (P.readReg ctx.prim regA0)

/-- The number that an open would return is not open. -/
def NextFree (P : RegisterMethods α) (s : DescriptorState) (ctx : CallContext n α β) : Prop :=
  P.readReg ctx.prim regA7 = scOpen → ¬s.IsOpen s.sys.fdNext

/-- What a descriptor table owes to one call: an operation on the number of an opened file makes
exactly one host call, the one it stands for and on that file, and an operation on a number that
is not open makes no host call and returns `-EBADF`. -/
def Behaves (host : Host) (isOpen : Word → Bool) (P : RegisterMethods α) (R : RegisterMethods β)
    (s : DescriptorState) (ctx : CallContext n α β) : Prop :=
  let number := P.readReg ctx.prim regA7
  let fd := P.readReg ctx.prim regA0
  let M := s.emulated host P R ctx
  UsesDescriptor number →
    (∀ position, (fd, .opened position) ∈ s.guest →
      ∃ c hostFd, M.calls = s.calls ++ [c] ∧ c.descriptor = some (number, hostFd) ∧
        hostFiles host isOpen s.calls hostFd = some (.opened position)) ∧
    (¬s.IsOpen fd → M.calls = s.calls ∧ M.readReg P regA0 = -9)

/-- No two open numbers stand for the same host descriptor, and no number for two files. -/
def Distinct (s : DescriptorState) : Prop :=
  ∀ entry ∈ s.guest, ∀ entry' ∈ s.guest,
    s.sys.fdAt entry.1 = s.sys.fdAt entry'.1 → entry = entry'

/-- The states reached from the start by calls that name only open numbers and return only
numbers that are not open. -/
inductive Reached (n : ℕ) (host : Host) (P : RegisterMethods α) (R : RegisterMethods β)
    (brkAddr : Word) : DescriptorState → Prop
  | start : Reached n host P R brkAddr (start brkAddr)
  | step {s : DescriptorState} (ctx : CallContext n α β) : Reached n host P R brkAddr s →
      NamesOpen P s ctx → NextFree P s ctx → Reached n host P R brkAddr (s.step host P R ctx)

/-- Every open number has an entry for a host descriptor of the file it stands for, and no two
numbers stand for one file. -/
structure Inv (host : Host) (isOpen : Word → Bool) (s : DescriptorState) : Prop where
  mapped : ∀ number file, (number, file) ∈ s.guest →
    ∃ fd, s.sys.fdMap[number]? = some fd ∧ hostFiles host isOpen s.calls fd = some file
  injective : ∀ number number' file, (number, file) ∈ s.guest → (number', file) ∈ s.guest →
    number = number'

end DescriptorState

/-- A lookup keeps every entry. -/
theorem SysCall.fdTouch_getElem? (sys : SysCall) (key : Word) {key' fd : Word}
    (h : sys.fdMap[key']? = some fd) : (sys.fdTouch key).fdMap[key']? = some fd := by
  rw [fdTouch]
  split
  · exact h
  · next hkey =>
    rw [TreeMaps.getElem?_insert_ite, if_neg, h]
    rintro rfl
    rw [Std.TreeMap.contains_eq_isSome_getElem?, h] at hkey
    exact hkey rfl

namespace Machine

variable (host : Host) {P : RegisterMethods α} {R : RegisterMethods β} {M : Machine n α β}

/-- Lseek, read, write and fstat make one host call on the descriptor the table gives. -/
theorem emulate_of_transfer {number : Word} (hnumber : M.readReg P regA7 = number)
    (huses : number = scLseek ∨ number = scRead ∨ number = scWrite ∨ number = scFstat) :
    (M.emulate host P R).sys = M.sys.fdTouch (M.readReg P regA0) ∧
      ∃ c, (M.emulate host P R).calls = M.calls ++ [c] ∧
        c.descriptor = some (number, M.sys.fdAt (M.readReg P regA0)) := by
  rcases huses with rfl | rfl | rfl | rfl
  · rw [M.emulate_eq_lseek host hnumber]
    exact ⟨rfl, _, rfl, rfl⟩
  · rw [M.emulate_eq_read host hnumber, emulateRead]
    dsimp only
    split <;> exact ⟨rfl, _, rfl, rfl⟩
  · rw [M.emulate_eq_write host hnumber]
    exact ⟨rfl, _, rfl, rfl⟩
  · rw [M.emulate_eq_fstat host hnumber]
    unfold emulateFstat finishStat
    dsimp only
    split <;> exact ⟨rfl, _, rfl, rfl⟩

/-- Close makes one host call, unless the descriptor is one of the simulator's own. -/
theorem emulate_of_close (hP : P.Lawful) (hnumber : M.readReg P regA7 = scClose) :
    (M.emulate host P R).sys = M.sys.fdTouch (M.readReg P regA0) ∧
      if 3 ≤ (M.sys.fdAt (M.readReg P regA0)).toInt then
        (M.emulate host P R).calls = M.calls ++ [.close (M.sys.fdAt (M.readReg P regA0))] ∧
        (M.emulate host P R).readReg P regA0 =
          if ((M.emulate host P R).reply host).int = 0 then 0
          else -((M.emulate host P R).reply host).errno
      else
        (M.emulate host P R).calls = M.calls ∧ (M.emulate host P R).readReg P regA0 = 0 := by
  rw [M.emulate_eq_close host hnumber, emulateClose, lookup]
  dsimp only
  split
  · refine ⟨rfl, rfl, ?_⟩
    exact (hP.read_write ..).trans (if_pos rfl)
  · exact ⟨rfl, rfl, (hP.read_write ..).trans (if_pos rfl)⟩

/-- Open either finds no path and changes nothing, or makes one host call and gives the next
number to the descriptor it returns. -/
theorem emulate_of_open (hP : P.Lawful) (hnumber : M.readReg P regA7 = scOpen) :
    ((M.emulate host P R).sys = M.sys ∧ (M.emulate host P R).calls = M.calls) ∨
      ∃ path flags mode, (M.emulate host P R).calls = M.calls ++ [.open path flags mode] ∧
        if 0 ≤ ((M.emulate host P R).reply host).int.toInt then
          (M.emulate host P R).sys = M.sys.fdAdd ((M.emulate host P R).reply host).int ∧
          (M.emulate host P R).readReg P regA0 = M.sys.fdNext
        else (M.emulate host P R).sys = M.sys := by
  rw [M.emulate_eq_open host hnumber, emulateOpen]
  split
  · exact .inl ⟨rfl, rfl⟩
  · next path _ =>
    refine .inr ⟨path, openFlags (M.readReg P regA1), M.readReg P regA2, ?_⟩
    dsimp only
    split
    · refine ⟨rfl, ?_⟩
      rw [if_pos (by assumption)]
      exact ⟨rfl, (hP.read_write ..).trans (if_pos rfl)⟩
    · refine ⟨rfl, ?_⟩
      rw [if_neg (by assumption)]
      rfl

/-- The other system calls leave the descriptor table alone and make no host call on a
descriptor. -/
theorem emulate_of_other (huses : ¬DescriptorState.UsesDescriptor (M.readReg P regA7))
    (hopen : M.readReg P regA7 ≠ scOpen) :
    (M.emulate host P R).sys.fdMap = M.sys.fdMap ∧
      ((M.emulate host P R).calls = M.calls ∨
        ∃ path, (M.emulate host P R).calls = M.calls ++ [.stat path]) := by
  simp only [DescriptorState.UsesDescriptor, not_or] at huses
  obtain ⟨hclose, hlseek, hread, hwrite, hfstat⟩ := huses
  unfold Machine.emulate
  dsimp only
  rw [if_neg hclose, if_neg hlseek, if_neg hread, if_neg hwrite, if_neg hfstat]
  by_cases hexit : M.readReg P regA7 = scExit
  · rw [if_pos hexit]
    exact ⟨rfl, .inl rfl⟩
  by_cases htime : M.readReg P regA7 = scGettimeofday
  · rw [if_neg hexit, if_pos htime]
    exact ⟨rfl, .inl rfl⟩
  by_cases hsbrk : M.readReg P regA7 = scSbrk
  · rw [if_neg hexit, if_neg htime, if_pos hsbrk]
    rw [emulateSbrk]
    split <;> exact ⟨rfl, .inl rfl⟩
  rw [if_neg hexit, if_neg htime, if_neg hsbrk, if_neg hopen]
  split
  · rw [emulateStat]
    split
    · exact ⟨rfl, .inl rfl⟩
    · rw [finishStat]
      dsimp only
      split <;> exact ⟨rfl, .inr ⟨_, rfl⟩⟩
  · exact ⟨rfl, .inl rfl⟩

end Machine

end VeriCross
