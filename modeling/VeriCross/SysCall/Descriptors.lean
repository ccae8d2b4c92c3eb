import VeriCross.FunctionalCore
import VeriCross.SysCall.DescriptorTable

/-!
# Operations on descriptors

As long as the program uses only open numbers, and a new number is not one that is still open,
every operation on an opened file reaches that file and no two open numbers share a host
descriptor. The table keeps the entry of a closed number and invents one for an unknown number,
so an operation on a number that is not open always misses the error that a descriptor table
should report.
-/

namespace VeriCross

open RiscV SysCall

variable {n : ℕ} {α β : Type}

namespace DescriptorState

variable {host : Host} {isOpen : Word → Bool} {P : RegisterMethods α} {R : RegisterMethods β}
  {s : DescriptorState} {ctx : CallContext n α β}

/-- A state that opens no number and keeps what belongs to the open ones keeps the
invariant. -/
theorem Inv.of_kept {s' : DescriptorState} (h : Inv host isOpen s)
    (hguest : ∀ entry ∈ s'.guest, entry ∈ s.guest)
    (hmap : ∀ number fd : Word, s.sys.fdMap[number]? = some fd → s'.sys.fdMap[number]? = some fd)
    (hfiles : ∀ (number : Word) file fd, (number, file) ∈ s'.guest →
      s.sys.fdMap[number]? = some fd → hostFiles host isOpen s.calls fd = some file →
      hostFiles host isOpen s'.calls fd = some file) : Inv host isOpen s' where
  mapped := fun number file hopen => by
    obtain ⟨fd, hfd, hfile⟩ := h.mapped number file (hguest _ hopen)
    exact ⟨fd, hmap number fd hfd, hfiles number file fd hopen hfd hfile⟩
  injective := fun number number' file hopen hopen' =>
    h.injective number number' file (hguest _ hopen) (hguest _ hopen')

/-- A state with the same open numbers, entries and files keeps the invariant. -/
theorem Inv.of_same {s' : DescriptorState} (h : Inv host isOpen s) (hguest : s'.guest = s.guest)
    (hmap : s'.sys.fdMap = s.sys.fdMap)
    (hfiles : hostFiles host isOpen s'.calls = hostFiles host isOpen s.calls) :
    Inv host isOpen s' := by
  refine h.of_kept (fun _ => (hguest ▸ ·)) ?_ ?_
  · intro number fd hentry
    rw [hmap, hentry]
  · intro number file fd _ _ hfile
    rw [hfiles, hfile]

/-- The descriptor of an open number. -/
theorem Inv.fdAt_eq (h : Inv host isOpen s) {number : Word} {file : FileId}
    (hopen : (number, file) ∈ s.guest) :
    s.sys.fdMap[number]? = some (s.sys.fdAt number) ∧
      hostFiles host isOpen s.calls (s.sys.fdAt number) = some file := by
  obtain ⟨fd, hfd, hfile⟩ := h.mapped number file hopen
  have heq : s.sys.fdAt number = fd := by rw [SysCall.fdAt, hfd, Option.getD_some]
  rw [heq]
  exact ⟨hfd, hfile⟩

/-- No two open numbers share a host descriptor. -/
theorem Inv.distinct (h : Inv host isOpen s) : s.Distinct := by
  rintro ⟨number, file⟩ hopen ⟨number', file'⟩ hopen' heq
  have h1 := (h.fdAt_eq hopen).2
  have h2 := (h.fdAt_eq hopen').2
  dsimp only at heq
  rw [heq, h2] at h1
  cases h1
  rw [h.injective number number' file hopen hopen']

/-- The numbers known as open after a close. -/
theorem step_guest_of_close (hnumber : P.readReg ctx.prim regA7 = scClose) :
    (s.step host P R ctx).guest =
      if (s.emulated host P R ctx).readReg P regA0 = 0 then
        s.guest.filter (·.1 ≠ P.readReg ctx.prim regA0)
      else s.guest := by
  rw [step]
  simp only [hnumber, true_and]
  split
  · rfl
  · exact if_neg fun hopen => absurd hopen.1 (by decide)

/-- The numbers known as open after an open. -/
theorem step_guest_of_open (hnumber : P.readReg ctx.prim regA7 = scOpen) :
    (s.step host P R ctx).guest =
      if (s.emulated host P R ctx).calls ≠ s.calls ∧
          0 ≤ ((s.emulated host P R ctx).reply host).int.toInt then
        ((s.emulated host P R ctx).readReg P regA0, .opened s.calls.length) :: s.guest
      else s.guest := by
  rw [step]
  simp only [hnumber, true_and]
  exact if_neg fun hclose => absurd hclose.1 (by decide)

/-- The numbers known as open after any other call. -/
theorem step_guest_of_other (hclose : P.readReg ctx.prim regA7 ≠ scClose)
    (hopen : P.readReg ctx.prim regA7 ≠ scOpen) : (s.step host P R ctx).guest = s.guest := by
  rw [step]
  dsimp only
  rw [if_neg fun h => hclose h.1, if_neg fun h => hopen h.1]

/-- Closing an open number keeps the invariant. -/
theorem Inv.step_close (hP : P.Lawful) (h : Inv host isOpen s)
    (hnumber : P.readReg ctx.prim regA7 = scClose)
    (hopen : s.IsOpen (P.readReg ctx.prim regA0)) :
    Inv host isOpen (s.step host P R ctx) := by
  obtain ⟨file, hfile⟩ := hopen
  obtain ⟨hfd, hhost⟩ := h.fdAt_eq hfile
  obtain ⟨hsys, hcalls⟩ := Machine.emulate_of_close (M := s.machine ctx) (R := R) host hP hnumber
  have hguest : (s.step host P R ctx).guest = _ := step_guest_of_close hnumber
  refine h.of_kept ?_ ?_ ?_
  · intro entry hentry
    rw [hguest] at hentry
    split at hentry
    · exact (List.mem_filter.mp hentry).1
    · exact hentry
  · intro number fd hentry
    change (s.emulated host P R ctx).sys.fdMap[number]? = some fd
    rw [emulated, hsys]
    exact SysCall.fdTouch_getElem? _ _ hentry
  · intro number f fd hf hentry hfilef
    change hostFiles host isOpen (s.emulated host P R ctx).calls fd = some f
    split at hcalls
    · obtain ⟨hcalls, hret⟩ := hcalls
      have hreply : (s.emulated host P R ctx).reply host =
          host (s.calls ++ [.close (s.sys.fdAt (P.readReg ctx.prim regA0))]) :=
        congrArg host hcalls
      rw [emulated, hcalls]
      change hostFiles host isOpen (s.calls ++ [.close _]) fd = _
      rw [hostFiles_close]
      split
      · next hzero =>
        -- the host freed the descriptor, and no other open number stands for it
        have ha0 : (s.emulated host P R ctx).readReg P regA0 = 0 := by
          refine hret.trans (if_pos ?_)
          exact (congrArg HostReply.int hreply).trans hzero
        rw [hguest, if_pos ha0, List.mem_filter] at hf
        obtain ⟨hf, hne⟩ := hf
        rw [Function.update_apply, if_neg, hfilef]
        intro heq
        subst heq
        have hsame := hhost.symm.trans hfilef
        cases hsame
        exact of_decide_eq_true hne (h.injective _ _ _ hf hfile)
      · exact hfilef
    · rw [emulated, hcalls.1]
      exact hfilef

/-- A state in which one number that was not open stands for a newly opened file keeps the
invariant. -/
theorem Inv.of_opened {s' : DescriptorState} (number fd : Word) (h : Inv host isOpen s)
    (hinv : HostFilesInv (hostFiles host isOpen s.calls) s.calls.length)
    (hfree : hostFiles host isOpen s.calls fd = none)
    (hnext : ¬s.IsOpen number)
    (hguest : s'.guest = (number, .opened s.calls.length) :: s.guest)
    (hmap : s'.sys.fdMap = s.sys.fdMap.insert number fd)
    (hfiles : hostFiles host isOpen s'.calls =
      Function.update (hostFiles host isOpen s.calls) fd (some (.opened s.calls.length))) :
    Inv host isOpen s' := by
  have hnew : ∀ number', (number', .opened s.calls.length) ∉ s.guest := by
    intro number' hopen
    obtain ⟨fd', -, hfile⟩ := h.mapped _ _ hopen
    exact absurd (hinv.opened _ _ hfile).2 (lt_irrefl _)
  refine ⟨fun number' file hopen => ?_, fun number₁ number₂ file h₁ h₂ => ?_⟩
  · rw [hmap, hfiles]
    rw [hguest] at hopen
    rcases List.mem_cons.mp hopen with heq | hold
    · cases heq
      exact ⟨fd, by rw [TreeMaps.getElem?_insert_ite, if_pos rfl], Function.update_self ..⟩
    · obtain ⟨fd', hentry, hfile⟩ := h.mapped _ _ hold
      refine ⟨fd', ?_, ?_⟩
      · rw [TreeMaps.getElem?_insert_ite, if_neg, hentry]
        rintro rfl
        exact hnext ⟨file, hold⟩
      · rw [Function.update_of_ne, hfile]
        rintro rfl
        rw [hfree] at hfile
        cases hfile
  · rw [hguest] at h₁ h₂
    rcases List.mem_cons.mp h₁ with heq₁ | h₁ <;> rcases List.mem_cons.mp h₂ with heq₂ | h₂
    · cases heq₁
      cases heq₂
      rfl
    · cases heq₁
      exact absurd h₂ (hnew _)
    · cases heq₂
      exact absurd h₁ (hnew _)
    · exact h.injective _ _ _ h₁ h₂

/-- Opening a file under a number that is not open keeps the invariant. -/
theorem Inv.step_open (hP : P.Lawful) (hfresh : host.OpensFresh isOpen) (h : Inv host isOpen s)
    (hnumber : P.readReg ctx.prim regA7 = scOpen) (hnext : ¬s.IsOpen s.sys.fdNext) :
    Inv host isOpen (s.step host P R ctx) := by
  have hguest : (s.step host P R ctx).guest = _ := step_guest_of_open hnumber
  rcases Machine.emulate_of_open (M := s.machine ctx) (R := R) host hP hnumber with
    ⟨hsys, hcalls⟩ | ⟨path, flags, mode, hcalls, hret⟩
  · have hsame : (s.step host P R ctx).guest = s.guest := by
      rw [hguest, if_neg]
      exact fun hnew => hnew.1 hcalls
    exact h.of_same hsame (congrArg SysCall.fdMap hsys) (congrArg (hostFiles host isOpen) hcalls)
  · have hreply : (s.emulated host P R ctx).reply host =
        host (s.calls ++ [.open path flags mode]) := congrArg host hcalls
    have hfiles := hostFiles_open host isOpen s.calls path flags mode
    rw [← hreply] at hfiles
    have hcalls' : (s.step host P R ctx).calls = s.calls ++ [.open path flags mode] := hcalls
    by_cases hok : 0 ≤ ((s.emulated host P R ctx).reply host).int.toInt
    · obtain ⟨hsys, ha0⟩ := (if_pos hok).mp hret
      have hne : (s.emulated host P R ctx).calls ≠ s.calls := by
        rw [emulated, hcalls]
        exact fun heq => absurd (congrArg List.length heq) (by simp [machine])
      have hint : ((s.emulated host P R ctx).reply host).int =
          (host (s.calls ++ [.open path flags mode])).int := congrArg HostReply.int hreply
      rw [if_pos hok] at hfiles
      refine h.of_opened s.sys.fdNext ((s.emulated host P R ctx).reply host).int
        (hostFiles_inv hfresh s.calls) ?_ hnext ?_ ?_ ?_
      · rw [hint] at hok ⊢
        exact (hfresh s.calls path flags mode hok).2
      · rw [hguest, if_pos ⟨hne, hok⟩]
        exact congrArg (fun a0 => (a0, FileId.opened s.calls.length) :: s.guest) ha0
      · change (s.emulated host P R ctx).sys.fdMap = _
        rw [emulated, hsys]
        rfl
      · rw [hcalls', hfiles]
    · have hsys := (if_neg hok).mp hret
      have hsame : (s.step host P R ctx).guest = s.guest := by
        rw [hguest, if_neg]
        exact fun hnew => hok hnew.2
      rw [if_neg hok, ← hcalls'] at hfiles
      exact h.of_same hsame (congrArg SysCall.fdMap hsys) hfiles

/-- An operation on an open number other than close keeps the invariant, and so does every call
that neither takes nor returns a number. -/
theorem Inv.step_other (h : Inv host isOpen s) (hclose : P.readReg ctx.prim regA7 ≠ scClose)
    (hopen : P.readReg ctx.prim regA7 ≠ scOpen) : Inv host isOpen (s.step host P R ctx) := by
  have hguest : (s.step host P R ctx).guest = _ := step_guest_of_other hclose hopen
  by_cases huses : UsesDescriptor (P.readReg ctx.prim regA7)
  · obtain ⟨hsys, c, hcalls, hc⟩ :=
      Machine.emulate_of_transfer (M := s.machine ctx) (R := R) host rfl (huses.resolve_left hclose)
    refine h.of_kept (fun _ => (hguest ▸ ·)) ?_ ?_
    · intro number fd hentry
      change (s.emulated host P R ctx).sys.fdMap[number]? = some fd
      rw [emulated, hsys]
      exact SysCall.fdTouch_getElem? _ _ hentry
    · intro number f fd _ _ hfile
      change hostFiles host isOpen (s.emulated host P R ctx).calls fd = some f
      rw [emulated, hcalls, hostFiles_append, FileTable.after_of_descriptor _ hc hclose]
      exact hfile
  · obtain ⟨hmap, hcalls⟩ := Machine.emulate_of_other (M := s.machine ctx) (R := R) host huses hopen
    have hfiles : hostFiles host isOpen (s.emulated host P R ctx).calls =
        hostFiles host isOpen s.calls := by
      rcases hcalls with hcalls | ⟨path, hcalls⟩
      · exact congrArg (hostFiles host isOpen) hcalls
      · rw [emulated, hcalls, hostFiles_append]
        rfl
    exact h.of_same hguest hmap hfiles

/-- The invariant holds at the start. -/
theorem Inv.start (hstd : ∀ fd : Word, fd.toNat < 3 → isOpen fd = true) (brkAddr : Word) :
    Inv host isOpen (start brkAddr) := by
  have hmap : ∀ key : Word, (DescriptorState.start brkAddr).sys.fdMap[key]? =
      if key = 2 then some 2 else if key = 1 then some 1 else if key = 0 then some 0 else none := by
    intro key
    change (((Std.TreeMap.empty.insert 0 0).insert 1 1).insert 2 2)[key]? = _
    rw [TreeMaps.getElem?_insert_ite, TreeMaps.getElem?_insert_ite, TreeMaps.getElem?_insert_ite]
    rfl
  have hfiles : ∀ fd : Word, fd.toNat < 3 → hostFiles host isOpen [] fd = some (.initial fd) :=
    fun fd hfd => if_pos (hstd fd hfd)
  refine ⟨fun number file hopen => ?_, fun number number' file h h' => ?_⟩
  · simp only [DescriptorState.start, List.mem_cons, Prod.mk.injEq, List.not_mem_nil,
      or_false] at hopen
    rcases hopen with ⟨rfl, rfl⟩ | ⟨rfl, rfl⟩ | ⟨rfl, rfl⟩
    · exact ⟨0, hmap 0, hfiles 0 (by decide)⟩
    · exact ⟨1, hmap 1, hfiles 1 (by decide)⟩
    · exact ⟨2, hmap 2, hfiles 2 (by decide)⟩
  · simp only [DescriptorState.start, List.mem_cons, Prod.mk.injEq, List.not_mem_nil,
      or_false] at h h'
    rcases h with ⟨rfl, rfl⟩ | ⟨rfl, rfl⟩ | ⟨rfl, rfl⟩ <;>
      rcases h' with ⟨rfl, hfile⟩ | ⟨rfl, hfile⟩ | ⟨rfl, hfile⟩ <;>
      first | rfl | (cases hfile)

/-- The invariant holds in every reached state. -/
theorem Reached.inv (hP : P.Lawful) (hfresh : host.OpensFresh isOpen)
    (hstd : ∀ fd : Word, fd.toNat < 3 → isOpen fd = true) {brkAddr : Word}
    (hs : Reached n host P R brkAddr s) : Inv host isOpen s := by
  induction hs with
  | start => exact Inv.start hstd brkAddr
  | step ctx _ hnames hnext ih =>
    by_cases hclose : P.readReg ctx.prim regA7 = scClose
    · exact ih.step_close hP hclose (hnames (.inl hclose))
    · by_cases hopen : P.readReg ctx.prim regA7 = scOpen
      · exact ih.step_open hP hfresh hopen (hnext hopen)
      · exact ih.step_other hclose hopen

/-- In a state with the invariant a call behaves exactly when it names an open number. -/
theorem Inv.behaves_iff (hP : P.Lawful) (hfresh : host.OpensFresh isOpen)
    (h : Inv host isOpen s) : Behaves host isOpen P R s ctx ↔ NamesOpen P s ctx := by
  have happend : ∀ c, s.calls ++ [c] ≠ s.calls := fun c heq =>
    absurd (congrArg List.length heq) (by simp)
  constructor
  · intro hbehaves huses
    by_contra hnot
    obtain ⟨-, herror⟩ := hbehaves huses
    obtain ⟨hnone, hret⟩ := herror hnot
    by_cases hclose : P.readReg ctx.prim regA7 = scClose
    · obtain ⟨-, hcalls⟩ := Machine.emulate_of_close (M := s.machine ctx) (R := R) host hP hclose
      split at hcalls
      · exact happend _ (hcalls.1.symm.trans hnone)
      · exact absurd (hcalls.2.symm.trans hret) (by decide)
    · obtain ⟨-, c, hcalls, -⟩ := Machine.emulate_of_transfer (M := s.machine ctx) (R := R) host rfl
        (huses.resolve_left hclose)
      exact happend _ (hcalls.symm.trans hnone)
  · intro hnames huses
    refine ⟨fun position hopen => ?_, fun hnot => absurd (hnames huses) hnot⟩
    obtain ⟨-, hfile⟩ := h.fdAt_eq hopen
    by_cases hclose : P.readReg ctx.prim regA7 = scClose
    · obtain ⟨-, hcalls⟩ := Machine.emulate_of_close (M := s.machine ctx) (R := R) host hP hclose
      have hge := ((hostFiles_inv hfresh s.calls).opened _ _ hfile).1
      have hcalls' := ((if_pos hge).mp hcalls).1
      exact ⟨_, _, hcalls', by rw [hclose]; rfl, hfile⟩
    · obtain ⟨-, c, hcalls, hc⟩ := Machine.emulate_of_transfer (M := s.machine ctx) (R := R) host
        rfl (huses.resolve_left hclose)
      exact ⟨c, _, hcalls, hc, hfile⟩

/-- Over every history in which each call names an open number and no open returns an open
number, the open numbers stand for different host descriptors, and one more call behaves as a
descriptor table should exactly when it names an open number. -/
theorem descriptors_behave (hP : P.Lawful) (hfresh : host.OpensFresh isOpen)
    (hstd : ∀ fd : Word, fd.toNat < 3 → isOpen fd = true) {brkAddr : Word}
    (hs : Reached n host P R brkAddr s) :
    s.Distinct ∧
      ∀ ctx : CallContext n α β, Behaves host isOpen P R s ctx ↔ NamesOpen P s ctx :=
  ⟨(hs.inv hP hfresh hstd).distinct, fun _ => (hs.inv hP hfresh hstd).behaves_iff hP hfresh⟩

/-- A host that opens a file in its first call, under descriptor 3, and refuses all others. -/
def oneFileHost : Host := fun calls =>
  { (default : HostReply) with ret := if calls.length = 1 then 3 else -1 }

/-- A call with a number and a first argument, the other registers being zero. -/
def sampleCall (number arg : Word) : CallContext 0 FunctionalState FunctionalState :=
  let core := FunctionalCore.new ⟨0, 0, 0, 0, 0, 0, 0, 0, 0⟩ ⟨0, 0, 0, 0, 0, 0, 0, 0, 0⟩
  { prim := FunctionalCore.writeReg (FunctionalCore.writeReg core regA7 number) regA0 arg
    reps := Fin.elim0
    mem := Memory.new core.memif Fin.elim0 memWords }

/-- The host opens only descriptors that are not open. -/
theorem oneFileHost_opensFresh : oneFileHost.OpensFresh fun fd => fd.toNat < 3 := by
  intro calls path flags mode r hr
  cases calls with
  | nil => exact ⟨(by decide : 3 ≤ (3 : Word).toInt), rfl⟩
  | cons c calls =>
    have hret : r.ret = -1 := if_neg (by simp)
    rw [HostReply.int, hret] at hr
    exact absurd hr (by decide)

/-- After a file was opened, seeking on its number reaches that file. -/
theorem seek_after_open :
    let s := (start 0).step oneFileHost FunctionalCore.registers FunctionalCore.registers
      (sampleCall scOpen 0)
    s.Distinct ∧ Behaves oneFileHost (fun fd => fd.toNat < 3) FunctionalCore.registers
      FunctionalCore.registers s (sampleCall scLseek 3) := by
  intro s
  have hs : Reached 0 oneFileHost FunctionalCore.registers FunctionalCore.registers 0 s := by
    refine .step (sampleCall scOpen 0) .start (fun huses => ?_) fun _ => ?_
    · exact absurd huses (by unfold UsesDescriptor; decide)
    · rintro ⟨file, hfile⟩
      simp [DescriptorState.start, SysCall.new] at hfile
  have hbehave := descriptors_behave FunctionalCore.registers_lawful oneFileHost_opensFresh
    (fun fd hfd => decide_eq_true hfd) hs
  refine ⟨hbehave.1, (hbehave.2 _).mpr fun _ => ⟨.opened 0, ?_⟩⟩
  decide +kernel

/-- Seeking on a number that was never opened moves the simulator's standard input. -/
theorem seek_on_unknown_number :
    oneFileHost.OpensFresh (fun fd => fd.toNat < 3) ∧
    ¬Behaves oneFileHost (fun fd => fd.toNat < 3) FunctionalCore.registers
      FunctionalCore.registers (start 0) (sampleCall scLseek 7) := by
  refine ⟨oneFileHost_opensFresh, fun h => ?_⟩
  have hnot : ¬(start 0).IsOpen 7 := by
    rintro ⟨file, hfile⟩
    simp [DescriptorState.start] at hfile
  have hcalls := ((h (.inr (.inl rfl))).2 hnot).1
  exact absurd (congrArg List.length hcalls) (by decide)

end DescriptorState

end VeriCross
