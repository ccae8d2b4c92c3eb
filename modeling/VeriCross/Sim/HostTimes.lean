import VeriCross.CoreWrapper
import VeriCross.Sim.Concurrent
import VeriCross.Sim.Single

/-!
# The time stamps of the host

Two hosts that answer alike except for the time stamps and the block count of `struct stat` are
not told apart by emulation: `postprocess_stat` overwrites these members before any word is
copied. The main loops ask the host nothing else, so their whole runs are the same.
-/

namespace VeriCross

open RiscV SysCall

/-- The same members, except for the time stamps and the block count. -/
structure Stat.AlikeButTimes (st st' : Stat) : Prop where
  dev : st.dev = st'.dev
  ino : st.ino = st'.ino
  nlink : st.nlink = st'.nlink
  mode : st.mode = st'.mode
  uid : st.uid = st'.uid
  gid : st.gid = st'.gid
  pad : st.pad = st'.pad
  rdev : st.rdev = st'.rdev
  size : st.size = st'.size
  blksize : st.blksize = st'.blksize

/-- The same answer to a host call, except for the time stamps and the block count. -/
structure HostReply.AlikeButTimes (r r' : HostReply) : Prop where
  ret : r.ret = r'.ret
  errno : r.errno = r'.errno
  data : r.data = r'.data
  st : r.st.AlikeButTimes r'.st

/-- Two hosts that answer every call alike, except for the time stamps and the block count. -/
def Host.AlikeButTimes (host host' : Host) : Prop :=
  ∀ calls, (host calls).AlikeButTimes (host' calls)

namespace HostReply.AlikeButTimes

variable {r r' : HostReply}

/-- Replies that differ in the times only have the same `int` result. -/
theorem int_eq (h : r.AlikeButTimes r') : r.int = r'.int := by
  rw [HostReply.int, HostReply.int, h.ret]

/-- Replies that differ in the times only give the program the same value. -/
theorem result_eq (h : r.AlikeButTimes r') : r.result = r'.result := by
  rw [HostReply.result, HostReply.result, h.int_eq, h.errno]

/-- The program receives the same words of `struct stat`. -/
theorem postprocessStat_eq (h : r.AlikeButTimes r') (vtime vtimeNsec : Word) :
    postprocessStat r.st vtime vtimeNsec = postprocessStat r'.st vtime vtimeNsec := by
  have hfix : fixStat r.st vtime vtimeNsec = fixStat r'.st vtime vtimeNsec := by
    unfold fixStat
    rw [h.st.dev, h.st.ino, h.st.nlink, h.st.mode, h.st.uid, h.st.gid, h.st.pad, h.st.rdev,
      h.st.size, h.st.blksize]
  rw [postprocessStat, hfix, postprocessStat]

end HostReply.AlikeButTimes

namespace Machine

variable {n : ℕ} {α β : Type} {host host' : Host}

/-- The two hosts fill `struct stat` in the same way for the program. -/
theorem finishStat_congr (h : host.AlikeButTimes host') (P : RegisterMethods α)
    (R : RegisterMethods β) (M : Machine n α β) :
    M.finishStat host P R = M.finishStat host' P R := by
  have hreply : (M.reply host).AlikeButTimes (M.reply host') := h M.calls
  unfold finishStat
  dsimp only
  rw [hreply.int_eq, hreply.errno, hreply.postprocessStat_eq]

/-- Emulation leaves the same machine with both hosts. -/
theorem emulate_congr (h : host.AlikeButTimes host') (P : RegisterMethods α)
    (R : RegisterMethods β) (M : Machine n α β) : M.emulate host P R = M.emulate host' P R := by
  have hreply : ∀ M : Machine n α β, (M.reply host).AlikeButTimes (M.reply host') :=
    fun M => h M.calls
  have hclose : M.emulateClose host P R = M.emulateClose host' P R := by
    unfold emulateClose
    dsimp only
    rw [(hreply _).int_eq, (hreply _).errno]
  have hlseek : M.emulateLseek host P R = M.emulateLseek host' P R := by
    unfold emulateLseek
    dsimp only
    rw [(hreply _).result_eq]
  have hread : M.emulateRead host P R = M.emulateRead host' P R := by
    unfold emulateRead
    dsimp only
    rw [(hreply _).result_eq, (hreply _).int_eq, (hreply _).data]
  have hwrite : M.emulateWrite host P R = M.emulateWrite host' P R := by
    unfold emulateWrite
    dsimp only
    rw [(hreply _).result_eq]
  have hfstat : M.emulateFstat host P R = M.emulateFstat host' P R := by
    unfold emulateFstat
    dsimp only
    rw [finishStat_congr h]
  have hopen : M.emulateOpen host P R = M.emulateOpen host' P R := by
    unfold emulateOpen
    dsimp only
    simp only [(hreply _).int_eq, (hreply _).errno]
  have hstat : M.emulateStat host P R = M.emulateStat host' P R := by
    unfold emulateStat
    simp only [finishStat_congr h]
  rw [Machine.emulate, Machine.emulate, hclose, hlseek, hread, hwrite, hfstat, hopen, hstat]

end Machine

variable {host host' : Host}

/-- The bodies of both main loops do not tell the hosts apart. -/
theorem concurrentLoop_congr {β : Type} (h : host.AlikeButTimes host') (args : SimArgs)
    (V : CoreMethods β) : concurrentLoop args host V = concurrentLoop args host' V := by
  have hbody : concurrentBody args host V = concurrentBody args host' V := by
    funext s
    unfold concurrentBody
    dsimp only
    rw [Machine.emulate_congr h]
  rw [concurrentLoop, hbody, concurrentLoop]

/-- The single loop is the same on hosts that differ in the times only. -/
theorem singleLoop_congr {α : Type} (h : host.AlikeButTimes host') (args : SimArgs)
    (C : CoreClass α) : singleLoop args host C = singleLoop args host' C := by
  have hbody : singleBody args host C = singleBody args host' C := by
    funext s
    unfold singleBody
    dsimp only
    rw [Machine.emulate_congr h]
  rw [singleLoop, hbody, singleLoop]

/-- With two hosts that answer alike except for the time stamps and the block count, the runs of
both main loops go through the same states from every machine, after every number of instructions,
and every system call leaves the same machine. -/
theorem hostTimes_invisible (h : host.AlikeButTimes host') (args : SimArgs) {α β : Type}
    (V : CoreMethods β) (C : CoreClass α) :
    (∀ (M : Machine 1 FunctionalState β) k s,
        (concurrentLoop args host V).Reaches (concurrentStart V M) k s ↔
          (concurrentLoop args host' V).Reaches (concurrentStart V M) k s) ∧
      (∀ (M : Machine 0 α α) k s,
        (singleLoop args host C).Reaches (singleStart C M) k s ↔
          (singleLoop args host' C).Reaches (singleStart C M) k s) ∧
      ∀ (n : ℕ) (P : RegisterMethods α) (R : RegisterMethods β) (M : Machine n α β),
        M.emulate host P R = M.emulate host' P R := by
  rw [concurrentLoop_congr h, singleLoop_congr h]
  exact ⟨fun _ _ _ => Iff.rfl, fun _ _ _ => Iff.rfl, fun _ P R M => M.emulate_congr h P R⟩

/-- A host whose files all have one modification time and block count. -/
def stampedHost (time blocks : Counter) : Host := fun _ =>
  { (default : HostReply) with
    st := { (default : Stat) with mtimSec := time, mtimNsec := time, blocks := blocks } }

/-- Two modification times of a file are one to a program that calls fstat. -/
theorem stampedHost_invisible :
    let core := FunctionalCore.new ⟨0, 0, 0, 0, 0, 0, 0, 0, 0⟩ ⟨0, 0, 0, 0, 0, 0, 0, 0, 0⟩
    let M : Machine 1 FunctionalState (WrapperState Playback) :=
      { prim := FunctionalCore.writeReg core regA7 scFstat
        reps := fun _ => CoreWrapper.new core.instif core.memif ⟨[], core.instif, fun _ => 0⟩
        mem := Memory.new core.memif (fun _ => core.memif) memWords
        sys := SysCall.new 0 1 2 0
        calls := [] }
    let R := (KronosCore.methods Playback.top).toRegisterMethods
    (stampedHost 1 8 []).st.mtimSec ≠ (stampedHost 2 16 []).st.mtimSec ∧
      M.emulate (stampedHost 1 8) FunctionalCore.registers R =
        M.emulate (stampedHost 2 16) FunctionalCore.registers R := by
  intro core M R
  have halike : (stampedHost 1 8).AlikeButTimes (stampedHost 2 16) :=
    fun _ => ⟨rfl, rfl, rfl, ⟨rfl, rfl, rfl, rfl, rfl, rfl, rfl, rfl, rfl, rfl⟩⟩
  exact ⟨by decide, (hostTimes_invisible halike ⟨9, 0, false⟩
    (KronosCore.methods Playback.top) FunctionalCore.methods).2.2 1 _ R M⟩

end VeriCross
