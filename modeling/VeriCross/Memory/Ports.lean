import VeriCross.Memory.Refinement

/-!
# The port of a core

A core meets the memory at its port: it makes a request, which is carried out and answered in the
same cycle with the instruction word and the data word. The data word is the one read last, so it
belongs to the state of the port. With any number of replicas, a cycle at one port is a cycle of a
memory of its own: the write buffers give every core its private memory.
-/

namespace VeriCross

open WordMap

/-- The words that a core sees, and the data word that it read last. -/
structure Port where
  view : WordMap
  dRdata : Word

/-- A cycle: the request is carried out, and the answer is put into the interface of the core. A
data word is read before anything is stored. -/
def Port.cycle (nw : Word) (req core : CoreMemoryIF) (p : Port) : Port × CoreMemoryIF :=
  let dRdata := if req.en ≠ 0 ∧ req.dRe ≠ 0 then p.view (index nw req.dAddr) else p.dRdata
  ({ view := WordMap.request nw req p.view, dRdata := dRdata },
    if req.en = 0 then core
    else { core with iRdata := p.view (index nw req.iAddr), dRdata := dRdata })

/-- The words after a masked store. -/
def WordMap.masked (nw : Word) (view : WordMap) (store : Word × Word × Word) : WordMap :=
  putWord nw view store.1 (mergeMask (view (index nw store.1)) store.2.1 store.2.2)

namespace Memory

variable {numReps : ℕ}

/-- The port of a bound core. -/
def port (m : Memory numReps) (a : Agent numReps) : Port := ⟨m.view a, (m.request a).dRdata⟩

/-- A public write of words that all see alike is a write at every port. -/
theorem port_write (m : Memory numReps) (addr : Word) (data : List Byte) (a : Agent numReps)
    (ha : m.view a = m.view none) :
    (m.write addr data).port a = ⟨put m.nwords (m.view a) addr data, (m.port a).dRdata⟩ := by
  rw [port, view_write m addr data a ha, request_write]
  rfl

/-- A masked store keeps the request of the primary. -/
theorem ifPrim_writeMask (m : Memory numReps) (id : CoreId numReps) (addr data mask : Word) :
    (m.writeMask id addr data mask).ifPrim = m.ifPrim :=
  congrFun (m.request_writeMask id addr data mask) none

/-- A masked store keeps the requests of the replicas. -/
theorem ifReps_writeMask (m : Memory numReps) (id : CoreId numReps) (addr data mask : Word) :
    (m.writeMask id addr data mask).ifReps = m.ifReps :=
  funext fun i => congrFun (m.request_writeMask id addr data mask) (some i)

/-- What the request of the primary is answered with. -/
theorem update_answer (m : Memory numReps) (core : CoreMemoryIF) :
    ((m.update core).1.request none).dRdata =
        ((m.port none).cycle m.nwords m.ifPrim core).1.dRdata ∧
      (m.update core).2 = ((m.port none).cycle m.nwords m.ifPrim core).2 := by
  rw [update, Port.cycle]
  by_cases hen : m.ifPrim.en = 0
  · have hkeep : ¬(m.ifPrim.en ≠ 0 ∧ m.ifPrim.dRe ≠ 0) := fun h => h.1 hen
    rw [if_pos hen, if_neg hkeep, if_pos hen]
    exact ⟨rfl, rfl⟩
  · rw [if_neg hen, if_neg hen]
    dsimp only
    by_cases hre : m.ifPrim.dRe = 0
    · have hkeep : ¬(m.ifPrim.en ≠ 0 ∧ m.ifPrim.dRe ≠ 0) := fun h => h.2 hre
      rw [if_neg hkeep, if_neg (not_not.mpr hre), read4b_eq_view]
      by_cases hwe : m.ifPrim.dWe = 0
      · rw [if_neg (not_not.mpr hwe)]
        exact ⟨rfl, rfl⟩
      · rw [if_pos hwe]
        simp only [request, ifPrim_writeMask]
        exact ⟨rfl, rfl⟩
    · have hread : m.ifPrim.en ≠ 0 ∧ m.ifPrim.dRe ≠ 0 := ⟨hen, hre⟩
      rw [if_pos hread, if_pos hre, read4b_eq_view, read4b_eq_view]
      exact ⟨rfl, rfl⟩

/-- A cycle of the primary is a cycle at its port. -/
theorem port_update (m : Memory numReps) (core : CoreMemoryIF) :
    ((m.update core).1.port none, (m.update core).2) =
      (m.port none).cycle m.nwords m.ifPrim core := by
  obtain ⟨hdata, hcore⟩ := m.update_answer core
  rw [hcore, port, view_update, Function.update_self, hdata]
  rfl

/-- What the request of a replica is answered with. -/
theorem updateOne_answer (s : Memory numReps × (Fin numReps → CoreMemoryIF)) (i : Fin numReps) :
    ((updateOne s i).1.request (some i)).dRdata =
        ((s.1.port (some i)).cycle s.1.nwords (s.1.ifReps i) (s.2 i)).1.dRdata ∧
      (updateOne s i).2 i =
        ((s.1.port (some i)).cycle s.1.nwords (s.1.ifReps i) (s.2 i)).2 := by
  rw [updateOne, Port.cycle]
  by_cases hen : (s.1.ifReps i).en = 0
  · have hkeep : ¬((s.1.ifReps i).en ≠ 0 ∧ (s.1.ifReps i).dRe ≠ 0) := fun h => h.1 hen
    rw [if_pos hen, if_neg hkeep, if_pos hen]
    exact ⟨rfl, rfl⟩
  · rw [if_neg hen, if_neg hen]
    dsimp only
    simp only [setIfRep, Function.update_self, Function.update_idem]
    by_cases hre : (s.1.ifReps i).dRe = 0
    · have hkeep : ¬((s.1.ifReps i).en ≠ 0 ∧ (s.1.ifReps i).dRe ≠ 0) := fun h => h.2 hre
      rw [if_neg hkeep, if_neg (not_not.mpr hre), read4b_eq_view]
      by_cases hwe : (s.1.ifReps i).dWe = 0
      · rw [if_neg (not_not.mpr hwe)]
        simp only [Function.update_self, request]
        exact ⟨rfl, rfl⟩
      · rw [if_pos hwe]
        simp only [request, ifReps_writeMask, Function.update_self]
        exact ⟨rfl, rfl⟩
    · have hread : (s.1.ifReps i).en ≠ 0 ∧ (s.1.ifReps i).dRe ≠ 0 := ⟨hen, hre⟩
      rw [if_pos hread, if_pos hre, read4b_eq_view]
      simp only [Function.update_self, request, read4b_eq_view]
      exact ⟨rfl, rfl⟩

/-- A cycle of the primary leaves the ports of the replicas. -/
theorem port_update_replica (m : Memory numReps) (core : CoreMemoryIF) (i : Fin numReps) :
    (m.update core).1.port (some i) = m.port (some i) := by
  have hview : (m.update core).1.view (some i) = m.view (some i) := by
    rw [view_update]
    exact Function.update_of_ne (by simp) ..
  have hrequest : (m.update core).1.ifReps = m.ifReps := by
    obtain ⟨-, req, hm⟩ | ⟨-, req, hm⟩ := m.update_cases core
    · rw [hm]
    · rw [hm, ifReps_writeMask]
  rw [port, hview, request, hrequest]
  rfl

/-- One step of the replica loop is a cycle at the port of its replica. -/
theorem port_updateOne (s : Memory numReps × (Fin numReps → CoreMemoryIF)) (i : Fin numReps) :
    ((updateOne s i).1.port (some i), (updateOne s i).2 i) =
      (s.1.port (some i)).cycle s.1.nwords (s.1.ifReps i) (s.2 i) := by
  obtain ⟨hdata, hcore⟩ := updateOne_answer s i
  rw [hcore, port, view_updateOne, Function.update_self, hdata]
  rfl

/-- One step of the replica loop leaves the ports of the other cores and their interfaces. -/
theorem port_updateOne_of_ne (s : Memory numReps × (Fin numReps → CoreMemoryIF))
    {i j : Fin numReps} (hj : j ≠ i) :
    (updateOne s i).1.port (some j) = s.1.port (some j) ∧ (updateOne s i).2 j = s.2 j := by
  have hview : (updateOne s i).1.view (some j) = s.1.view (some j) := by
    rw [view_updateOne]
    exact Function.update_of_ne (by simpa using hj) ..
  constructor
  · rw [port, hview, request, ifReps_updateOne s hj]
    rfl
  · rw [updateOne]
    split
    · rfl
    · exact Function.update_of_ne hj ..

/-- The replica loop is one cycle at the port of each replica that it visits. -/
theorem port_foldl_updateOne (indices : List (Fin numReps)) (hnodup : indices.Nodup)
    (s : Memory numReps × (Fin numReps → CoreMemoryIF)) (i : Fin numReps) :
    ((indices.foldl updateOne s).1.port (some i), (indices.foldl updateOne s).2 i) =
      if i ∈ indices then (s.1.port (some i)).cycle s.1.nwords (s.1.ifReps i) (s.2 i)
      else (s.1.port (some i), s.2 i) := by
  induction indices generalizing s with
  | nil => rfl
  | cons k indices ih =>
    obtain ⟨hk, hnodup⟩ := List.nodup_cons.mp hnodup
    rw [List.foldl_cons, ih hnodup, nwords_updateOne]
    by_cases hi : i = k
    · subst hi
      rw [if_neg hk, if_pos List.mem_cons_self, port_updateOne]
    · obtain ⟨hport, hcore⟩ := port_updateOne_of_ne s hi
      rw [hport, hcore, ifReps_updateOne s hi]
      simp only [List.mem_cons, hi, false_or]

/-- A cycle of the replicas is a cycle at the port of each. -/
theorem port_updateReplica (m : Memory numReps) (cores : Fin numReps → CoreMemoryIF)
    (i : Fin numReps) :
    ((m.updateReplica cores).1.port (some i), (m.updateReplica cores).2 i) =
      (m.port (some i)).cycle m.nwords (m.ifReps i) (cores i) := by
  have hloop := port_foldl_updateOne (List.finRange numReps) (List.nodup_finRange numReps)
    (m, cores) i
  rw [if_pos (List.mem_finRange i)] at hloop
  rw [← hloop]
  simp only [updateReplica, port, view_cleanupWb, request_cleanupWb]

/-- A cycle of the replicas leaves the port of the primary. -/
theorem port_updateReplica_primary (m : Memory numReps) (cores : Fin numReps → CoreMemoryIF) :
    (m.updateReplica cores).1.port none = m.port none := by
  have hloop : ∀ (indices : List (Fin numReps)) s,
      (indices.foldl updateOne s).1.ifPrim = s.1.ifPrim := by
    intro indices
    induction indices with
    | nil => exact fun _ => rfl
    | cons k indices ih =>
      intro s
      rw [List.foldl_cons, ih]
      obtain ⟨-, req, hm⟩ | ⟨-, req, hm⟩ := updateOne_cases s k
      · rw [hm]
        rfl
      · rw [hm, ifPrim_writeMask]
        rfl
  have hrequest : (m.updateReplica cores).1.request none = m.request none := by
    rw [updateReplica]
    dsimp only
    rw [request_cleanupWb]
    exact hloop _ _
  rw [port, view_updateReplica, hrequest]
  rfl

end Memory

/-! The words that are handed back. -/

/-- A request is answered with the words of the memory that the core's own one agrees with. -/
theorem Port.cycle_answer {k : ℕ} {nw : Word} {p : Port} {bytes : ℕ → Byte}
    (h : PrivateMemory.Agree k nw p.view bytes) {req : CoreMemoryIF} (hen : req.en ≠ 0)
    (core : CoreMemoryIF) :
    (p.cycle nw req core).2.iRdata = PrivateMemory.word bytes (cell k req.iAddr) ∧
      (req.dRe ≠ 0 →
        (p.cycle nw req core).2.dRdata = PrivateMemory.word bytes (cell k req.dAddr)) := by
  rw [cycle]
  dsimp only
  rw [if_neg hen]
  refine ⟨h req.iAddr, fun hre => ?_⟩
  dsimp only
  rw [if_pos ⟨hen, hre⟩]
  exact h req.dAddr

/-- After any history of accesses, what a core reads is what its private memory holds, and so are
the words that it is handed back when its request is carried out next. Cleaning up the write buffers
changes no read, and the stores of one core change no read of another. -/
theorem writeBuffers_refine_privateMemories {numReps k : ℕ} {nw : Word} (hnw : nw.toNat = 2 ^ k)
    (ifPrim : CoreMemoryIF) (ifReps : Fin numReps → CoreMemoryIF)
    (ops : List (MemoryOp numReps)) :
    let m := ops.foldl Memory.apply (Memory.new ifPrim ifReps nw)
    let word (a : Agent numReps) (addr : Word) :=
      PrivateMemory.word (ops.foldl (PrivateMemory.apply k a)
        (PrivateMemory.new ((Memory.new ifPrim ifReps nw).request a))).bytes (cell k addr)
    (∀ (a : Agent numReps) (addr : Word), m.read4b a.id addr = word a addr) ∧
    (∀ core, m.ifPrim.en ≠ 0 → (m.update core).2.iRdata = word none m.ifPrim.iAddr ∧
      (m.ifPrim.dRe ≠ 0 → (m.update core).2.dRdata = word none m.ifPrim.dAddr)) ∧
    (∀ cores i, (m.ifReps i).en ≠ 0 →
      ((m.updateReplica cores).2 i).iRdata = word (some i) (m.ifReps i).iAddr ∧
        ((m.ifReps i).dRe ≠ 0 →
          ((m.updateReplica cores).2 i).dRdata = word (some i) (m.ifReps i).dAddr)) ∧
    (∀ (m : Memory numReps) (a : Agent numReps) (addr : Word),
      m.cleanupWb.read4b a.id addr = m.read4b a.id addr) ∧
    ∀ (m : Memory numReps) (a b : Agent numReps) (addr data mask addr' : Word), a ≠ b →
      (m.writeMask a.id addr data mask).read4b b.id addr' = m.read4b b.id addr' := by
  intro m word
  have hrun := (Refines.new hnw ifPrim ifReps).run ops
  refine ⟨fun a addr => ?_, fun core hen => ?_, fun cores i hen => ?_, fun m a addr => ?_,
    fun m a b addr data mask addr' hab => ?_⟩
  · rw [Memory.read4b_eq_view, Agent.agent_id]
    exact hrun.agree a addr
  · obtain ⟨-, hcore⟩ := Prod.mk.inj (m.port_update core)
    rw [hcore]
    exact Port.cycle_answer (p := m.port none) (hrun.agree none) hen core
  · obtain ⟨-, hcore⟩ := Prod.mk.inj (m.port_updateReplica cores i)
    rw [hcore]
    exact Port.cycle_answer (p := m.port (some i)) (hrun.agree (some i)) hen (cores i)
  · have hwords : m.cleanupWb.wordAddr addr = m.wordAddr addr := by
      rw [Memory.wordAddr, Memory.nwords_cleanupWb, Memory.wordAddr]
    rw [Memory.read4b_eq_view, Memory.read4b_eq_view, Memory.view_cleanupWb, hwords]
  · have hwords : (m.writeMask a.id addr data mask).wordAddr addr' = m.wordAddr addr' := by
      rw [Memory.wordAddr, Memory.nwords_writeMask, Memory.wordAddr]
    rw [Memory.read4b_eq_view, Memory.read4b_eq_view, Memory.view_writeMask_agent, hwords,
      Agent.agent_id, Function.update_of_ne hab.symm]

/-- When the primary and a replica store different values to one word, each reads its own value
after the buffers have been cleaned up. -/
theorem writeBuffers_keep_different_stores :
    let store (data : Word) : CoreMemoryIF := ⟨0, 4, 0, 0, data, 15, 1, 0, 1⟩
    let m := [.drive (store 5), .update (store 5), .driveReplica fun _ => store 7,
      .updateReplica fun _ => store 7].foldl Memory.apply
        (Memory.new (store 0) (fun _ : Fin 1 => store 0) 4)
    m.read4b (Agent.id none) 4 = 5 ∧ m.read4b (Agent.id (some 0)) 4 = 7 := by
  refine ⟨?_, ?_⟩
  · exact ((writeBuffers_refine_privateMemories (k := 2) (by decide) _ _ _).1 none 4).trans
      (by decide)
  · exact ((writeBuffers_refine_privateMemories (k := 2) (by decide) _ _ _).1 (some 0) 4).trans
      (by decide)

end VeriCross
