import VeriCross.Memory.PrivateMemory

/-!
# The buffered memory refines the private memories

A memory and a family of private memories are related when every core has the same pending
store and sees the same words on both sides. Every access keeps the relation, so it holds
after any history that starts from a new memory.
-/

namespace VeriCross

variable {numReps : ℕ}

/-- The request last copied from a core. -/
def Memory.request (m : Memory numReps) : Agent numReps → CoreMemoryIF
  | none => m.ifPrim
  | some i => m.ifReps i

/-- The private memory of a core before any access. -/
def PrivateMemory.new (req : CoreMemoryIF) : PrivateMemory where
  pending := req.store?
  bytes := fun _ => 0

namespace Memory

/-! Accesses and the pending stores. -/

/-- A word store keeps the copied requests. -/
@[simp] theorem request_write4b (m : Memory numReps) (id : CoreId numReps)
    (addr data : Word) : (m.write4b id addr data).request = m.request := by
  funext a
  unfold write4b
  dsimp only
  split
  · rfl
  · cases id <;> rfl

/-- A masked store keeps the copied requests. -/
@[simp] theorem request_writeMask (m : Memory numReps) (id : CoreId numReps)
    (addr data mask : Word) : (m.writeMask id addr data mask).request = m.request :=
  request_write4b ..

/-- Storing bytes word by word keeps the copied requests. -/
@[simp] theorem request_writeWords (m : Memory numReps) (addr : Word) (data : List Byte) :
    (m.writeWords addr data).request = m.request := by
  fun_induction writeWords m addr data with
  | case1 m addr b0 b1 b2 b3 rest ih => rw [ih, request_write4b]
  | case2 => rfl

/-- Storing bytes one by one keeps the copied requests. -/
@[simp] theorem request_writeBytes (m : Memory numReps) (addr : Word) (data : List Byte) :
    (m.writeBytes addr data).request = m.request := by
  fun_induction writeBytes m addr data with
  | case1 m addr b rest ih => rw [ih, write1b, request_write4b]
  | case2 => rfl

/-- A public write keeps the copied requests. -/
@[simp] theorem request_write (m : Memory numReps) (addr : Word) (data : List Byte) :
    (m.write addr data).request = m.request := by
  rw [write]
  split
  · exact request_writeWords ..
  · exact request_writeBytes ..

/-- Cleaning up the write buffers keeps the copied requests. -/
@[simp] theorem request_cleanupWb (m : Memory numReps) :
    m.cleanupWb.request = m.request := by
  have hentry : ∀ (m : Memory numReps) k, (m.cleanupEntry k).request = m.request := by
    intro m k
    rw [cleanupEntry]
    split
    · rfl
    · split <;> rfl
  rw [cleanupWb]
  split
  · rfl
  · generalize m.wbPrim.keys = keys
    induction keys generalizing m with
    | nil => rfl
    | cons k keys ih => rw [List.foldl_cons, ih, hentry]

/-- Carrying out the primary's request keeps every pending store. -/
theorem store?_request_update (m : Memory numReps) (core : CoreMemoryIF) (a : Agent numReps) :
    ((m.update core).1.request a).store? = (m.request a).store? := by
  rw [update]
  dsimp only
  split
  · rfl
  · split
    · cases a <;> rfl
    · split
      · rw [request_writeMask]
        cases a <;> rfl
      · cases a <;> rfl

/-- Replacing a replica's request by one with the same store keeps every pending store. -/
theorem store?_request_setIfRep (m : Memory numReps) (i : Fin numReps) (memif : CoreMemoryIF)
    (h : memif.store? = (m.ifReps i).store?) (a : Agent numReps) :
    ((m.setIfRep i memif).request a).store? = (m.request a).store? := by
  cases a with
  | none => rfl
  | some j =>
    by_cases hj : j = i
    · subst hj
      simpa [request, setIfRep] using h
    · simp [request, setIfRep, hj]

/-- One step of the replica loop keeps every pending store. -/
theorem store?_request_updateOne (s : Memory numReps × (Fin numReps → CoreMemoryIF))
    (i : Fin numReps) (a : Agent numReps) :
    ((updateOne s i).1.request a).store? = (s.1.request a).store? := by
  rw [updateOne]
  dsimp only
  split
  · rfl
  · split
    · rw [store?_request_setIfRep, store?_request_setIfRep] <;> rfl
    · split
      · rw [request_writeMask, store?_request_setIfRep]
        rfl
      · rw [store?_request_setIfRep]
        rfl

/-- Carrying out the replicas' requests keeps every pending store. -/
theorem store?_request_updateReplica (m : Memory numReps) (cores : Fin numReps → CoreMemoryIF)
    (a : Agent numReps) :
    ((m.updateReplica cores).1.request a).store? = (m.request a).store? := by
  rw [updateReplica]
  dsimp only
  rw [request_cleanupWb]
  generalize List.finRange numReps = indices
  suffices h : ∀ s : Memory numReps × (Fin numReps → CoreMemoryIF),
      ((indices.foldl updateOne s).1.request a).store? = (s.1.request a).store? from h (m, cores)
  intro s
  induction indices generalizing s with
  | nil => rfl
  | cons i indices ih => rw [List.foldl_cons, ih, store?_request_updateOne]

/-- An access keeps the number of words. -/
@[simp] theorem nwords_apply (m : Memory numReps) (op : MemoryOp numReps) :
    (m.apply op).nwords = m.nwords := by
  cases op with
  | drive | driveReplica => rfl
  | update => exact nwords_update ..
  | updateReplica => exact nwords_updateReplica ..
  | write => exact nwords_write ..

end Memory

/-- A memory and a family of private memories have the same pending stores and the same
words. -/
structure Refines (k : ℕ) (m : Memory numReps) (p : Agent numReps → PrivateMemory) : Prop where
  nwords : m.nwords.toNat = 2 ^ k
  pending : ∀ a, (m.request a).store? = (p a).pending
  agree : ∀ a, PrivateMemory.Agree k m.nwords (m.view a) (p a).bytes

/-- Carrying out a request is carrying out its pending store. -/
theorem PrivateMemory.agree_request {k : ℕ} {nw : Word} (hnw : nw.toNat = 2 ^ k) {f : WordMap}
    {req : CoreMemoryIF} {p : PrivateMemory} (hpending : req.store? = p.pending)
    (h : Agree k nw f p.bytes) :
    Agree k nw (WordMap.request nw req f) (p.store k).bytes := by
  rw [WordMap.request, store]
  rw [← hpending]
  rw [CoreMemoryIF.store?]
  split
  · exact h.storeLanes hnw _ _ _
  · exact h

/-- Carrying out the pending store keeps it pending. -/
@[simp] theorem PrivateMemory.pending_store (k : ℕ) (p : PrivateMemory) :
    (p.store k).pending = p.pending := by
  rw [store]
  split <;> simp_all

/-- Every access keeps the memory and the private memories related. -/
theorem Refines.apply {k : ℕ} {m : Memory numReps} {p : Agent numReps → PrivateMemory}
    (h : Refines k m p) (op : MemoryOp numReps) :
    Refines k (m.apply op) fun a => (p a).apply k a op := by
  obtain ⟨hnw, hpending, hagree⟩ := h
  refine ⟨by rwa [Memory.nwords_apply], fun a => ?_, fun a => ?_⟩
  · cases op with
    | drive core =>
      cases a with
      | none => rfl
      | some i => exact hpending (some i)
    | update core =>
      change ((m.update core).1.request a).store? = _
      rw [Memory.store?_request_update, hpending]
      cases a with
      | none => exact (PrivateMemory.pending_store ..).symm
      | some i => rfl
    | driveReplica cores =>
      cases a with
      | none => exact hpending none
      | some i => rfl
    | updateReplica cores =>
      change ((m.updateReplica cores).1.request a).store? = _
      rw [Memory.store?_request_updateReplica, hpending]
      cases a with
      | none => rfl
      | some i => exact (PrivateMemory.pending_store ..).symm
    | write addr data haddr hdata =>
      change ((m.write addr data).request a).store? = _
      rw [Memory.request_write]
      exact hpending a
  · rw [Memory.nwords_apply]
    cases op with
    | drive core => cases a <;> exact hagree _
    | update core =>
      change PrivateMemory.Agree k m.nwords ((m.update core).1.view a) _
      rw [Memory.view_update]
      cases a with
      | none =>
        rw [Function.update_self]
        exact PrivateMemory.agree_request hnw (hpending none) (hagree none)
      | some i => exact hagree (some i)
    | driveReplica cores => cases a <;> exact hagree _
    | updateReplica cores =>
      change PrivateMemory.Agree k m.nwords ((m.updateReplica cores).1.view a) _
      rw [Memory.view_updateReplica]
      cases a with
      | none => exact hagree none
      | some i => exact PrivateMemory.agree_request hnw (hpending (some i)) (hagree (some i))
    | write addr data haddr hdata =>
      change PrivateMemory.Agree k m.nwords ((m.write addr data).view a) _
      rw [Memory.write, if_pos ⟨haddr, hdata⟩, Memory.view_writeWords]
      exact (hagree a).storeWords hnw haddr hdata

/-- A new memory is related to new private memories. -/
theorem Refines.new {k : ℕ} {nw : Word} (hnw : nw.toNat = 2 ^ k) (ifPrim : CoreMemoryIF)
    (ifReps : Fin numReps → CoreMemoryIF) :
    Refines k (Memory.new ifPrim ifReps nw)
      fun a => PrivateMemory.new ((Memory.new ifPrim ifReps nw).request a) := by
  refine ⟨hnw, fun _ => rfl, fun a addr => ?_⟩
  cases a <;>
    simp [Memory.new, Memory.view, Overlay.view, Memory.overlay, Memory.wbOf, Agent.id,
      PrivateMemory.new, PrivateMemory.word]

/-- The relation holds after any history of accesses. -/
theorem Refines.run {k : ℕ} {m : Memory numReps} {p : Agent numReps → PrivateMemory}
    (h : Refines k m p) (ops : List (MemoryOp numReps)) :
    Refines k (ops.foldl Memory.apply m)
      fun a => ops.foldl (PrivateMemory.apply k a) (p a) := by
  induction ops generalizing m p with
  | nil => exact h
  | cons op ops ih => exact ih (h.apply op)

end VeriCross
