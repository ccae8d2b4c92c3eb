import VeriCross.Library.Overlay
import VeriCross.Library.TreeMaps
import VeriCross.Memory.Model

/-!
# What each core sees of the memory

The array and the write buffers form an overlay: the array is the base and every bound core
owns a layer. A word store of one core, a store for all cores and the settling of one buffer
entry are the three overlay operations, so each core's view is a private word memory.
-/

namespace VeriCross

/-- A bound core: `none` is the primary and `some i` is the `i`-th replica. -/
abbrev Agent (numReps : ℕ) := Option (Fin numReps)

/-- The identifier under which a bound core accesses the memory. -/
def Agent.id {numReps : ℕ} : Agent numReps → CoreId numReps
  | none => .primary
  | some i => .replica i

/-- The bound core whose view an access reads. -/
def CoreId.agent {numReps : ℕ} : CoreId numReps → Agent numReps
  | .all => none
  | .primary => none
  | .replica i => some i

/-- The identifier of an agent is that of no other one. -/
@[simp] theorem Agent.agent_id {numReps : ℕ} (a : Agent numReps) : a.id.agent = a := by
  cases a <;> rfl

/-- Reading a buffer after an entry was erased if it was there. -/
theorem getElem?_eraseEntry (wb : WriteBuffer) (k l : Word) :
    (Memory.eraseEntry wb k)[l]? = if l = k then none else wb[l]? := by
  rw [Memory.eraseEntry]
  by_cases h : wb.contains k
  · rw [if_pos h, TreeMaps.getElem?_erase_ite]
  · rw [if_neg h]
    split
    · next heq => simpa [heq] using h
    · rfl

namespace Memory

variable {numReps : ℕ}

/-- The memory as an overlay. Without replicas no buffer is consulted. -/
def overlay (m : Memory numReps) : Overlay (Agent numReps) Word Word where
  base := m.mem
  layer a k := if numReps = 0 then none else (m.wbOf a.id)[k]?

/-- The word a bound core sees at a word address. -/
def view (m : Memory numReps) (a : Agent numReps) (k : Word) : Word := m.overlay.view a k

/-- Every core sees zeros in a new memory. -/
theorem view_new_agent (ifPrim : CoreMemoryIF) (ifReps : Fin numReps → CoreMemoryIF) (nw : Word)
    (a : Agent numReps) : (new ifPrim ifReps nw).view a = fun _ => 0 := by
  funext k
  cases a <;> simp [new, view, Overlay.view, overlay, wbOf, Agent.id]

/-- A word read returns what the core sees. -/
theorem read4b_eq_view (m : Memory numReps) (id : CoreId numReps) (addr : Word) :
    m.read4b id addr = m.view id.agent (m.wordAddr addr) := by
  rw [read4b, view, Overlay.view, overlay]
  by_cases hn : numReps = 0
  · simp [hn]
  · have hwb : m.wbOf id = m.wbOf id.agent.id := by cases id <;> rfl
    simp only [hn, if_false, hwb]
    cases (m.wbOf id.agent.id)[m.wordAddr addr]? <;> rfl

/-- A byte read returns a byte of the word the core sees. -/
theorem read1b_eq_view (m : Memory numReps) (id : CoreId numReps) (addr : Word) :
    m.read1b id addr =
      (m.view id.agent (m.wordAddr addr) >>> (addr.toNat % 4 * 8)).setWidth 8 := by
  rw [read1b, read4b_eq_view]

/-- A word store for all cores is a broadcast. -/
theorem overlay_write4b_all (m : Memory numReps) (addr data : Word) :
    (m.write4b .all addr data).overlay = m.overlay.broadcast (m.wordAddr addr) data := by
  unfold write4b overlay Overlay.broadcast
  by_cases hn : numReps = 0
  · simp only [hn, if_true, Overlay.mk.injEq, true_and]
    funext a k
    by_cases hk : k = m.wordAddr addr <;> simp [hk]
  · simp only [hn, if_false, Overlay.mk.injEq, true_and]
    funext a k
    cases a with
    | none => simp only [wbOf, Agent.id, getElem?_eraseEntry, Function.update_apply]
    | some i => simp only [wbOf, Agent.id, getElem?_eraseEntry, Function.update_apply]

/-- A word store for all cores updates every core's view. -/
theorem view_write4b_all (m : Memory numReps) (addr data : Word) :
    (m.write4b .all addr data).view =
      fun a => Function.update (m.view a) (m.wordAddr addr) data := by
  change (m.write4b .all addr data).overlay.view = _
  rw [overlay_write4b_all, Overlay.view_broadcast]
  rfl

/-- With replicas, a word store of one core is a private store. -/
theorem overlay_write4b_agent (m : Memory numReps) (hn : numReps ≠ 0) (a : Agent numReps)
    (addr data : Word) :
    (m.write4b a.id addr data).overlay = m.overlay.store a (m.wordAddr addr) data := by
  unfold write4b overlay Overlay.store
  cases a with
  | none =>
    simp only [hn, if_false, Agent.id, Overlay.mk.injEq, true_and]
    funext b k
    cases b with
    | none => simp only [wbOf, TreeMaps.getElem?_insert_ite, Function.update_self,
        Function.update_apply]
    | some j => simp [wbOf]
  | some i =>
    simp only [hn, if_false, Agent.id, Overlay.mk.injEq, true_and]
    funext b k
    cases b with
    | none => simp [wbOf]
    | some j =>
      by_cases hj : j = i
      · subst hj
        simp only [wbOf, TreeMaps.getElem?_insert_ite, Function.update_self,
          Function.update_apply]
      · simp [wbOf, hj]

/-- A word store of one core updates its own view and no other. -/
theorem view_write4b_agent (m : Memory numReps) (a : Agent numReps) (addr data : Word) :
    (m.write4b a.id addr data).view =
      Function.update m.view a (Function.update (m.view a) (m.wordAddr addr) data) := by
  by_cases hn : numReps = 0
  · -- without replicas the primary is the only core and its store goes to the array
    subst hn
    funext b
    have hwrite : m.write4b a.id addr data = m.write4b .all addr data := by simp [write4b]
    rw [hwrite, view_write4b_all, Subsingleton.elim a b, Function.update_self]
  · change (m.write4b a.id addr data).overlay.view = _
    rw [overlay_write4b_agent m hn, Overlay.view_store]
    rfl

/-- With replicas, cleaning up an entry present in every buffer settles it. -/
theorem overlay_cleanupEntry (m : Memory numReps) (hn : numReps ≠ 0) (k data : Word)
    (hprim : m.wbPrim[k]? = some data) (hall : ∀ i, (m.wbReps i).contains k) :
    (m.cleanupEntry k).overlay = m.overlay.settle k data := by
  rw [cleanupEntry]
  simp only [hprim, hall, implies_true, if_true]
  unfold overlay Overlay.settle
  simp only [hn, if_false, Overlay.mk.injEq, true_and]
  funext a l
  cases a with
  | none => simp only [wbOf, Agent.id, hprim, TreeMaps.getElem?_erase_ite, and_true]
  | some i =>
    simp only [wbOf, Agent.id]
    split
    · next heq => simp only [TreeMaps.getElem?_erase_ite, heq, and_true]
    · next hne => simp only [hne, and_false, if_false]

/-- With replicas, cleaning up one entry changes no core's view. -/
theorem view_cleanupEntry (m : Memory numReps) (hn : numReps ≠ 0) (k : Word) :
    (m.cleanupEntry k).view = m.view := by
  cases hprim : m.wbPrim[k]? with
  | none => simp only [cleanupEntry, hprim]
  | some data =>
    by_cases hall : ∀ i, (m.wbReps i).contains k
    · -- every buffer holds the word, so its layers hide the base on both sides
      change (m.cleanupEntry k).overlay.view = m.overlay.view
      rw [overlay_cleanupEntry m hn k data hprim hall]
      apply Overlay.view_settle
      intro a
      cases a with
      | none => simp [overlay, hn, wbOf, Agent.id, hprim]
      | some i => simpa [overlay, hn, wbOf, Agent.id] using hall i
    · simp only [cleanupEntry, hprim, hall, if_false]

/-- Cleaning up the write buffers changes no core's view. -/
@[simp] theorem view_cleanupWb (m : Memory numReps) : m.cleanupWb.view = m.view := by
  rw [cleanupWb]
  by_cases hn : numReps = 0
  · rw [if_pos hn]
  · rw [if_neg hn]
    generalize m.wbPrim.keys = keys
    induction keys generalizing m with
    | nil => rfl
    | cons k keys ih => rw [List.foldl_cons, ih, view_cleanupEntry m hn]

end Memory

end VeriCross
