import VeriCross.Library.Followers
import VeriCross.Memory.PrivateMemory

/-!
# Write buffers drain

The primary carries out a request in each of its cycles, and the replicas together in theirs, with
the buffers cleaned up after it: the primary leads an overlay of layers and the replicas follow.
-/

namespace VeriCross

open WordMap

/-- A cycle of the primary, with its request, or one of all replicas. -/
inductive MemoryCycle (numReps : ℕ)
  | primary (core : CoreMemoryIF)
  | replicas (cores : Fin numReps → CoreMemoryIF)

variable {numReps : ℕ}

/-- The memory after a cycle: the requests are copied from the cores and carried out. -/
def Memory.cycle (m : Memory numReps) : MemoryCycle numReps → Memory numReps
  | .primary core => ((m.drive core).update core).1
  | .replicas cores => ((m.driveReplica cores).updateReplica cores).1

/-- The store of a core in a cycle. -/
def MemoryCycle.store? : MemoryCycle numReps → Agent numReps → Option (Word × Word × Word)
  | .primary core, none => core.store?
  | .primary _, some _ => none
  | .replicas _, none => none
  | .replicas cores, some i => (cores i).store?

/-- The stores of a core in a sequence of cycles. -/
def performed (cs : List (MemoryCycle numReps)) (a : Agent numReps) : List (Word × Word × Word) :=
  cs.flatMap fun c => (c.store? a).toList

/-- Words after a masked store. -/
def WordMap.store (nw : Word) (f : WordMap) (x : Word × Word × Word) : WordMap :=
  putWord nw f x.1 (mergeMask (f (index nw x.1)) x.2.1 x.2.2)

/-- How many stores of the primary to a word a replica has still to perform. -/
def outstanding (nw : Word) (cs : List (MemoryCycle numReps)) (i : Fin numReps) (k : Word) : ℕ :=
  ((performed cs none).drop (performed cs (some i)).length).countP fun x => index nw x.1 = k

/-- The replicas never run ahead: at any time each has performed the first stores of the primary. -/
def Lagging (cs : List (MemoryCycle numReps)) : Prop :=
  ∀ n i, performed (cs.take n) (some i) <+: performed (cs.take n) none

/-! The cycles as those of an overlay. -/

/-- A masked store by its effect on a word. -/
def overlayStore (nw : Word) (x : Word × Word × Word) : Overlay.Store Word Word :=
  ⟨index nw x.1, fun old => mergeMask old x.2.1 x.2.2⟩

/-- The primary leads and the replicas follow. -/
def MemoryCycle.toOverlay (nw : Word) : MemoryCycle numReps → Overlay.Cycle (Fin numReps) Word Word
  | .primary core => .leader (core.store?.map (overlayStore nw))
  | .replicas cores => .followers fun i => (cores i).store?.map (overlayStore nw)

/-- In a cycle an agent carries out the store of its core. -/
theorem MemoryCycle.store_toOverlay (nw : Word) (c : MemoryCycle numReps) (a : Agent numReps) :
    (c.toOverlay nw).store a = (c.store? a).map (overlayStore nw) := by
  cases c <;> cases a <;> rfl

/-- The stores of a core are those of its agent. -/
theorem performed_toOverlay (nw : Word) (cs : List (MemoryCycle numReps)) (a : Agent numReps) :
    Overlay.performed (cs.map (MemoryCycle.toOverlay nw)) a =
      (performed cs a).map (overlayStore nw) := by
  rw [Overlay.performed, List.flatMap_map, performed, List.map_flatMap]
  refine congrArg (List.flatMap · cs) (funext fun c => ?_)
  rw [MemoryCycle.store_toOverlay]
  cases c.store? a <;> rfl

/-- What a replica has still to perform is what its agent has to repeat. -/
theorem outstanding_toOverlay (nw : Word) (cs : List (MemoryCycle numReps)) (i : Fin numReps)
    (k : Word) :
    Overlay.outstanding (cs.map (MemoryCycle.toOverlay nw)) i k = outstanding nw cs i k := by
  rw [Overlay.outstanding, performed_toOverlay, performed_toOverlay, List.length_map,
    ← List.map_drop, List.countP_map]
  rfl

/-- Replicas that never run ahead are followers that never run ahead. -/
theorem Lagging.follows {cs : List (MemoryCycle numReps)} (h : Lagging cs) (nw : Word) :
    Overlay.Follows (cs.map (MemoryCycle.toOverlay nw)) := by
  intro n i
  rw [← List.map_take, performed_toOverlay, performed_toOverlay]
  exact (h n i).map _

namespace Memory

/-- A masked store of a core is a private store in the overlay. -/
theorem overlay_writeMask (m : Memory numReps) (hn : numReps ≠ 0) (a : Agent numReps)
    (addr data mask : Word) :
    (m.writeMask a.id addr data mask).overlay = m.overlay.store a (index m.nwords addr)
      (mergeMask (m.view a (index m.nwords addr)) data mask) := by
  unfold writeMask
  dsimp only
  rw [overlay_write4b_agent _ hn, read4b_eq_view, Agent.agent_id]
  rfl

/-- The primary's cycle is a step of the leader. -/
theorem overlay_update (m : Memory numReps) (hn : numReps ≠ 0) (core : CoreMemoryIF) :
    (m.update core).1.overlay =
      m.overlay.act (Function.update (fun _ => none) none
        (m.ifPrim.store?.map (overlayStore m.nwords))) := by
  rw [Overlay.act_single, CoreMemoryIF.store?]
  obtain ⟨hno, req, hm⟩ | ⟨hstore, req, hm⟩ := m.update_cases core
  · rw [hm, if_neg hno]
    rfl
  · rw [hm, if_pos hstore]
    exact overlay_writeMask _ hn none ..

/-- One step of the replica loop is a step of one follower. -/
theorem overlay_updateOne (s : Memory numReps × (Fin numReps → CoreMemoryIF)) (hn : numReps ≠ 0)
    (i : Fin numReps) :
    (updateOne s i).1.overlay = s.1.overlay.act (Function.update (fun _ => none) (some i)
      ((s.1.ifReps i).store?.map (overlayStore s.1.nwords))) := by
  rw [Overlay.act_single, CoreMemoryIF.store?]
  obtain ⟨hno, req, hm⟩ | ⟨hstore, req, hm⟩ := updateOne_cases s i
  · rw [hm, if_neg hno]
    rfl
  · rw [hm, if_pos hstore]
    exact overlay_writeMask _ hn (some i) ..

/-- The replica loop is a step of its followers. -/
theorem overlay_foldl_updateOne (hn : numReps ≠ 0) (indices : List (Fin numReps))
    (hnodup : indices.Nodup) (s : Memory numReps × (Fin numReps → CoreMemoryIF)) :
    (indices.foldl updateOne s).1.overlay = s.1.overlay.act fun a =>
      a.bind fun i => if i ∈ indices then (s.1.ifReps i).store?.map (overlayStore s.1.nwords)
        else none := by
  induction indices generalizing s with
  | nil =>
    have hnone : (fun a : Agent numReps => a.bind fun i => if i ∈ [] then
        (s.1.ifReps i).store?.map (overlayStore s.1.nwords) else none) = fun _ => none := by
      funext a
      cases a <;> simp
    rw [hnone]
    rfl
  | cons k indices ih =>
    obtain ⟨hk, hnodup⟩ := List.nodup_cons.mp hnodup
    rw [List.foldl_cons, ih hnodup, overlay_updateOne s hn, Overlay.act_act]
    · congr 1
      funext a
      cases a with
      | none => rfl
      | some i =>
        by_cases hi : i = k
        · subst hi
          simp [hk]
        · simp [hi, ifReps_updateOne s hi]
    · intro a
      cases a with
      | none => exact .inr rfl
      | some i =>
        by_cases hi : i = k
        · subst hi
          simp [hk]
        · simp [hi]

/-- With replicas, the layers are the buffers. -/
theorem layer_overlay (hn : numReps ≠ 0) (m : Memory numReps) (a : Agent numReps) (k : Word) :
    m.overlay.layer a k = (m.wbOf a.id)[k]? :=
  if_neg hn

/-- A word is covered when every buffer holds it. -/
theorem covered_overlay_iff (hn : numReps ≠ 0) (m : Memory numReps) (k : Word) :
    m.overlay.Covered k ↔ m.wbPrim[k]? ≠ none ∧ ∀ i, (m.wbReps i).contains k := by
  simp only [Overlay.Covered, layer_overlay hn, Std.TreeMap.contains_eq_isSome_getElem?,
    Option.isSome_iff_ne_none]
  constructor
  · intro h
    exact ⟨h none, fun i => h (some i)⟩
  · rintro ⟨hprim, hreps⟩ a
    cases a with
    | none => exact hprim
    | some i => exact hreps i

/-- Cleaning up an entry sweeps its word and no other. -/
theorem cleanupEntry_agreesAt (hn : numReps ≠ 0) (m : Memory numReps) (k l : Word) :
    (l = k → (m.cleanupEntry k).overlay.AgreesAt m.overlay.sweep l) ∧
      (l ≠ k → (m.cleanupEntry k).overlay.AgreesAt m.overlay l) := by
  have hcovered := covered_overlay_iff hn m k
  by_cases hall : m.overlay.Covered k
  · obtain ⟨hprim, hreps⟩ := hcovered.mp hall
    obtain ⟨data, hdata⟩ := Option.ne_none_iff_exists'.mp hprim
    have hleader : m.overlay.layer none k = some data := (layer_overlay hn m none k).trans hdata
    rw [overlay_cleanupEntry m hn k data hdata hreps]
    refine ⟨?_, fun hl => ?_⟩
    · rintro rfl
      refine ⟨?_, fun a => ?_⟩
      · simp [Overlay.settle, Overlay.sweep, hall, Overlay.view, hleader]
      · by_cases ha : m.overlay.layer a l = some data
        · exact (if_pos ⟨rfl, ha⟩).trans (if_pos ⟨hall, ha.trans hleader.symm⟩).symm
        · exact (if_neg fun h => ha h.2).trans (if_neg fun h => ha (h.2.trans hleader)).symm
    · refine ⟨Function.update_of_ne hl .., fun a => ?_⟩
      exact if_neg fun h => hl h.1
  · have hsame : m.cleanupEntry k = m := by
      rw [cleanupEntry]
      cases hprim : m.wbPrim[k]? with
      | none => rfl
      | some data =>
        exact if_neg fun hreps => hall (hcovered.mpr ⟨hprim ▸ Option.some_ne_none _, hreps⟩)
    rw [hsame]
    refine ⟨?_, fun _ => ⟨rfl, fun _ => rfl⟩⟩
    rintro rfl
    obtain ⟨hbase, hlayer⟩ := Overlay.sweep_agreesAt hall
    exact ⟨hbase.symm, fun a => (hlayer a).symm⟩

/-- Cleaning up the write buffers is a sweep. -/
theorem overlay_cleanupWb (hn : numReps ≠ 0) (m : Memory numReps) :
    m.cleanupWb.overlay = m.overlay.sweep := by
  have hfold : ∀ (keys : List Word) (m : Memory numReps) (l : Word),
      (l ∈ keys → (keys.foldl cleanupEntry m).overlay.AgreesAt m.overlay.sweep l) ∧
        (l ∉ keys → (keys.foldl cleanupEntry m).overlay.AgreesAt m.overlay l) := by
    intro keys
    induction keys with
    | nil => exact fun m l => ⟨fun h => absurd h List.not_mem_nil, fun _ => ⟨rfl, fun _ => rfl⟩⟩
    | cons k keys ih =>
      intro m l
      obtain ⟨hin, hout⟩ := ih (m.cleanupEntry k) l
      obtain ⟨hself, hother⟩ := cleanupEntry_agreesAt hn m k l
      rw [List.foldl_cons]
      refine ⟨fun hl => ?_, fun hl => ?_⟩
      · by_cases hmem : l ∈ keys
        · refine (hin hmem).trans ?_
          by_cases hk : l = k
          · exact (hself hk).sweep.trans (Overlay.sweep_sweep_agreesAt ..)
          · exact (hother hk).sweep
        · exact (hout hmem).trans (hself ((List.mem_cons.mp hl).resolve_right hmem))
      · rw [List.mem_cons, not_or] at hl
        exact (hout hl.2).trans (hother hl.1)
  refine Overlay.eq_of_agreesAt fun l => ?_
  rw [cleanupWb, if_neg hn]
  obtain ⟨hin, hout⟩ := hfold m.wbPrim.keys m l
  by_cases hl : l ∈ m.wbPrim.keys
  · exact hin hl
  · have hgap : ¬m.overlay.Covered l := by
      intro hall
      have hprim := ((covered_overlay_iff hn m l).mp hall).1
      rw [← Option.isSome_iff_ne_none, ← Std.TreeMap.contains_eq_isSome_getElem?] at hprim
      exact hl (Std.TreeMap.mem_keys.mpr hprim)
    obtain ⟨hbase, hlayer⟩ := Overlay.sweep_agreesAt hgap
    exact (hout hl).trans ⟨hbase.symm, fun a => (hlayer a).symm⟩

/-- A cycle of the memory is a cycle of the overlay. -/
theorem overlay_cycle (hn : numReps ≠ 0) (m : Memory numReps) (c : MemoryCycle numReps) :
    (m.cycle c).overlay = m.overlay.cycle (c.toOverlay m.nwords) := by
  cases c with
  | primary core =>
    have hact : (Overlay.Cycle.leader (core.store?.map (overlayStore m.nwords)) :
        Overlay.Cycle (Fin numReps) Word Word).store = Function.update (fun _ => none) none
          (core.store?.map (overlayStore m.nwords)) := by
      funext a
      cases a <;> rfl
    rw [cycle, overlay_update _ hn, MemoryCycle.toOverlay, Overlay.cycle, hact]
    rfl
  | replicas cores =>
    have hact : (Overlay.Cycle.followers fun i =>
        (cores i).store?.map (overlayStore m.nwords)).store = fun a : Agent numReps =>
          a.bind fun i => if i ∈ List.finRange numReps then
            (((m.driveReplica cores).ifReps i).store?).map (overlayStore m.nwords) else none := by
      funext a
      cases a with
      | none => rfl
      | some i => simp; rfl
    rw [cycle, updateReplica]
    dsimp only
    rw [overlay_cleanupWb hn, overlay_foldl_updateOne hn _ (List.nodup_finRange numReps),
      MemoryCycle.toOverlay, Overlay.cycle, hact]
    rfl

/-- A cycle keeps the number of words. -/
theorem nwords_cycle (m : Memory numReps) (c : MemoryCycle numReps) :
    (m.cycle c).nwords = m.nwords := by
  cases c with
  | primary core => exact nwords_update ..
  | replicas cores => exact nwords_updateReplica ..

/-- A run of the memory is one of the overlay. -/
theorem overlay_cycles (hn : numReps ≠ 0) (m : Memory numReps) (cs : List (MemoryCycle numReps)) :
    (cs.foldl cycle m).overlay =
      (cs.map (MemoryCycle.toOverlay m.nwords)).foldl Overlay.cycle m.overlay := by
  induction cs generalizing m with
  | nil => rfl
  | cons c cs ih =>
    rw [List.foldl_cons, ih, overlay_cycle hn, nwords_cycle]
    rfl

end Memory

/-- An empty buffer has no entry, and conversely. -/
theorem isEmpty_iff_getElem? (wb : WriteBuffer) :
    wb.isEmpty = true ↔ ∀ k : Word, wb[k]? = none := by
  rw [Std.TreeMap.isEmpty_iff_forall_contains]
  apply forall_congr'
  intro k
  rw [Std.TreeMap.contains_eq_isSome_getElem?, Option.isSome_eq_false_iff,
    Option.isNone_iff_eq_none]

/-- From empty buffers on, when in the end all replicas have performed the stores of the primary and
the replicas stepped last, the array holds the last value stored to every word, and an entry that is
left in a buffer holds that value, too. When no replica ever ran ahead, the primary's buffer is
empty besides, and no entry is left of a word to which no replica ever had two stores still to
perform. -/
theorem writeBuffers_drain (hn : 0 < numReps) {m : Memory numReps}
    (hprim : m.wbPrim.isEmpty = true) (hreps : ∀ i, (m.wbReps i).isEmpty = true)
    {cs : List (MemoryCycle numReps)}
    (hdone : ∀ i, performed cs (some i) = performed cs none) :
    let t := cs.foldl Memory.cycle m
    (∀ cores, cs.getLast? = some (.replicas cores) →
      t.mem = (performed cs none).foldl (WordMap.store m.nwords) m.mem ∧
        ∀ (a : Agent numReps) k v, (t.wbOf a.id)[k]? = some v → v = t.mem k) ∧
    (Lagging cs →
      t.wbPrim.isEmpty = true ∧
        t.mem = (performed cs none).foldl (WordMap.store m.nwords) m.mem ∧
        (∀ i k v, (t.wbReps i)[k]? = some v → v = t.mem k) ∧
        ∀ k, (∀ n i, outstanding m.nwords (cs.take n) i k ≤ 1) →
          ∀ i, (t.wbReps i)[k]? = none) := by
  intro t
  have hn : numReps ≠ 0 := hn.ne'
  have : Nonempty (Fin numReps) := ⟨⟨0, Nat.pos_of_ne_zero hn⟩⟩
  have hempty : ∀ a k, m.overlay.layer a k = none := by
    intro a k
    rw [Memory.layer_overlay hn]
    cases a with
    | none => exact (isEmpty_iff_getElem? _).mp hprim k
    | some i => exact (isEmpty_iff_getElem? _).mp (hreps i) k
  have hsame : ∀ i, Overlay.performed (cs.map (MemoryCycle.toOverlay m.nwords)) (some i) =
      Overlay.performed (cs.map (MemoryCycle.toOverlay m.nwords)) none := by
    intro i
    rw [performed_toOverlay, performed_toOverlay, hdone]
  have hstores : (Overlay.performed (cs.map (MemoryCycle.toOverlay m.nwords)) none).foldl
      Overlay.Store.run m.overlay.base =
        (performed cs none).foldl (WordMap.store m.nwords) m.mem := by
    rw [performed_toOverlay, List.foldl_map]
    rfl
  refine ⟨fun cores hlast => ?_, fun hlag => ?_⟩
  · have hlast' := congrArg (Option.map (MemoryCycle.toOverlay m.nwords)) hlast
    rw [← List.getLast?_map] at hlast'
    have hsettled := Overlay.settled hempty hsame hlast'
    rw [← Memory.overlay_cycles hn] at hsettled
    obtain ⟨hbase, hleft⟩ := hsettled
    exact ⟨hbase.trans hstores,
      fun a k v hv => hleft a k v ((Memory.layer_overlay hn t a k).trans hv)⟩
  · have hdrained := Overlay.drained hempty (hlag.follows m.nwords) hsame
    rw [← Memory.overlay_cycles hn] at hdrained
    obtain ⟨hleader, hbase, hleft, honce⟩ := hdrained
    refine ⟨?_, hbase.trans hstores, fun i k v hv => ?_, fun k hk i => ?_⟩
    · rw [isEmpty_iff_getElem?]
      exact fun k => (Memory.layer_overlay hn t none k).symm.trans (hleader k)
    · exact hleft i k v ((Memory.layer_overlay hn t (some i) k).trans hv)
    · refine (Memory.layer_overlay hn t (some i) k).symm.trans (honce k (fun n j => ?_) i)
      rw [← List.map_take, outstanding_toOverlay]
      exact hk n j

/-- A core's request to store a word. -/
def storeWord (addr data : Word) : CoreMemoryIF := ⟨0, addr, 0, 0, data, 15, 1, 0, 1⟩

/-- No request. -/
def noRequest : CoreMemoryIF := ⟨0, 0, 0, 0, 0, 0, 0, 0, 0⟩

/-- The cycles in which the primary and the only replica each store the given words. -/
def storeCycles (prim rep : List (Word × Word)) : List (MemoryCycle 1) :=
  prim.map (fun x => .primary (storeWord x.1 x.2)) ++
    rep.map fun x => .replicas fun _ => storeWord x.1 x.2

/-- A memory with one replica and empty buffers. -/
def emptyBuffers : Memory 1 := Memory.new noRequest (fun _ => noRequest) 4

/-- The cycles in which the replica stores a word twice before the primary does, and is idle after
each store of the primary. -/
def aheadCycles (addr data : Word) : List (MemoryCycle 1) :=
  let idle : MemoryCycle 1 := .replicas fun _ => noRequest
  let ahead : MemoryCycle 1 := .replicas fun _ => storeWord addr data
  let store : MemoryCycle 1 := .primary (storeWord addr data)
  [ahead, ahead, store, idle, store, idle]

/-- The replica stores one word after the primary did: both buffers are empty. When it was ahead the
word is in the array all the same. -/
theorem one_store_drains :
    let t := (storeCycles [(4, 7)] [(4, 7)]).foldl Memory.cycle emptyBuffers
    let u := (aheadCycles 4 7).foldl Memory.cycle emptyBuffers
    (t.wbPrim.isEmpty = true ∧ t.mem 1 = 7 ∧ (t.wbReps 0)[(1 : Word)]? = none) ∧ u.mem 1 = 7 := by
  intro t u
  have hlag : Lagging (storeCycles [(4, 7)] [(4, 7)]) := by
    intro n
    rcases n with _ | _ | n
    · decide
    · decide
    · rw [List.take_of_length_le (by simp [storeCycles])]
      decide
  obtain ⟨-, hdrained⟩ := writeBuffers_drain (m := emptyBuffers) (by decide) (by decide) (by decide)
    (show ∀ i, performed (storeCycles [(4, 7)] [(4, 7)]) (some i) = performed _ none by decide)
  obtain ⟨hprim, hmem, -, hleft⟩ := hdrained hlag
  obtain ⟨hsettled, -⟩ := writeBuffers_drain (m := emptyBuffers) (by decide) (by decide) (by decide)
    (show ∀ i, performed (aheadCycles 4 7) (some i) = performed _ none by decide)
  refine ⟨⟨hprim, ?_, hleft 1 (fun n => ?_) 0⟩, ?_⟩
  · rw [hmem]
    decide
  · rcases n with _ | _ | n
    · decide
    · decide
    · rw [List.take_of_length_le (by simp [storeCycles])]
      decide
  · obtain ⟨hmem, -⟩ := hsettled _ rfl
    rw [show u.mem = _ from hmem]
    decide

/-- The primary stores twice before the replica stores once: the second value of the replica comes
when the word has already been settled, and stays in its buffer. When the replica stores twice
before the primary does, it is the primary's second value that stays. -/
theorem second_store_stays :
    (Lagging (storeCycles [(4, 1), (4, 2)] [(4, 1), (4, 2)]) ∧
      (∀ i, performed (storeCycles [(4, 1), (4, 2)] [(4, 1), (4, 2)]) (some i) =
        performed (storeCycles [(4, 1), (4, 2)] [(4, 1), (4, 2)]) none) ∧
      ¬∀ i, (((storeCycles [(4, 1), (4, 2)] [(4, 1), (4, 2)]).foldl Memory.cycle
        emptyBuffers).wbReps i).isEmpty = true) ∧
      (∀ i, performed (aheadCycles 4 7) (some i) = performed (aheadCycles 4 7) none) ∧
      ¬((aheadCycles 4 7).foldl Memory.cycle emptyBuffers).wbPrim.isEmpty = true := by
  refine ⟨⟨fun n => ?_, by decide, by decide⟩, by decide, by decide⟩
  rcases n with _ | _ | _ | _ | n
  · decide
  · decide
  · decide
  · decide
  · rw [List.take_of_length_le (by simp [storeCycles])]
    decide

end VeriCross
