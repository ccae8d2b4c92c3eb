import Mathlib.Logic.Function.Basic

/-!
# A shared map under private layers

Several agents read one shared base map, each through its own partial layer that hides the
base where it is defined. A private store writes the agent's own layer, a broadcast writes the
base and clears the key from every layer, and settling a key moves one value into the base and
drops the layer entries that agree with it. What an agent sees is a private total map: stores
and broadcasts update it, and settling a key present in every layer is invisible.
-/

/-- A base map and one partial layer for each agent. -/
structure Overlay (ι K V : Type*) where
  base : K → V
  layer : ι → K → Option V

namespace Overlay

variable {ι K V : Type*} [DecidableEq K]

/-- What an agent reads at a key. -/
def view (s : Overlay ι K V) (i : ι) (k : K) : V := (s.layer i k).getD (s.base k)

/-- A private store of one agent. -/
def store [DecidableEq ι] (s : Overlay ι K V) (i : ι) (k : K) (v : V) : Overlay ι K V :=
  { s with layer := Function.update s.layer i (Function.update (s.layer i) k (some v)) }

/-- A store by all agents: the base takes the value and no layer hides it. -/
def broadcast (s : Overlay ι K V) (k : K) (v : V) : Overlay ι K V :=
  { base := Function.update s.base k v
    layer := fun i => Function.update (s.layer i) k none }

/-- Move a value of a key into the base, dropping the layer entries that agree with it. -/
def settle [DecidableEq V] (s : Overlay ι K V) (k : K) (v : V) : Overlay ι K V :=
  { base := Function.update s.base k v
    layer := fun i l => if l = k ∧ s.layer i k = some v then none else s.layer i l }

/-- A private store updates the storing agent's map at one key and no other map. -/
theorem view_store [DecidableEq ι] (s : Overlay ι K V) (i : ι) (k : K) (v : V) :
    (s.store i k v).view = Function.update s.view i (Function.update (s.view i) k v) := by
  funext j l
  by_cases hj : j = i
  · subst hj
    by_cases hl : l = k
    · subst hl
      simp [view, store]
    · simp [view, store, hl]
  · simp [view, store, hj]

/-- A broadcast updates every agent's map at the same key. -/
theorem view_broadcast (s : Overlay ι K V) (k : K) (v : V) :
    (s.broadcast k v).view = fun i => Function.update (s.view i) k v := by
  funext i l
  by_cases hl : l = k
  · subst hl
    simp [view, broadcast]
  · simp [view, broadcast, hl]

/-- Settling a key that is present in every layer changes no agent's map, whether or not the
layers agree on its value. -/
theorem view_settle [DecidableEq V] (s : Overlay ι K V) (k : K) (v : V)
    (hall : ∀ i, (s.layer i k).isSome) : (s.settle k v).view = s.view := by
  funext i l
  by_cases hl : l = k
  · subst hl
    obtain ⟨u, hu⟩ := Option.isSome_iff_exists.mp (hall i)
    by_cases huv : u = v <;> simp [view, settle, hu, huv]
  · simp [view, settle, hl]

end Overlay
