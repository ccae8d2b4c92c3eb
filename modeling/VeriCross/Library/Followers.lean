import VeriCross.Library.Overlay
import Mathlib.Data.List.Induction

/-!
# Followers that repeat a leader's stores

The agents of an overlay are a leader and any number of followers. The leader stores at any time;
the followers store together, and after each such step every key that all layers hold is swept: the
base takes the leader's value, and the layers that agree with the leader drop theirs. When all have
performed the same stores and the followers stepped last, the base is what everyone sees. When no
follower ran ahead of the leader, too, the leader's layer is empty. A follower that was behind when
a key was swept keeps its entry.
-/

namespace Overlay

variable {ι K V : Type*}

/-- A store to a key, by its effect on the value that the agent sees there. -/
structure Store (K V : Type*) where
  key : K
  effect : V → V

/-- A step of the leader alone, or one of all followers. -/
inductive Cycle (ι K V : Type*)
  | leader (x : Option (Store K V))
  | followers (x : ι → Option (Store K V))

/-- The store of an agent in a cycle. -/
def Cycle.store : Cycle ι K V → Option ι → Option (Store K V)
  | .leader x, none => x
  | .leader _, some _ => none
  | .followers _, none => none
  | .followers x, some i => x i

/-- The stores of an agent in a sequence of cycles. -/
def performed (cs : List (Cycle ι K V)) (a : Option ι) : List (Store K V) :=
  cs.flatMap fun c => (c.store a).toList

/-- Two overlays are the same at a key. -/
def AgreesAt (s t : Overlay ι K V) (k : K) : Prop :=
  s.base k = t.base k ∧ ∀ a, s.layer a k = t.layer a k

/-- Being the same at a key is transitive. -/
theorem AgreesAt.trans {s t u : Overlay ι K V} {k : K} (h : s.AgreesAt t k)
    (h' : t.AgreesAt u k) : s.AgreesAt u k :=
  ⟨h.1.trans h'.1, fun a => (h.2 a).trans (h'.2 a)⟩

/-- Overlays that are the same at every key are the same. -/
theorem eq_of_agreesAt {s t : Overlay ι K V} (h : ∀ k, s.AgreesAt t k) : s = t := by
  have hlayer : s.layer = t.layer := funext fun a => funext fun k => (h k).2 a
  cases s
  cases t
  exact congrArg₂ Overlay.mk (funext fun k => (h k).1) hlayer

/-- Every layer holds a key. -/
def Covered (s : Overlay ι K V) (k : K) : Prop := ∀ a, s.layer a k ≠ none

open Classical in
/-- Move every key that all layers hold to the base. -/
noncomputable def sweep (s : Overlay (Option ι) K V) : Overlay (Option ι) K V where
  base k := if s.Covered k then s.view none k else s.base k
  layer a k := if s.Covered k ∧ s.layer a k = s.layer none k then none else s.layer a k

/-- An agent's own total map after a store. -/
def Store.run [DecidableEq K] (f : K → V) (x : Store K V) : K → V :=
  Function.update f x.key (x.effect (f x.key))

/-- Every agent carries out an optional store. -/
def act [DecidableEq K] (s : Overlay ι K V) (x : ι → Option (Store K V)) : Overlay ι K V :=
  { s with
    layer := fun a => (x a).elim (s.layer a) fun x =>
      Function.update (s.layer a) x.key (some (x.effect (s.view a x.key))) }

/-- When only one agent acts, it carries out a private store or none. -/
theorem act_single [DecidableEq K] [DecidableEq ι] (s : Overlay ι K V) (a : ι)
    (x : Option (Store K V)) :
    s.act (Function.update (fun _ => none) a x) =
      x.elim s fun x => s.store a x.key (x.effect (s.view a x.key)) := by
  have hlayer : (s.act (Function.update (fun _ => none) a x)).layer =
      (x.elim s fun x => s.store a x.key (x.effect (s.view a x.key))).layer := by
    funext b
    by_cases hb : b = a
    · subst hb
      cases x <;> simp [act, store]
    · cases x <;> simp [act, store, hb]
  cases x with
  | none => exact congrArg (Overlay.mk s.base) hlayer
  | some x => exact congrArg (Overlay.mk s.base) hlayer

/-- Agents that act one after the other act together. -/
theorem act_act [DecidableEq K] (s : Overlay ι K V) {x y : ι → Option (Store K V)}
    (h : ∀ a, x a = none ∨ y a = none) :
    (s.act x).act y = s.act fun a => (x a).or (y a) := by
  refine congrArg (Overlay.mk s.base) (funext fun a => ?_)
  rcases h a with hx | hy
  · cases hy : y a with
    | none => simp [act, hx, hy]
    | some y => simp [act, view, hx, hy]
  · cases hx : x a <;> simp [act, hx, hy]

/-- The effect of a cycle. -/
noncomputable def cycle [DecidableEq K] (s : Overlay (Option ι) K V) :
    Cycle ι K V → Overlay (Option ι) K V
  | .leader x => s.act (Cycle.leader x).store
  | .followers x => (s.act (Cycle.followers x).store).sweep

/-- How many stores of the leader to a key a follower has still to repeat. -/
def outstanding [DecidableEq K] (cs : List (Cycle ι K V)) (i : ι) (k : K) : ℕ :=
  ((performed cs none).drop (performed cs (some i)).length).countP fun x => x.key = k

/-- In every state of the sequence, the stores of each follower are the first ones of the leader. -/
def Follows (cs : List (Cycle ι K V)) : Prop :=
  ∀ n i, performed (cs.take n) (some i) <+: performed (cs.take n) none

/-! Sequences of cycles. -/

/-- The stores of one more cycle come last. -/
theorem performed_append (cs : List (Cycle ι K V)) (c : Cycle ι K V) (a : Option ι) :
    performed (cs ++ [c]) a = performed cs a ++ (c.store a).toList := by
  rw [performed, List.flatMap_append, List.flatMap_singleton]
  rfl

/-- At the end the stores of a follower are the first ones of the leader. -/
theorem Follows.prefix {cs : List (Cycle ι K V)} (h : Follows cs) (i : ι) :
    performed cs (some i) <+: performed cs none := by
  have hall := h cs.length i
  rwa [List.take_length] at hall

/-- What holds of all first parts of a list holds of those of a shorter one. -/
theorem forall_take_of_append {α : Type*} {P : List α → Prop} {xs : List α} {x : α}
    (h : ∀ n, P ((xs ++ [x]).take n)) (n : ℕ) : P (xs.take n) := by
  by_cases hn : n ≤ xs.length
  · have hall := h n
    rwa [List.take_append_of_le_length hn] at hall
  · have hall := h xs.length
    rw [List.take_append_of_le_length (Nat.le_refl _), List.take_length] at hall
    rwa [List.take_of_length_le (by omega)]

/-- Followers that never run ahead did not before the last cycle. -/
theorem Follows.of_append {cs : List (Cycle ι K V)} {c : Cycle ι K V} (h : Follows (cs ++ [c])) :
    Follows cs :=
  forall_take_of_append (P := fun cs => ∀ i, performed cs (some i) <+: performed cs none) h

/-- The stores that a follower has still to repeat. -/
theorem outstanding_of_append [DecidableEq K] {cs : List (Cycle ι K V)} {i : ι}
    {rest : List (Store K V)} (h : performed cs (some i) ++ rest = performed cs none) (k : K) :
    outstanding cs i k = rest.countP fun x => x.key = k := by
  rw [outstanding, ← h, List.drop_left]

/-- The stores that a cycle adds to what a follower has to repeat, or takes away. -/
theorem outstanding_append [DecidableEq K] {cs : List (Cycle ι K V)} {c : Cycle ι K V}
    (h : Follows (cs ++ [c])) (i : ι) (k : K) :
    outstanding (cs ++ [c]) i k + (c.store (some i)).toList.countP (fun x => x.key = k) =
      outstanding cs i k + (c.store none).toList.countP (fun x => x.key = k) := by
  obtain ⟨rest, hrest⟩ := h.of_append.prefix i
  obtain ⟨rest', hrest'⟩ := h.prefix i
  have hboth : rest ++ (c.store none).toList = (c.store (some i)).toList ++ rest' := by
    rw [performed_append, performed_append, ← hrest, List.append_assoc, List.append_assoc,
      List.append_cancel_left_eq] at hrest'
    exact hrest'.symm
  have hcount := congrArg (List.countP fun x => decide (x.key = k)) hboth
  rw [List.countP_append, List.countP_append] at hcount
  rw [outstanding_of_append hrest, outstanding_of_append hrest']
  omega

/-- A follower that has caught up has nothing to repeat. -/
theorem outstanding_eq_zero [DecidableEq K] {cs : List (Cycle ι K V)} {i : ι}
    (h : performed cs (some i) = performed cs none) (k : K) : outstanding cs i k = 0 := by
  have happend : performed cs (some i) ++ [] = performed cs none := by rw [h, List.append_nil]
  rw [outstanding_of_append happend, List.countP_nil]

/-! The maps that the agents see. -/

section Steps

variable [DecidableEq K]

/-- A store of each agent is carried out on its own map. -/
theorem view_act (s : Overlay ι K V) (x : ι → Option (Store K V)) (a : ι) :
    (s.act x).view a = (x a).toList.foldl Store.run (s.view a) := by
  funext k
  cases hx : x a with
  | none => simp [view, act, hx]
  | some x =>
    rw [Option.toList_some, List.foldl_cons, List.foldl_nil, Store.run]
    by_cases hk : k = x.key
    · subst hk
      simp [view, act, hx]
    · simp [view, act, hx, hk]

omit [DecidableEq K] in
/-- Sweeping changes no agent's map. -/
theorem view_sweep (s : Overlay (Option ι) K V) : s.sweep.view = s.view := by
  funext a k
  by_cases hall : s.Covered k
  · obtain ⟨u, hu⟩ := Option.ne_none_iff_exists'.mp (hall a)
    by_cases hsame : s.layer a k = s.layer none k
    · simp [view, sweep, hall, hsame]
    · have hstays : ¬(s.Covered k ∧ s.layer a k = s.layer none k) := fun h => hsame h.2
      have hlayer : s.sweep.layer a k = some u := (if_neg hstays).trans hu
      rw [view, view, hlayer, hu]
      rfl
  · simp [view, sweep, hall]

/-- An agent's map after a sequence of cycles. -/
theorem view_cycles (s : Overlay (Option ι) K V) (cs : List (Cycle ι K V)) (a : Option ι) :
    (cs.foldl cycle s).view a = (performed cs a).foldl Store.run (s.view a) := by
  induction cs generalizing s with
  | nil => rfl
  | cons c cs ih =>
    have hcycle : (s.cycle c).view a = (c.store a).toList.foldl Store.run (s.view a) := by
      cases c with
      | leader x => exact view_act ..
      | followers x =>
        rw [cycle, view_sweep]
        exact view_act ..
    have hstores : performed (c :: cs) a = (c.store a).toList ++ performed cs a :=
      List.flatMap_cons
    rw [List.foldl_cons, ih, hcycle, hstores, List.foldl_append]

/-- Stores to other keys do not change what is seen at a key. -/
theorem foldl_run_of_countP {xs : List (Store K V)} {k : K}
    (h : xs.countP (fun x => x.key = k) = 0) (f : K → V) : xs.foldl Store.run f k = f k := by
  induction xs generalizing f with
  | nil => rfl
  | cons x xs ih =>
    rw [List.countP_cons] at h
    have hx : x.key ≠ k := by
      intro hx
      simp [hx] at h
    rw [List.foldl_cons, ih (by omega), Store.run, Function.update_of_ne hx.symm]

/-- A follower with nothing to repeat at a key sees there what the leader sees. -/
theorem view_eq_of_outstanding {s : Overlay (Option ι) K V} {cs : List (Cycle ι K V)}
    (h : Follows cs) (hsame : ∀ a, s.view a = s.view none) {i : ι} {k : K}
    (hnone : outstanding cs i k = 0) :
    (cs.foldl cycle s).view (some i) k = (cs.foldl cycle s).view none k := by
  obtain ⟨rest, hrest⟩ := h.prefix i
  rw [outstanding_of_append hrest] at hnone
  rw [view_cycles, view_cycles, ← hrest, List.foldl_append, foldl_run_of_countP hnone, hsame]

/-! Sweeping key by key. -/

omit [DecidableEq K] in
/-- Sweeping a key depends on that key alone. -/
theorem AgreesAt.sweep {s t : Overlay (Option ι) K V} {k : K} (h : s.AgreesAt t k) :
    s.sweep.AgreesAt t.sweep k := by
  obtain ⟨hbase, hlayer⟩ := h
  have hcovered : s.Covered k ↔ t.Covered k := forall_congr' fun a => by rw [hlayer]
  have hview : s.view none k = t.view none k := by rw [view, view, hbase, hlayer]
  classical
  refine ⟨if_congr hcovered hview hbase, fun a => ?_⟩
  exact if_congr (and_congr hcovered (by rw [hlayer, hlayer])) rfl (hlayer a)

omit [DecidableEq K] in
/-- A key that some layer does not hold is not swept. -/
theorem sweep_agreesAt {s : Overlay (Option ι) K V} {k : K} (h : ¬s.Covered k) :
    s.sweep.AgreesAt s k :=
  ⟨if_neg h, fun _ => if_neg fun hc => h hc.1⟩

omit [DecidableEq K] in
/-- A swept key is not held by the leader, so it is not swept again. -/
theorem sweep_sweep_agreesAt (s : Overlay (Option ι) K V) (k : K) :
    s.sweep.sweep.AgreesAt s.sweep k := by
  refine sweep_agreesAt fun hall => ?_
  by_cases h : s.Covered k
  · exact hall none (if_pos ⟨h, rfl⟩)
  · exact h fun a => by rw [← (sweep_agreesAt h).2 a]; exact hall a

/-! What the layers hold. -/

/-- A layer holds what it held and the key of a store. -/
theorem layer_act_ne_none (s : Overlay ι K V) (x : ι → Option (Store K V)) (a : ι) (k : K) :
    (s.act x).layer a k ≠ none ↔
      s.layer a k ≠ none ∨ 0 < (x a).toList.countP fun x => x.key = k := by
  cases hx : x a with
  | none => simp [act, hx]
  | some x =>
    by_cases hk : k = x.key
    · subst hk
      simp [act, hx]
    · simp [act, hx, hk, Ne.symm hk]

omit [DecidableEq K] in
/-- Sweeping keeps the leader's entries that some follower does not hold. -/
theorem leader_sweep_ne_none (s : Overlay (Option ι) K V) (k : K) :
    s.sweep.layer none k ≠ none ↔ s.layer none k ≠ none ∧ ¬s.Covered k := by
  by_cases hall : s.Covered k <;> simp [sweep, hall]

omit [DecidableEq K] in
/-- Sweeping keeps every entry of a key that some layer does not hold. -/
theorem layer_sweep_of_not_covered {s : Overlay (Option ι) K V} {k : K} (h : ¬s.Covered k)
    (a : Option ι) : s.sweep.layer a k = s.layer a k := by
  simp [sweep, h]

/-- A key in the leader's layer is one that some follower has still to repeat, and a follower that
has nothing to repeat at it holds it. -/
structure Waiting (cs : List (Cycle ι K V)) (s : Overlay (Option ι) K V) : Prop where
  repeated : ∀ k, s.layer none k ≠ none → ∃ i, 0 < outstanding cs i k
  holds : ∀ k i, s.layer none k ≠ none → outstanding cs i k = 0 → s.layer (some i) k ≠ none

/-- A cycle keeps the leader waiting for its followers. -/
theorem Waiting.cycle [Nonempty ι] {cs : List (Cycle ι K V)} {s : Overlay (Option ι) K V}
    (h : Waiting cs s) {c : Cycle ι K V} (hfollows : Follows (cs ++ [c])) :
    Waiting (cs ++ [c]) (s.cycle c) := by
  have hcount := outstanding_append hfollows
  have hacted := layer_act_ne_none s c.store
  cases c with
  | leader x =>
    have hidle : ∀ (k : K) (i : ι),
        ((Cycle.leader x).store (some i)).toList.countP (fun x => x.key = k) = 0 := fun _ _ => rfl
    refine ⟨fun k hleader => ?_, fun k i hleader hnone => ?_⟩
    · rcases (hacted none k).mp hleader with hold | hnew
      · obtain ⟨i, hi⟩ := h.repeated k hold
        exact ⟨i, by have hk := hcount i k; rw [hidle] at hk; omega⟩
      · obtain ⟨i⟩ := ‹Nonempty ι›
        exact ⟨i, by have hk := hcount i k; rw [hidle] at hk; omega⟩
    · have hk := hcount i k
      rw [hidle] at hk
      rcases (hacted none k).mp hleader with hold | hnew
      · exact (hacted (some i) k).mpr (.inl (h.holds k i hold (by omega)))
      · omega
  | followers x =>
    have hidle : ∀ k : K,
        ((Cycle.followers x).store none).toList.countP (fun x => x.key = k) = 0 := fun _ => rfl
    -- before the sweep, a follower with nothing to repeat holds what the leader holds
    have hholds : ∀ k i, (s.act (Cycle.followers x).store).layer none k ≠ none →
        outstanding (cs ++ [.followers x]) i k = 0 →
          (s.act (Cycle.followers x).store).layer (some i) k ≠ none := by
      intro k i hleader hnone
      have hk := hcount i k
      have hold := ((hacted none k).mp hleader).resolve_right (by rw [hidle]; omega)
      rw [hidle] at hk
      rw [hacted]
      by_cases hnew : 0 < ((Cycle.followers x).store (some i)).toList.countP fun x => x.key = k
      · exact .inr hnew
      · exact .inl (h.holds k i hold (by omega))
    refine ⟨fun k hleader => ?_, fun k i hleader hnone => ?_⟩
    · obtain ⟨hbefore, hgap⟩ := (leader_sweep_ne_none _ k).mp hleader
      obtain ⟨a, ha⟩ := not_forall.mp hgap
      rw [not_not] at ha
      cases a with
      | none => exact absurd ha hbefore
      | some i => exact ⟨i, Nat.pos_of_ne_zero fun hnone => hholds k i hbefore hnone ha⟩
    · obtain ⟨hbefore, hgap⟩ := (leader_sweep_ne_none _ k).mp hleader
      change (s.act (Cycle.followers x).store).sweep.layer (some i) k ≠ none
      rw [layer_sweep_of_not_covered hgap]
      exact hholds k i hbefore hnone

/-- After any sequence of cycles the leader waits for its followers. -/
theorem waiting_cycles [Nonempty ι] {s : Overlay (Option ι) K V}
    (hempty : ∀ a k, s.layer a k = none) {cs : List (Cycle ι K V)} (h : Follows cs) :
    Waiting cs (cs.foldl Overlay.cycle s) := by
  induction cs using List.reverseRecOn with
  | nil => exact ⟨fun k hk => absurd (hempty none k) hk, fun k _ hk => absurd (hempty none k) hk⟩
  | append_singleton cs c ih =>
    rw [List.foldl_append]
    exact (ih h.of_append).cycle h

/-- A key is in step: when the leader does not hold it no follower has to repeat it, and only
followers that have nothing to repeat hold it, and only with the leader. -/
structure InStep (cs : List (Cycle ι K V)) (s : Overlay (Option ι) K V) (k : K) : Prop where
  settled : s.layer none k = none → ∀ i, outstanding cs i k = 0
  holds : ∀ i, s.layer (some i) k ≠ none → s.layer none k ≠ none ∧ outstanding cs i k = 0

/-- A step of the leader keeps a key in step that no follower has to repeat twice. -/
theorem InStep.leader {cs : List (Cycle ι K V)} {s : Overlay (Option ι) K V} {k : K}
    (h : InStep cs s k) (hwaiting : Waiting cs s) {x : Option (Store K V)}
    (hfollows : Follows (cs ++ [.leader x]))
    (honce : ∀ i, outstanding (cs ++ [.leader x]) i k ≤ 1) :
    InStep (cs ++ [.leader x]) (s.cycle (.leader x)) k := by
  have hacted := layer_act_ne_none s (Cycle.leader x).store
  have hcount : ∀ i, outstanding (cs ++ [.leader x]) i k =
      outstanding cs i k + x.toList.countP (fun x => x.key = k) :=
    fun i => outstanding_append hfollows i k
  refine ⟨fun hnone i => ?_, fun i hheld => ?_⟩
  · have hleader := mt (hacted none k).mpr (not_not.mpr hnone)
    rw [not_or, not_not] at hleader
    have hnew : ¬0 < x.toList.countP fun x => x.key = k := hleader.2
    have hold := h.settled hleader.1 i
    rw [hcount]
    omega
  · have hold : s.layer (some i) k ≠ none := ((hacted (some i) k).mp hheld).resolve_right (by
      change ¬0 < 0
      omega)
    obtain ⟨hleader, hnone⟩ := h.holds i hold
    -- a new store to the key would be the second one for a follower that the key waits for
    obtain ⟨j, hj⟩ := hwaiting.repeated k hleader
    have hcountj := hcount j
    have hcounti := hcount i
    have honcej := honce j
    exact ⟨(hacted none k).mpr (.inl hleader), by omega⟩

/-- A step of the followers keeps a key in step. -/
theorem InStep.followers {cs : List (Cycle ι K V)} {s : Overlay (Option ι) K V} {k : K}
    (h : InStep cs s k) {x : ι → Option (Store K V)} (hfollows : Follows (cs ++ [.followers x]))
    (honce : ∀ i, outstanding cs i k ≤ 1)
    (hview : ∀ i, outstanding (cs ++ [.followers x]) i k = 0 →
      (s.cycle (.followers x)).view (some i) k = (s.cycle (.followers x)).view none k) :
    InStep (cs ++ [.followers x]) (s.cycle (.followers x)) k := by
  have hacted := layer_act_ne_none s (Cycle.followers x).store
  have hcount : ∀ i, outstanding (cs ++ [.followers x]) i k +
      (x i).toList.countP (fun x => x.key = k) = outstanding cs i k :=
    fun i => outstanding_append hfollows i k
  have hleader : (s.act (Cycle.followers x).store).layer none k ≠ none ↔ s.layer none k ≠ none :=
    (hacted none k).trans (or_iff_left (Nat.lt_irrefl 0))
  -- before the sweep, only followers that have nothing to repeat hold the key
  have hholds : ∀ i, (s.act (Cycle.followers x).store).layer (some i) k ≠ none →
      s.layer none k ≠ none ∧ outstanding (cs ++ [.followers x]) i k = 0 := by
    intro i hheld
    have hi := hcount i
    have honcei := honce i
    rcases (hacted (some i) k).mp hheld with hold | hnew
    · obtain ⟨hkey, hnone⟩ := h.holds i hold
      exact ⟨hkey, by omega⟩
    · have hnew : 0 < (x i).toList.countP fun x => x.key = k := hnew
      refine ⟨fun hkey => ?_, by omega⟩
      have hsettled := h.settled hkey i
      omega
  by_cases hall : (s.act (Cycle.followers x).store).Covered k
  · refine ⟨fun _ i => (hholds i (hall (some i))).2, fun i hheld => absurd ?_ hheld⟩
    -- the follower agrees with the leader, so its entry is swept, too
    have hsame := hview i (hholds i (hall (some i))).2
    rw [Overlay.cycle, view_sweep] at hsame
    obtain ⟨u, hu⟩ := Option.ne_none_iff_exists'.mp (hall (some i))
    obtain ⟨v, hv⟩ := Option.ne_none_iff_exists'.mp (hall none)
    rw [view, view, hu, hv, Option.getD_some, Option.getD_some] at hsame
    exact if_pos ⟨hall, by rw [hu, hv, hsame]⟩
  · have hkeeps := layer_sweep_of_not_covered hall
    refine ⟨fun hnone i => ?_, fun i hheld => ?_⟩
    · have hbefore : (s.act (Cycle.followers x).store).layer none k = none :=
        (hkeeps none).symm.trans hnone
      have hsettled := h.settled (not_not.mp (mt hleader.mpr (not_not.mpr hbefore))) i
      have hi := hcount i
      omega
    · have hbefore : (s.act (Cycle.followers x).store).layer (some i) k ≠ none :=
        fun hnone => hheld ((hkeeps (some i)).trans hnone)
      obtain ⟨hkey, hnone⟩ := hholds i hbefore
      refine ⟨fun h => hleader.mpr hkey ((hkeeps none).symm.trans h), hnone⟩

/-- A key that no follower ever has to repeat twice stays in step. -/
theorem inStep_cycles [Nonempty ι] {s : Overlay (Option ι) K V}
    (hempty : ∀ a k, s.layer a k = none) {cs : List (Cycle ι K V)} (h : Follows cs) {k : K}
    (honce : ∀ n i, outstanding (cs.take n) i k ≤ 1) : InStep cs (cs.foldl Overlay.cycle s) k := by
  induction cs using List.reverseRecOn with
  | nil => exact ⟨fun _ _ => rfl, fun i hheld => absurd (hempty (some i) k) hheld⟩
  | append_singleton cs c ih =>
    have hbefore : ∀ n i, outstanding (cs.take n) i k ≤ 1 :=
      forall_take_of_append (P := fun cs => ∀ i, outstanding cs i k ≤ 1) honce
    have hin := ih h.of_append hbefore
    have hsame : ∀ a, s.view a = s.view none := by
      intro a
      funext l
      rw [view, view, hempty, hempty]
    rw [List.foldl_append]
    cases c with
    | leader x =>
      refine hin.leader (waiting_cycles hempty h.of_append) h fun i => ?_
      have hall := honce (cs ++ [Cycle.leader x]).length i
      rwa [List.take_length] at hall
    | followers x =>
      refine hin.followers h (fun i => ?_) fun i hnone => ?_
      · have hall := hbefore cs.length i
        rwa [List.take_length] at hall
      · have hview := view_eq_of_outstanding h hsame hnone
        rwa [List.foldl_append] at hview

/-- From empty layers, agents that have performed the same stores see the same map: what the stores
leave of the base. -/
theorem view_of_performed {s : Overlay (Option ι) K V} (hempty : ∀ a k, s.layer a k = none)
    {cs : List (Cycle ι K V)} (hdone : ∀ i, performed cs (some i) = performed cs none)
    (a : Option ι) :
    (cs.foldl Overlay.cycle s).view a = (performed cs none).foldl Store.run s.base := by
  have hstart : s.view a = s.base := by
    funext l
    rw [view, hempty]
    rfl
  rw [view_cycles, hstart]
  cases a with
  | none => rfl
  | some i => rw [hdone]

omit [DecidableEq K] in
/-- After a sweep some layer does not hold a key. -/
theorem exists_layer_sweep_eq_none (s : Overlay (Option ι) K V) (k : K) :
    ∃ a, s.sweep.layer a k = none := by
  by_cases hall : s.Covered k
  · exact ⟨none, if_pos ⟨hall, rfl⟩⟩
  · obtain ⟨a, ha⟩ := not_forall.mp hall
    exact ⟨a, (layer_sweep_of_not_covered hall a).trans (not_not.mp ha)⟩

/-- When all agents have performed the same stores, whoever was ahead, and the followers stepped
last, the base is what the stores leave, and what is left in a layer agrees with it. -/
theorem settled {s : Overlay (Option ι) K V} (hempty : ∀ a k, s.layer a k = none)
    {cs : List (Cycle ι K V)} (hdone : ∀ i, performed cs (some i) = performed cs none)
    {x : ι → Option (Store K V)} (hlast : cs.getLast? = some (.followers x)) :
    let t := cs.foldl Overlay.cycle s
    t.base = (performed cs none).foldl Store.run s.base ∧
      ∀ a k v, t.layer a k = some v → v = t.base k := by
  intro t
  have hview := view_of_performed hempty hdone
  have hgap : ∀ k, ∃ a, t.layer a k = none := by
    obtain ⟨cs', rfl⟩ := List.getLast?_eq_some_iff.mp hlast
    intro k
    rw [show t = _ from List.foldl_append]
    exact exists_layer_sweep_eq_none _ k
  have hbase : t.base = (performed cs none).foldl Store.run s.base := by
    funext k
    obtain ⟨a, ha⟩ := hgap k
    rw [← hview a, view, ha]
    rfl
  refine ⟨hbase, fun a k v hv => ?_⟩
  rw [hbase, ← hview a, view, hv]
  rfl

/-- When the followers never run ahead and have all caught up, the leader's layer is empty, the base
is what the leader's stores leave, what is left in a follower's layer agrees with it, and nothing is
left of a key that no follower ever had to repeat twice. -/
theorem drained [Nonempty ι] {s : Overlay (Option ι) K V} (hempty : ∀ a k, s.layer a k = none)
    {cs : List (Cycle ι K V)} (h : Follows cs)
    (hdone : ∀ i, performed cs (some i) = performed cs none) :
    let t := cs.foldl Overlay.cycle s
    (∀ k, t.layer none k = none) ∧ t.base = (performed cs none).foldl Store.run s.base ∧
      (∀ i k v, t.layer (some i) k = some v → v = t.base k) ∧
      ∀ k, (∀ n i, outstanding (cs.take n) i k ≤ 1) → ∀ i, t.layer (some i) k = none := by
  intro t
  have hwaiting := waiting_cycles hempty h
  have hleader : ∀ k, t.layer none k = none := by
    intro k
    by_contra hheld
    obtain ⟨i, hi⟩ := hwaiting.repeated k hheld
    rw [outstanding_eq_zero (hdone i)] at hi
    omega
  have hview := view_of_performed hempty hdone
  have hbase : t.base = (performed cs none).foldl Store.run s.base := by
    funext k
    rw [← hview none, view, hleader]
    rfl
  refine ⟨hleader, hbase, fun i k v hv => ?_, fun k honce i => ?_⟩
  · rw [hbase, ← hview (some i), view, hv]
    rfl
  · by_contra hheld
    exact ((inStep_cycles hempty h honce).holds i hheld).1 (hleader k)

end Steps

end Overlay
