import Mathlib.Data.Nat.Notation
import Mathlib.Logic.Function.Iterate

/-!
# While loops on an explicit state

A loop is a guard and a total body. The states at the loop head after a given number of
completed iterations form a relation with its own induction: an indexed invariant rule for one
loop, and a simulation rule relating two loops iteration by iteration.
-/

/-- A `while` loop: the guard is tested before each execution of the body. -/
structure WhileLoop (σ : Type*) where
  guard : σ → Bool
  body : σ → σ

namespace WhileLoop

variable {σ τ : Type*}

/-- `L.Reaches s k t`: started in `s`, the loop completes `k` iterations and is then at its head
in state `t`. -/
inductive Reaches (L : WhileLoop σ) (s : σ) : ℕ → σ → Prop
  | start : L.Reaches s 0 s
  | next {k : ℕ} {t : σ} : L.Reaches s k t → L.guard t = true → L.Reaches s (k + 1) (L.body t)

/-- The loop started in `s` exits in state `t`. -/
def Returns (L : WhileLoop σ) (s t : σ) : Prop := ∃ k, L.Reaches s k t ∧ L.guard t = false

/-- Run the loop for at most `fuel` iterations; `none` when it has not exited by then. -/
def run (L : WhileLoop σ) : ℕ → σ → Option σ
  | 0, s => if L.guard s then none else some s
  | fuel + 1, s => if L.guard s then L.run fuel (L.body s) else some s

/-- An invariant indexed by the number of completed iterations. -/
theorem Reaches.invariant {L : WhileLoop σ} {I : ℕ → σ → Prop} {s t : σ} {k : ℕ}
    (h : L.Reaches s k t) (hstart : I 0 s)
    (hstep : ∀ k t, L.Reaches s k t → L.guard t = true → I k t → I (k + 1) (L.body t)) : I k t := by
  induction h with
  | start => exact hstart
  | next h hguard ih => exact hstep _ _ h hguard ih

/-- The head after one more iteration, from the head before it. -/
theorem reaches_succ_iff {L : WhileLoop σ} {s t : σ} {k : ℕ} :
    L.Reaches s (k + 1) t ↔ ∃ u, L.Reaches s k u ∧ L.guard u = true ∧ t = L.body u := by
  constructor
  · rintro (_ | ⟨h, hguard⟩)
    exact ⟨_, h, hguard, rfl⟩
  · rintro ⟨u, h, hguard, rfl⟩
    exact h.next hguard

/-- The number of iterations determines the head. -/
theorem Reaches.unique {L : WhileLoop σ} {s t t' : σ} {k : ℕ} (h : L.Reaches s k t)
    (h' : L.Reaches s k t') : t = t' := by
  induction k generalizing t t' with
  | zero =>
    cases h
    cases h'
    rfl
  | succ k ih =>
    obtain ⟨u, hu, -, rfl⟩ := reaches_succ_iff.mp h
    obtain ⟨u', hu', -, rfl⟩ := reaches_succ_iff.mp h'
    rw [ih hu hu']

/-- The head is the body iterated on the start. -/
theorem Reaches.eq_iterate {L : WhileLoop σ} {s t : σ} {k : ℕ} (h : L.Reaches s k t) :
    t = L.body^[k] s := by
  induction h with
  | start => rfl
  | next h hguard ih => rw [Function.iterate_succ_apply', ih]

/-- A loop that has exited has been at no head with more iterations completed. -/
theorem Reaches.le_of_exit {L : WhileLoop σ} {s t u : σ} {k j : ℕ} (h : L.Reaches s k t)
    (hexit : L.guard t = false) (hu : L.Reaches s j u) : j ≤ k := by
  induction hu with
  | start => exact Nat.zero_le k
  | next hu hguard ih =>
    refine Nat.lt_of_le_of_ne ih ?_
    rintro rfl
    rw [← h.unique hu, hexit] at hguard
    cases hguard

/-- A loop that only goes on while fewer iterations than a bound are completed exits. -/
theorem exits_of_bound {L : WhileLoop σ} {s : σ} {n : ℕ}
    (hbound : ∀ k t, L.Reaches s k t → L.guard t = true → k < n) :
    ∃ k t, k ≤ n ∧ L.Reaches s k t ∧ L.guard t = false := by
  have hall : ∀ j, (∃ k t, k ≤ j ∧ L.Reaches s k t ∧ L.guard t = false) ∨
      ∃ t, L.Reaches s j t := by
    intro j
    induction j with
    | zero => exact .inr ⟨s, .start⟩
    | succ j ih =>
      rcases ih with ⟨k, t, hk, hexit⟩ | ⟨t, hreach⟩
      · exact .inl ⟨k, t, Nat.le_succ_of_le hk, hexit⟩
      · cases hguard : L.guard t with
        | true => exact .inr ⟨L.body t, hreach.next hguard⟩
        | false => exact .inl ⟨j, t, Nat.le_succ j, hreach, hguard⟩
  rcases hall n with hexit | ⟨t, hreach⟩
  · exact hexit
  · cases hguard : L.guard t with
    | true => exact absurd (hbound n t hreach hguard) (Nat.lt_irrefl n)
    | false => exact ⟨n, t, Nat.le_refl n, hreach, hguard⟩

/-- A loop exits in at most one state. -/
theorem Returns.unique {L : WhileLoop σ} {s t t' : σ} (h : L.Returns s t) (h' : L.Returns s t') :
    t = t' := by
  obtain ⟨k, hreach, hexit⟩ := h
  obtain ⟨k', hreach', hexit'⟩ := h'
  have hk : k = k' :=
    Nat.le_antisymm (hreach'.le_of_exit hexit' hreach) (hreach.le_of_exit hexit hreach')
  subst hk
  exact hreach.unique hreach'

/-- Two loops whose bodies preserve a relation, as long as the first goes on and a property of its
history holds, stay related after every iteration. -/
theorem Reaches.simulation {L : WhileLoop σ} {M : WhileLoop τ} {P : σ → Prop} {R : σ → τ → Prop}
    {s t : σ} {s' : τ} {k : ℕ} (h : L.Reaches s k t) (hP : P t) (hback : ∀ u, P (L.body u) → P u)
    (hstart : R s s')
    (hstep : ∀ u u', L.guard u = true → P (L.body u) → R u u' →
      M.guard u' = true ∧ R (L.body u) (M.body u')) :
    ∃ t', M.Reaches s' k t' ∧ R t t' := by
  induction h with
  | start => exact ⟨s', .start, hstart⟩
  | next h hguard ih =>
    obtain ⟨u', hreach, hrel⟩ := ih (hback _ hP)
    obtain ⟨hguard', hrel'⟩ := hstep _ u' hguard hP hrel
    exact ⟨M.body u', hreach.next hguard', hrel'⟩

/-- Runs in a row. -/
theorem Reaches.append {L : WhileLoop σ} {s t u : σ} {j k : ℕ} (h : L.Reaches s j t)
    (h' : L.Reaches t k u) : L.Reaches s (j + k) u := by
  induction h' with
  | start => exact h
  | next _ hguard ih => exact ih.next hguard

/-- A loop stays related to another one that takes some iterations for each of its own, as long as
its heads are covered and a property of its history holds. -/
theorem Reaches.stuttering {L : WhileLoop σ} {M : WhileLoop τ} {P C : σ → Prop} {R : σ → τ → Prop}
    {s t : σ} {s' : τ} {k : ℕ} (h : L.Reaches s k t) (hP : P t) (hback : ∀ u, P (L.body u) → P u)
    (hcovered : ∀ m u, m < k → L.Reaches s m u → C u) (hstart : R s s')
    (hstep : ∀ u u', L.guard u = true → P (L.body u) → C u → R u u' →
      ∃ j t', M.Reaches u' j t' ∧ R (L.body u) t') :
    ∃ j t', M.Reaches s' j t' ∧ R t t' := by
  induction h with
  | start => exact ⟨0, s', .start, hstart⟩
  | next h hguard ih =>
    obtain ⟨j, u', hreach, hrel⟩ := ih (hback _ hP) fun m u hm => hcovered m u (by omega)
    obtain ⟨i, t', hmore, hrel'⟩ := hstep _ u' hguard hP (hcovered _ _ (by omega) h) hrel
    exact ⟨j + i, t', hreach.append hmore, hrel'⟩

/-- Iterations done first come before the rest. -/
theorem Reaches.head {L : WhileLoop σ} {s t : σ} {k : ℕ} (hguard : L.guard s = true)
    (h : L.Reaches (L.body s) k t) : L.Reaches s (k + 1) t := by
  induction h with
  | start => exact Reaches.start.next hguard
  | next _ hg ih => exact ih.next hg

/-- The executable loop computes the relation. -/
theorem returns_of_run {L : WhileLoop σ} {fuel : ℕ} {s t : σ} (h : L.run fuel s = some t) :
    L.Returns s t := by
  induction fuel generalizing s with
  | zero =>
    cases hg : L.guard s with
    | true => simp [run, hg] at h
    | false =>
      simp only [run, hg, Bool.false_eq_true, if_false, Option.some.injEq] at h
      exact ⟨0, h ▸ .start, h ▸ hg⟩
  | succ fuel ih =>
    cases hg : L.guard s with
    | true =>
      simp only [run, hg, if_true] at h
      obtain ⟨k, hreach, hexit⟩ := ih h
      exact ⟨k + 1, hreach.head hg, hexit⟩
    | false =>
      simp only [run, hg, Bool.false_eq_true, if_false, Option.some.injEq] at h
      exact ⟨0, h ▸ .start, h ▸ hg⟩

/-- The first iteration of a run. -/
theorem Reaches.tail {L : WhileLoop σ} {s t : σ} {k : ℕ} (h : L.Reaches s (k + 1) t) :
    L.guard s = true ∧ L.Reaches (L.body s) k t := by
  induction k generalizing t with
  | zero =>
    obtain ⟨u, hu, hguard, rfl⟩ := reaches_succ_iff.mp h
    cases hu
    exact ⟨hguard, .start⟩
  | succ k ih =>
    obtain ⟨u, hu, hguard, rfl⟩ := reaches_succ_iff.mp h
    obtain ⟨hfirst, hrest⟩ := ih hu
    exact ⟨hfirst, hrest.next hguard⟩

/-- The executable loop finds the exit when it is given enough iterations. -/
theorem run_of_reaches {L : WhileLoop σ} {s t : σ} {k fuel : ℕ} (h : L.Reaches s k t)
    (hexit : L.guard t = false) (hfuel : k ≤ fuel) : L.run fuel s = some t := by
  induction fuel generalizing s k with
  | zero =>
    obtain rfl : k = 0 := Nat.le_zero.mp hfuel
    cases h
    rw [run, hexit]
    rfl
  | succ fuel ih =>
    cases k with
    | zero =>
      cases h
      rw [run, hexit]
      rfl
    | succ k =>
      obtain ⟨hguard, hrest⟩ := h.tail
      rw [run, hguard]
      exact ih hrest (Nat.le_of_succ_le_succ hfuel)

/-- The executable loop finds an exit exactly when the loop does not go on forever. -/
theorem exists_run_iff {L : WhileLoop σ} {s : σ} :
    (∃ fuel t, L.run fuel s = some t) ↔ ¬∀ k, ∃ t, L.Reaches s k t ∧ L.guard t = true := by
  constructor
  · rintro ⟨fuel, t, hrun⟩ hforever
    obtain ⟨k, hreach, hexit⟩ := returns_of_run hrun
    obtain ⟨t', hreach', hguard⟩ := hforever k
    rw [hreach'.unique hreach, hexit] at hguard
    cases hguard
  · intro hends
    by_contra hnone
    refine hends fun k => ?_
    -- the induction is on the iterations: none of their heads is the exit
    induction k with
    | zero =>
      refine ⟨s, .start, ?_⟩
      by_contra hexit
      exact hnone ⟨0, s, run_of_reaches .start (Bool.not_eq_true _ ▸ hexit) (Nat.le_refl 0)⟩
    | succ k ih =>
      obtain ⟨t, hreach, hguard⟩ := ih
      refine ⟨L.body t, hreach.next hguard, ?_⟩
      by_contra hexit
      exact hnone ⟨k + 1, L.body t, run_of_reaches (hreach.next hguard)
        (Bool.not_eq_true _ ▸ hexit) (Nat.le_refl _)⟩

end WhileLoop
