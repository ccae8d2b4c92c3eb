import VeriCross.Library.WhileLoop

/-!
# Labelled runs

The finite runs of a labelled step relation, with their labels in order. A loop each of whose
iterations makes one step has a run.
-/

/-- `LabelledRun step s ls t`: steps with the labels `ls` lead from `s` to `t`. -/
inductive LabelledRun {σ ℓ : Type*} (step : σ → ℓ → σ → Prop) (s : σ) : List ℓ → σ → Prop
  | start : LabelledRun step s [] s
  | next {ls : List ℓ} {t u : σ} {l : ℓ} :
    LabelledRun step s ls t → step t l u → LabelledRun step s (ls ++ [l]) u

/-- A loop whose iterations make one step each, as long as its heads are covered and a property of
its history holds, has a run with as many labels as iterations. -/
theorem WhileLoop.Reaches.labelledRun {σ τ ℓ : Type*} {L : WhileLoop τ}
    {step : σ → ℓ → σ → Prop} {P C : τ → Prop} {R : τ → σ → Prop} {s t : τ} {a : σ} {k : ℕ}
    (h : L.Reaches s k t) (hP : P t) (hback : ∀ u, P (L.body u) → P u)
    (hcovered : ∀ m u, m < k → L.Reaches s m u → C u) (hstart : R s a)
    (hstep : ∀ u b, L.guard u = true → P (L.body u) → C u → R u b →
      ∃ l c, step b l c ∧ R (L.body u) c) :
    ∃ ls b, ls.length = k ∧ LabelledRun step a ls b ∧ R t b := by
  induction h with
  | start => exact ⟨[], a, rfl, .start, hstart⟩
  | next h hguard ih =>
    obtain ⟨ls, b, hlength, hrun, hrel⟩ := ih (hback _ hP) fun m u hm => hcovered m u (by omega)
    obtain ⟨l, c, hnext, hrel'⟩ := hstep _ b hguard hP (hcovered _ _ (by omega) h) hrel
    exact ⟨ls ++ [l], c, by rw [List.length_append, hlength]; rfl, hrun.next hnext, hrel'⟩
