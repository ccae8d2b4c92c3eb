import Mathlib.Data.List.Basic

/-!
# Texts that end by themselves

A text is self-delimiting for what it shows when a reader, whatever follows, finds both what it
shows and where it ends. A sequence of such texts can be read without marks between them.
-/

namespace PrefixCode

variable {α γ δ : Type*}

/-- Equal texts with something behind them show the same and end at the same place. -/
def Delimits (P : α → Prop) (text : α → List γ) (shown : α → δ) : Prop :=
  ∀ x y, P x → P y → ∀ xs ys, text x ++ xs = text y ++ ys → shown x = shown y ∧ xs = ys

/-- A sequence of self-delimiting texts shows what its members show. -/
theorem Delimits.flatMap {P : α → Prop} {text : α → List γ} {shown : α → δ}
    (h : Delimits P text shown) (hne : ∀ x, P x → text x ≠ []) {l l' : List α}
    (hl : ∀ x ∈ l, P x) (hl' : ∀ x ∈ l', P x) (heq : l.flatMap text = l'.flatMap text) :
    l.map shown = l'.map shown := by
  -- the induction is on the first sequence; the first text of both is read at once
  induction l generalizing l' with
  | nil =>
    cases l' with
    | nil => rfl
    | cons y ys =>
      rw [List.flatMap_nil, List.flatMap_cons, eq_comm, List.append_eq_nil_iff] at heq
      exact absurd heq.1 (hne y (hl' y List.mem_cons_self))
  | cons x xs ih =>
    cases l' with
    | nil =>
      rw [List.flatMap_nil, List.flatMap_cons, List.append_eq_nil_iff] at heq
      exact absurd heq.1 (hne x (hl x List.mem_cons_self))
    | cons y ys =>
      rw [List.flatMap_cons, List.flatMap_cons] at heq
      obtain ⟨hshown, hrest⟩ :=
        h x y (hl x List.mem_cons_self) (hl' y List.mem_cons_self) _ _ heq
      have htail := ih (fun z hz => hl z (List.mem_cons_of_mem _ hz))
        (fun z hz => hl' z (List.mem_cons_of_mem _ hz)) hrest
      rw [List.map_cons, List.map_cons, hshown, htail]

/-- A text ends at the first mark that does not occur in it. -/
theorem eq_of_append_cons {sep : γ} {xs ys as bs : List γ} (hx : sep ∉ xs) (hy : sep ∉ ys)
    (heq : xs ++ sep :: as = ys ++ sep :: bs) : xs = ys ∧ as = bs := by
  induction xs generalizing ys with
  | nil =>
    cases ys with
    | nil => exact ⟨rfl, (List.cons.inj heq).2⟩
    | cons y ys => exact absurd (List.cons.inj heq).1 fun h => hy (h ▸ List.mem_cons_self)
  | cons x xs ih =>
    cases ys with
    | nil => exact absurd (List.cons.inj heq).1.symm fun h => hx (h ▸ List.mem_cons_self)
    | cons y ys =>
      obtain ⟨rfl, hrest⟩ := List.cons.inj heq
      obtain ⟨rfl, htail⟩ := ih (fun h => hx (List.mem_cons_of_mem _ h))
        (fun h => hy (List.mem_cons_of_mem _ h)) hrest
      exact ⟨rfl, htail⟩

/-- Filling on the left with a character that does not occur can be undone. -/
theorem leftpad_inj {sep : γ} {width : ℕ} {xs ys : List γ} (hx : sep ∉ xs) (hy : sep ∉ ys)
    (heq : xs.leftpad width sep = ys.leftpad width sep) : xs = ys := by
  classical
  have hfilter : ∀ l : List γ, sep ∉ l → (l.leftpad width sep).filter (· ≠ sep) = l := by
    intro l hl
    rw [List.leftpad, List.filter_append, List.filter_replicate_of_neg (by simp),
      List.nil_append, List.filter_eq_self]
    intro c hc
    exact decide_eq_true fun h => hl (h ▸ hc)
  rw [← hfilter xs hx, heq, hfilter ys hy]

end PrefixCode
