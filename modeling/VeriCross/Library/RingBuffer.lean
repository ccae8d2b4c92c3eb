import Mathlib.Data.Nat.Notation
import Mathlib.Logic.Function.Basic

/-!
# Ring buffers addressed by a counter

A buffer of `n` slots takes the items of a sequence. The slot of an item is the number of items
taken, modulo `n`, so the buffer needs no cursor of its own. Read from the slot after the last
one, it gives the last `n` items in order; read from the slot of the last item, it gives this item
first.
-/

namespace RingBuffer

variable {α β : Type*} (n : ℕ) (items : ℕ → α)

/-- The slots after a number of items were taken. -/
def after : ℕ → ℕ → Option α
  | 0 => fun _ => none
  | r + 1 => Function.update (after r) ((r + 1) % n) (some (items r))

/-- Read from the slot after the last item, the buffer gives the last `n` items, oldest first. -/
theorem after_next {n : ℕ} (r : ℕ) {i : ℕ} (hi : i < n) :
    after n items r ((r + 1 + i) % n) = if n ≤ r + i then some (items (r + i - n)) else none := by
  induction r generalizing i with
  | zero =>
    rw [after, if_neg (by omega)]
  | succ r ih =>
    rw [after, Function.update_apply]
    by_cases hlast : i + 1 = n
    · have hslot : (r + 1 + 1 + i) % n = (r + 1) % n := by
        rw [show r + 1 + 1 + i = r + 1 + n by omega, Nat.add_mod_right]
      rw [if_pos hslot, if_pos (by omega), show r + 1 + i - n = r by omega]
    · have hslot : (r + 1 + 1 + i) % n ≠ (r + 1) % n := by
        intro h
        have hmod := Nat.sub_mod_eq_zero_of_mod_eq h
        rw [show r + 1 + 1 + i - (r + 1) = i + 1 by omega, Nat.mod_eq_of_lt (by omega)] at hmod
        omega
      rw [if_neg hslot, show r + 1 + 1 + i = r + 1 + (i + 1) by omega, ih (by omega),
        show r + (i + 1) = r + 1 + i by omega]

/-- Read from the slot of the last item, the buffer gives this item first. -/
theorem after_last {n : ℕ} (r : ℕ) {i : ℕ} (hi : i < n) :
    after n items r ((r + i) % n) =
      if i = 0 then if r = 0 then none else some (items (r - 1))
      else if n < r + i then some (items (r + i - 1 - n)) else none := by
  by_cases hzero : i = 0
  · subst hzero
    rw [if_pos rfl]
    cases r with
    | zero => rw [after, if_pos rfl]
    | succ r => rw [after, Nat.add_zero, Function.update_self, if_neg (Nat.succ_ne_zero r)]; rfl
  · have hi' : i - 1 < n := by omega
    have hnext := after_next items r hi'
    rw [show r + 1 + (i - 1) = r + i by omega, show r + (i - 1) = r + i - 1 by omega] at hnext
    rw [hnext, if_neg hzero]
    simp only [show n ≤ r + i - 1 ↔ n < r + i by omega]

/-- Both ways to read the buffer give the same exactly when nothing was taken, or when the last
`n` items exist and are all the same. -/
theorem after_last_eq_next_iff {n : ℕ} (hn : 0 < n) (r : ℕ) :
    (∀ i < n, after n items r ((r + i) % n) = after n items r ((r + 1 + i) % n)) ↔
      r = 0 ∨ (n ≤ r ∧ ∀ i < n, items (r - n + i) = items (r - 1)) := by
  constructor
  · intro h
    rcases Nat.eq_zero_or_pos r with hr | hr
    · exact .inl hr
    right
    have hfirst := h 0 hn
    rw [after_last items r hn, after_next items r hn, if_pos rfl, if_neg (by omega)] at hfirst
    have hfull : n ≤ r := by
      by_contra hshort
      rw [if_neg (by omega)] at hfirst
      cases hfirst
    rw [if_pos (by omega)] at hfirst
    refine ⟨hfull, fun i hi => ?_⟩
    -- each item equals the one before it, up to the first of the last items
    induction i with
    | zero => exact (Option.some.inj hfirst).symm
    | succ i ih =>
      have hnext := h (i + 1) hi
      rw [after_last items r hi, after_next items r hi, if_neg (by omega), if_pos (by omega),
        if_pos (by omega), show r + (i + 1) - 1 - n = r - n + i by omega,
        show r + (i + 1) - n = r - n + (i + 1) by omega] at hnext
      exact (Option.some.inj hnext).symm.trans (ih (by omega))
  · rintro h i hi
    rw [after_last items r hi, after_next items r hi]
    rcases h with rfl | ⟨hfull, hsame⟩
    · have hlast : ¬n < 0 + i := by omega
      have hnext : ¬n ≤ 0 + i := by omega
      rw [if_neg hlast, if_neg hnext, if_pos rfl, ite_self]
    · have hitem : items (r + i - n) = items (r - 1) := by
        rw [show r + i - n = r - n + i by omega, hsame i hi]
      rw [if_pos (show n ≤ r + i by omega), hitem]
      by_cases hzero : i = 0
      · rw [if_pos hzero, if_neg (by omega)]
      · rw [if_neg hzero, if_pos (by omega), show r + i - 1 - n = r - n + (i - 1) by omega,
          hsame (i - 1) (by omega)]

end RingBuffer
