import VeriCross.Sim.Single

/-!
# The trace of a core that is simulated alone

The single loop makes one cycle in an iteration, and a core of any class may take some cycles for an
instruction. Its trace is the list of the records that it shows when it retires instructions.
-/

namespace VeriCross

variable {α : Type} {args : SimArgs} {host : Host} {C : CoreClass α}

/-- The cycle of the next iteration. -/
def SingleState.cycle (t : SingleState α) (C : CoreClass α) : Cycle 0 α α :=
  t.machine.memDrive.primCycle C

variable (args host C)

/-- From its head in the first state, the loop goes on without an instruction to its head in the
second one, and the iteration after that retires an instruction with the record: a number of
iterations at most in all. -/
inductive RetiresWithin : ℕ → SingleState α → SingleState α → CoreInstructionIF → Prop
  | now {i : ℕ} {t : SingleState α} : t.machine.prim.halt = false → (t.cycle C).ok = true →
    (t.cycle C).machine.prim.instif.valid ≠ 0 →
    RetiresWithin (i + 1) t t (t.cycle C).machine.prim.instif
  | later {i : ℕ} {t u : SingleState α} {iif : CoreInstructionIF} : t.machine.prim.halt = false →
    (t.cycle C).ok = true → (t.cycle C).machine.prim.instif.valid = 0 →
    RetiresWithin i (singleBody args host C t) u iif → RetiresWithin (i + 1) t u iif

/-- The records that the loop shows in turn when it retires instructions, with a number of cycles at
most for each. -/
inductive Retires (i : ℕ) (start : SingleState α) : List CoreInstructionIF → SingleState α → Prop
  | nil : Retires i start [] start
  | snoc {trace : List CoreInstructionIF} {t u : SingleState α} {iif : CoreInstructionIF} :
    Retires i start trace t → RetiresWithin args host C i t u iif →
    Retires i start (trace ++ [iif]) (singleBody args host C u)

variable {args host C}

/-- The head before the instruction is reached. -/
theorem RetiresWithin.reaches {i : ℕ} {t u : SingleState α} {iif : CoreInstructionIF}
    (h : RetiresWithin args host C i t u iif) :
    u.machine.prim.halt = false ∧ ∃ j < i, (singleLoop args host C).Reaches t j u := by
  induction h with
  | now hgoing _ _ => exact ⟨hgoing, 0, Nat.succ_pos _, .start⟩
  | later hgoing _ _ _ ih =>
    obtain ⟨hu, j, hj, hreach⟩ := ih
    refine ⟨hu, j + 1, Nat.succ_lt_succ hj, .head ?_ hreach⟩
    change (!_) = true
    rw [hgoing]
    rfl

/-- A core that retires an instruction is not stopped. -/
theorem RetiresWithin.going {i : ℕ} {t u : SingleState α} {iif : CoreInstructionIF}
    (h : RetiresWithin args host C i t u iif) : t.machine.prim.halt = false := by
  cases h with
  | now hgoing _ _ => exact hgoing
  | later hgoing _ _ _ => exact hgoing

/-- What is retired next is determined. -/
theorem RetiresWithin.unique {i : ℕ} {t u u' : SingleState α} {iif iif' : CoreInstructionIF}
    (h : RetiresWithin args host C i t u iif) (h' : RetiresWithin args host C i t u' iif') :
    u = u' ∧ iif = iif' := by
  induction h with
  | now _ _ hvalid =>
    cases h' with
    | now => exact ⟨rfl, rfl⟩
    | later _ _ hidle => exact absurd hidle hvalid
  | later _ _ hidle _ ih =>
    cases h' with
    | now _ _ hvalid => exact absurd hidle hvalid
    | later _ _ _ h' => exact ih h'

/-- An instruction in one cycle. -/
theorem RetiresWithin.eq_of_one {t u : SingleState α} {iif : CoreInstructionIF}
    (h : RetiresWithin args host C 1 t u iif) : u = t := by
  cases h with
  | now => rfl
  | later _ _ _ hlate => cases hlate

/-- A trace of one more instruction. -/
theorem retires_snoc_iff {i : ℕ} {start t : SingleState α} {trace : List CoreInstructionIF}
    {iif : CoreInstructionIF} :
    Retires args host C i start (trace ++ [iif]) t ↔
      ∃ s u, Retires args host C i start trace s ∧ RetiresWithin args host C i s u iif ∧
        t = singleBody args host C u := by
  constructor
  · intro h
    generalize hall : trace ++ [iif] = all at h
    cases h with
    | nil => exact absurd hall (by simp)
    | snoc h hnext =>
      obtain ⟨rfl, hiif⟩ := List.append_inj' hall rfl
      cases hiif
      exact ⟨_, _, h, hnext, rfl⟩
  · rintro ⟨s, u, h, hnext, rfl⟩
    exact h.snoc hnext

/-- A trace determines the head after it. -/
theorem Retires.unique {i : ℕ} {start t t' : SingleState α} {trace : List CoreInstructionIF}
    (h : Retires args host C i start trace t) (h' : Retires args host C i start trace t') :
    t = t' := by
  induction trace using List.reverseRecOn generalizing t t' with
  | nil =>
    have hnil : ∀ {t}, Retires args host C i start [] t → t = start := by
      intro t h
      generalize hempty : [] = trace at h
      cases h with
      | nil => rfl
      | snoc => exact absurd hempty (by simp)
    rw [hnil h, hnil h']
  | append_singleton trace iif ih =>
    obtain ⟨s, u, hs, hu, rfl⟩ := retires_snoc_iff.mp h
    obtain ⟨s', u', hs', hu', rfl⟩ := retires_snoc_iff.mp h'
    obtain rfl := ih hs hs'
    rw [(hu.unique hu').1]

end VeriCross
