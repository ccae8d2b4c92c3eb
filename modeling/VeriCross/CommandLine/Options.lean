import VeriCross.CommandLine.ScaledNumber
import VeriCross.Sim.Termination

/-!
# The options and the run

The loop over the options keeps the arguments valid, and its limit on the instructions is the number
in the last option that sets one. With counts in range, a concurrent run therefore ends within the
number written on the command line.
-/

namespace VeriCross

/-! One option. -/

/-- What the loop relies on: no core model or a known one, and no negative mismatch count. -/
structure Args.Valid (args : Args) : Prop where
  core : args.coreType = "" ∨ args.coreType ∈ knownCores
  mismatch : 0 ≤ args.mismatchInsts.toInt

/-- What the arguments are before the options is valid. -/
theorem Args.default_valid : Args.default.Valid := ⟨.inl rfl, by decide⟩

/-- What an iteration that does not return leaves: it prints nothing, keeps the arguments valid and
changes the limit only to an accepted count. -/
structure Continues (s : ArgState) (o : GetoptResult) (s' : ArgState) : Prop where
  out : s'.out = s.out
  err : s'.err = s.err
  valid : s.args.Valid → s'.args.Valid
  limit : o.c = 'i' →
    parseScaledNumber o.optarg.toList s.args.maxInsts = some (true, s'.args.maxInsts)
  keeps : o.c ≠ 'i' → s'.args.maxInsts = s.args.maxInsts

/-- An option other than the count sets arguments, but not the limit. -/
theorem Continues.of_setArgs {s : ArgState} {o : GetoptResult} {c : Char} {args : Args}
    (hc : o.c = c) (hne : c ≠ 'i') (hvalid : s.args.Valid → args.Valid)
    (hlimit : args.maxInsts = s.args.maxInsts) : Continues s o (s.setArgs args) where
  out := rfl
  err := rfl
  valid := hvalid
  limit := fun hi => absurd (hc.symm.trans hi) hne
  keeps := fun _ => hlimit

/-- An iteration that goes on with the next option. -/
theorem checkOption_continues {s s' : ArgState} {o : GetoptResult}
    (h : checkOption s o = some (s', none)) : Continues s o s' := by
  unfold checkOption at h
  split at h
  · next hc =>
    split at h
    · cases h
      exact .of_setArgs hc (by decide) (fun hv => ⟨hv.core, hv.mismatch⟩) rfl
    · split at h
      · cases h
      · cases h
        exact .of_setArgs hc (by decide) id rfl
  · next hc =>
    by_cases hknown : o.optarg ∈ knownCores
    · rw [if_pos hknown] at h
      cases h
      exact .of_setArgs hc (by decide) (fun hv => ⟨.inr hknown, hv.mismatch⟩) rfl
    · rw [if_neg hknown] at h
      cases h
  · next hc =>
    cases h
    exact .of_setArgs hc (by decide) (fun hv => ⟨hv.core, hv.mismatch⟩) rfl
  · next hc =>
    cases h
    exact .of_setArgs hc (by decide) (fun hv => ⟨hv.core, hv.mismatch⟩) rfl
  · next hc =>
    obtain ⟨⟨accepted, maxInsts⟩, hparse, heq⟩ := Option.map_eq_some_iff.mp h
    cases accepted with
    | false => cases heq
    | true =>
      cases heq
      exact ⟨rfl, rfl, fun hv => ⟨hv.core, hv.mismatch⟩, fun _ => hparse, fun hi => absurd hc hi⟩
  · next hc =>
    by_cases hsmall : (atoi o.optarg.toList).slt 1 = true
    · have hfail := h.symm.trans (if_pos hsmall)
      cases hfail
    · have hgoes := h.symm.trans (if_neg hsmall)
      cases hgoes
      have hone : (1 : Word).toInt ≤ (atoi o.optarg.toList).toInt :=
        not_lt.mp (mt BitVec.slt_iff_toInt_lt.mpr hsmall)
      exact .of_setArgs hc (by decide) (fun hv => ⟨hv.core, le_trans (by decide) hone⟩) rfl
  · cases h
  · cases h

/-- A refused argument is named, and a refused count leaves the limit as it was. -/
theorem checkOption_refuses {s s' : ArgState} {o : GetoptResult}
    (h : checkOption s o = some (s', some .failed)) (hc : o.c = 'c' ∨ o.c = 'i' ∨ o.c = 'm') :
    (∃ what, s'.err = s.err ++ ["!! " ++ what ++ ": " ++ o.optarg]) ∧
      s'.args.maxInsts = s.args.maxInsts := by
  unfold checkOption at h
  rcases hc with hc | hc | hc
  · rw [hc] at h
    by_cases hknown : o.optarg ∈ knownCores
    · have hgoes := h.symm.trans (if_pos hknown)
      cases hgoes
    · have hfail := h.symm.trans (if_neg hknown)
      cases hfail
      exact ⟨⟨"Unknown core model", rfl⟩, rfl⟩
  · rw [hc] at h
    obtain ⟨⟨accepted, maxInsts⟩, hparse, heq⟩ := Option.map_eq_some_iff.mp h
    cases accepted with
    | true => cases heq
    | false =>
      cases heq
      exact ⟨⟨"Invalid instruction count", rfl⟩, parseScaledNumber_rejected hparse⟩
  · rw [hc] at h
    by_cases hsmall : (atoi o.optarg.toList).slt 1 = true
    · have hfail := h.symm.trans (if_pos hsmall)
      cases hfail
      exact ⟨⟨"Invalid mismatch count", rfl⟩, rfl⟩
    · have hgoes := h.symm.trans (if_neg hsmall)
      cases hgoes

/-! The loop over the options. -/

/-- The last option that sets the limit. -/
def lastCount (options : List GetoptResult) : Option GetoptResult :=
  (options.filter fun o => o.c = 'i').getLast?

/-- The last count is that of the rest if there is one. -/
theorem lastCount_cons (o : GetoptResult) (rest : List GetoptResult) :
    lastCount (o :: rest) =
      if o.c = 'i' then some ((lastCount rest).getD o) else lastCount rest := by
  by_cases hc : o.c = 'i' <;> simp [lastCount, hc, List.getLast?_cons]

/-- What the loop leaves when it comes to its end. -/
structure Finishes (s : ArgState) (options : List GetoptResult) (s' : ArgState) : Prop where
  out : s'.out = s.out
  err : s'.err = s.err
  valid : s.args.Valid → s'.args.Valid
  limit : ∀ o, lastCount options = some o → ∃ before,
    parseScaledNumber o.optarg.toList before = some (true, s'.args.maxInsts)
  keeps : lastCount options = none → s'.args.maxInsts = s.args.maxInsts

/-- An iteration before the rest of the loop. -/
theorem Continues.finishes {s t s' : ArgState} {o : GetoptResult} {rest : List GetoptResult}
    (h : Continues s o t) (hrest : Finishes t rest s') : Finishes s (o :: rest) s' where
  out := hrest.out.trans h.out
  err := hrest.err.trans h.err
  valid := fun hv => hrest.valid (h.valid hv)
  limit := by
    intro last hlast
    rw [lastCount_cons] at hlast
    by_cases hc : o.c = 'i'
    · rw [if_pos hc] at hlast
      cases hafter : lastCount rest with
      | none =>
        rw [hafter] at hlast
        cases hlast
        rw [hrest.keeps hafter]
        exact ⟨_, h.limit hc⟩
      | some o' =>
        rw [hafter] at hlast
        cases hlast
        exact hrest.limit o' hafter
    · rw [if_neg hc] at hlast
      exact hrest.limit last hlast
  keeps := by
    intro hlast
    rw [lastCount_cons] at hlast
    by_cases hc : o.c = 'i'
    · rw [if_pos hc] at hlast
      cases hlast
    · rw [if_neg hc] at hlast
      exact (hrest.keeps hlast).trans (h.keeps hc)

/-- The loop over the options, when it comes to its end. -/
theorem checkOptions_finishes {s s' : ArgState} {options : List GetoptResult}
    (h : checkOptions s options = some (s', none)) : Finishes s options s' := by
  induction options generalizing s with
  | nil =>
    cases h
    refine ⟨rfl, rfl, id, fun o hlast => ?_, fun _ => rfl⟩
    cases hlast
  | cons o rest ih =>
    rw [checkOptions] at h
    split at h
    · next t hstep => exact (checkOption_continues hstep).finishes (ih h)
    · next hdone => exact absurd h (hdone s')

/-- No option makes `checkarg` succeed before the end. -/
theorem checkOption_ne_success (s s' : ArgState) (o : GetoptResult) :
    checkOption s o ≠ some (s', some .success) := by
  intro h
  unfold checkOption at h
  split at h
  · split at h
    · cases h
    · split at h <;> cases h
  · dsimp only at h
    split at h <;> cases h
  · cases h
  · cases h
  · obtain ⟨⟨accepted, maxInsts⟩, -, heq⟩ := Option.map_eq_some_iff.mp h
    cases accepted <;> cases heq
  · dsimp only at h
    split at h <;> cases h
  · cases h
  · cases h

/-- No option ends the check with success. -/
theorem checkOptions_ne_success (s s' : ArgState) (options : List GetoptResult) :
    checkOptions s options ≠ some (s', some .success) := by
  induction options generalizing s with
  | nil =>
    intro h
    cases h
  | cons o rest ih =>
    intro h
    rw [checkOptions] at h
    split at h
    · exact ih _ h
    · exact checkOption_ne_success s s' o h

/-- `checkarg` succeeds with valid arguments, a core model if it needs one, and nothing printed. -/
theorem checkarg_success {options : List GetoptResult} {operands : List String} {s : ArgState}
    (h : checkarg options operands = some (s, .success)) :
    s.args.Valid ∧ (s.args.procOnly = true → s.args.coreType ∈ knownCores) ∧ s.out = [] ∧
      s.err = [] ∧ operands.length = 3 ∧
      (∀ o, lastCount options = some o → ∃ before,
        parseScaledNumber o.optarg.toList before = some (true, s.args.maxInsts)) ∧
      (lastCount options = none → s.args.maxInsts = 10000000) := by
  rw [checkarg] at h
  split at h
  · cases h
  · next t result hloop =>
    cases h
    exact absurd hloop (checkOptions_ne_success _ _ _)
  · next t hloop =>
    have hfinishes := checkOptions_finishes hloop
    split at h
    · next baseDir binary stack =>
      split at h
      · cases h
      · next hcore =>
        cases h
        have hvalid := hfinishes.valid Args.default_valid
        refine ⟨⟨hvalid.core, hvalid.mismatch⟩, fun hproc => ?_, hfinishes.out, hfinishes.err, rfl,
          hfinishes.limit, hfinishes.keeps⟩
        exact hvalid.core.resolve_left fun hempty => hcore ⟨hproc, hempty⟩
    · cases h

/-! The limit of a run. -/

/-- Where no count exceeds the range, the limit that `main` gives to the main loops is the number
that the last count writes, or the default without one. -/
theorem checkarg_limit {options : List GetoptResult} {operands : List String} {s : ArgState}
    (h : checkarg options operands = some (s, .success))
    (hfits : ∀ o ∈ options, o.c = 'i' → ∀ value, Writes o.optarg.toList value → value ≤ llongMax) :
    (∀ o, lastCount options = some o → Writes o.optarg.toList s.args.simArgs.maxInsts.toNat) ∧
      (lastCount options = none → s.args.simArgs.maxInsts = 10000000) := by
  obtain ⟨-, -, -, -, -, hlimit, hdefault⟩ := checkarg_success h
  refine ⟨fun o hlast => ?_, hdefault⟩
  obtain ⟨before, hparse⟩ := hlimit o hlast
  obtain ⟨hmem, hc⟩ := List.mem_filter.mp (List.mem_of_getLast? hlast)
  exact (writes_of_accepted (hfits o hmem (of_decide_eq_true hc)) hparse).1

/-- A concurrent run ends within the number of iterations that is written on the command line. -/
theorem concurrent_within_count {β : Type} {options : List GetoptResult} {operands : List String}
    {s : ArgState} (h : checkarg options operands = some (s, .success))
    (hfits : ∀ o ∈ options, o.c = 'i' → ∀ value, Writes o.optarg.toList value → value ≤ llongMax)
    {o : GetoptResult} (hlast : lastCount options = some o) (host : Host) (V : CoreMethods β)
    (instif : CoreInstructionIF) (memif : CoreMemoryIF) (rep : Core β)
    (ifPrim ifRep : CoreMemoryIF) (sections : List Section) (brkAddr : Word) :
    let L := concurrentLoop s.args.simArgs host V
    let start := concurrentStart V
      (boot instif memif (fun _ => rep) ifPrim (fun _ => ifRep) sections brkAddr)
    ∃ count : ℕ, Writes o.optarg.toList count ∧
      ∃ k t, k ≤ max 1 count ∧ L.Reaches start k t ∧ L.guard t = false := by
  intro L start
  obtain ⟨hwrites, -⟩ := checkarg_limit h hfits
  exact ⟨_, hwrites o hlast, WhileLoop.exits_of_bound fun k t => lt_limit_of_guard rfl rfl⟩

end VeriCross
