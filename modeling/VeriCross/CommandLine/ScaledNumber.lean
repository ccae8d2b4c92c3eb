import VeriCross.CommandLine.Model

/-!
# Scaled numbers

A count is a decimal numeral with a suffix that scales it. The parser accepts nothing else, and of
the counts in the range of a `long long` exactly those that are not negative, with their value.
Above the range it accepts a numeral without a suffix as the largest value, and is undefined with
one.
-/

namespace VeriCross

open Numerals

/-! Saturation, products and suffixes. -/

/-- What is in range is not changed. -/
theorem LongLong.saturate_of_mem {x : ℤ} (hlow : -2 ^ 63 ≤ x) (hhigh : x ≤ 2 ^ 63 - 1) :
    (saturate x).val = x := by
  rw [saturate, dif_neg (not_lt.mpr hlow), dif_neg (not_lt.mpr hhigh)]

/-- What is above the range becomes the largest value. -/
theorem LongLong.saturate_of_gt {x : ℤ} (h : 2 ^ 63 - 1 < x) :
    (saturate x).val = 2 ^ 63 - 1 := by
  rw [saturate, dif_neg (by omega), dif_pos h]

/-- Saturation keeps the sign. -/
theorem LongLong.saturate_neg_iff (x : ℤ) : (saturate x).val < 0 ↔ x < 0 := by
  rw [saturate]
  split
  · next hlow => exact iff_of_true (by decide) (hlow.trans (by decide))
  · split
    · next hhigh => exact iff_of_false (by decide) (by omega)
    · rfl

/-- A product that is in range. -/
theorem LongLong.mul?_eq_some_iff {a w : LongLong} {b : ℤ} :
    a.mul? b = some w ↔ w.val = a.val * b := by
  rw [mul?]
  split
  · rw [Option.some.injEq, eq_comm]
    exact LongLong.ext_iff
  · next h =>
    refine iff_of_false (Option.some_ne_none w).symm fun heq => h ?_
    rw [← heq]
    exact ⟨w.low, w.high⟩

/-- A product overflows when it is out of range. -/
theorem LongLong.mul?_eq_none_iff {a : LongLong} {b : ℤ} :
    a.mul? b = none ↔ ¬(-2 ^ 63 ≤ a.val * b ∧ a.val * b ≤ 2 ^ 63 - 1) := by
  rw [mul?]
  split
  · next h => exact iff_of_false (Option.some_ne_none _) (not_not.mpr h)
  · next h => exact iff_of_true rfl h

/-- A product by one does not overflow. -/
theorem LongLong.mul?_one (a : LongLong) : a.mul? 1 = some a :=
  mul?_eq_some_iff.mpr (mul_one _).symm

/-- The suffixes and what they multiply by. -/
def suffixes : List (List Char × ℤ) :=
  [([], 1), (['k'], 1000), (['K'], 1000), (['m'], 1000000), (['M'], 1000000),
    (['g'], 1000000000), (['G'], 1000000000)]

/-- A suffix multiplies by at least one. -/
theorem one_le_of_mem_suffixes {s : List Char × ℤ} (hs : s ∈ suffixes) : 1 ≤ s.2 := by
  revert s
  decide

/-- The empty suffix does not scale, and every other one does. -/
theorem scale_of_mem_suffixes {s : List Char × ℤ} (hs : s ∈ suffixes) :
    (s.1 = [] → s.2 = 1) ∧ (s.1 ≠ [] → 2 ≤ s.2) := by
  revert s
  decide

/-- No suffix begins with a digit. -/
theorem head_suffix {s : List Char × ℤ} (hs : s ∈ suffixes) (c : Char)
    (hc : s.1.head? = some c) : c.isDigit = false := by
  have hall : ∀ s ∈ suffixes, ∀ c ∈ s.1.head?, c.isDigit = false := by
    simp [suffixes]
  exact hall s hs c hc

/-- A suffix is stepped over and scales the value. The empty one is taken only at the end. -/
theorem scaleBySuffix_append (val : LongLong) {s : List Char × ℤ} (hs : s ∈ suffixes)
    {rest : List Char} (hrest : s.1 = [] → rest = []) :
    scaleBySuffix val (s.1 ++ rest) = (val.mul? s.2, rest) := by
  simp only [suffixes, List.mem_cons, List.not_mem_nil, or_false] at hs
  rcases hs with rfl | rfl | rfl | rfl | rfl | rfl | rfl
  · rw [hrest rfl, LongLong.mul?_one]
    rfl
  all_goals rfl

/-- What is stepped over is a suffix, and the value is scaled by it. -/
theorem exists_of_scaleBySuffix (val : LongLong) (endptr : List Char) :
    ∃ s ∈ suffixes, endptr = s.1 ++ (scaleBySuffix val endptr).2 ∧
      (scaleBySuffix val endptr).1 = val.mul? s.2 := by
  have hstep {c : Char} {scale : ℤ} (hs : ([c], scale) ∈ suffixes)
      (hhead : endptr.head? = some c) : ∃ s ∈ suffixes, endptr = s.1 ++ endptr.tail ∧
        val.mul? scale = val.mul? s.2 :=
    ⟨_, hs, (List.cons_head?_tail hhead).symm, rfl⟩
  unfold scaleBySuffix
  split_ifs with hk hm hg
  · rcases hk with hk | hk <;> exact hstep (by decide) hk
  · rcases hm with hm | hm <;> exact hstep (by decide) hm
  · rcases hg with hg | hg <;> exact hstep (by decide) hg
  · exact ⟨([], 1), by decide, rfl, val.mul?_one.symm⟩

/-! The library function. -/

/-- A numeral that is not followed by a digit is scanned. -/
theorem scan_isspace (x : Numeral isspace) {rest : List Char}
    (hrest : ∀ c, rest.head? = some c → c.isDigit = false) :
    scan isspace (x.text ++ rest) = some (x.value, rest) := by
  have hspace : ∀ c, isspace c = true → c.isDigit = false := by
    intro c hc
    simp only [isspace, List.mem_cons, List.not_mem_nil, or_false, decide_eq_true_eq] at hc
    rcases hc with rfl | rfl | rfl | rfl | rfl | rfl <;> rfl
  exact scan_append hspace (by decide) (by decide) x hrest

/-- `strtoll` on a numeral that is not followed by a digit. -/
theorem strtoll_append (x : Numeral isspace) {rest : List Char}
    (hrest : ∀ c, rest.head? = some c → c.isDigit = false) :
    strtoll (x.text ++ rest) = (LongLong.saturate x.value, rest) := by
  rw [strtoll, scan_isspace x hrest]

/-- `strtoll` finds no number, or moves the end pointer past a numeral and all its digits. -/
theorem strtoll_cases (str : List Char) :
    (strtoll str).2 = str ∨ ∃ (x : Numeral isspace) (rest : List Char), str = x.text ++ rest ∧
      ∀ c, rest.head? = some c → c.isDigit = false := by
  rw [strtoll]
  cases hscan : scan isspace str with
  | none => exact .inl rfl
  | some found =>
    obtain ⟨x, htext, -, hstops⟩ := exists_of_scan hscan
    exact .inr ⟨x, found.2, htext, hstops⟩

/-! The parser. -/

/-- On a numeral, a negative number is rejected. Otherwise the product is formed, and then what
follows the suffix is looked at. -/
theorem parseScaledNumber_append (x : Numeral isspace) {rest : List Char}
    (hrest : ∀ c, rest.head? = some c → c.isDigit = false) (result : Counter) :
    parseScaledNumber (x.text ++ rest) result =
      if x.value < 0 then some (false, result)
      else (scaleBySuffix (LongLong.saturate x.value) rest).1.map fun val : LongLong =>
        if (scaleBySuffix (LongLong.saturate x.value) rest).2 ≠ [] then (false, result)
        else (true, BitVec.ofInt 64 val.val) := by
  have hend : rest ≠ x.text ++ rest := by
    intro h
    exact x.text_ne_nil (List.append_left_eq_self.mp h.symm)
  have hneg : rest = x.text ++ rest ∨ (LongLong.saturate x.value).val < 0 ↔ x.value < 0 := by
    rw [or_iff_right hend, LongLong.saturate_neg_iff]
  rw [parseScaledNumber, strtoll_append x hrest]
  dsimp only
  exact if_congr hneg rfl rfl

/-- On a count and any rest, where the empty suffix stands only at the end. -/
theorem parseScaledNumber_of_suffix (x : Numeral isspace) {s : List Char × ℤ} (hs : s ∈ suffixes)
    {rest : List Char} (hrest : s.1 = [] → rest = []) (result : Counter) :
    parseScaledNumber (x.text ++ (s.1 ++ rest)) result =
      if x.value < 0 then some (false, result)
      else ((LongLong.saturate x.value).mul? s.2).map fun val : LongLong =>
        if rest ≠ [] then (false, result) else (true, BitVec.ofInt 64 val.val) := by
  have hstops : ∀ c, (s.1 ++ rest).head? = some c → c.isDigit = false := by
    intro c hc
    by_cases hempty : s.1 = []
    · rw [hempty, hrest hempty] at hc
      cases hc
    · rw [List.head?_append_of_ne_nil _ hempty] at hc
      exact head_suffix hs c hc
  rw [parseScaledNumber_append x hstops, scaleBySuffix_append _ hs hrest]

/-- On a count with nothing after it. -/
theorem parseScaledNumber_of_count (x : Numeral isspace) {s : List Char × ℤ} (hs : s ∈ suffixes)
    (result : Counter) : parseScaledNumber (x.text ++ s.1) result =
      if x.value < 0 then some (false, result)
      else ((LongLong.saturate x.value).mul? s.2).map fun val : LongLong =>
        (true, BitVec.ofInt 64 val.val) := by
  have hparse := parseScaledNumber_of_suffix x hs (fun _ => rfl) result
  rw [List.append_nil] at hparse
  exact hparse

/-- A string is rejected, or it begins with a count that is not negative. -/
theorem parseScaledNumber_cases (str : List Char) (result : Counter) :
    parseScaledNumber str result = some (false, result) ∨
      ∃ (x : Numeral isspace) (rest : List Char), ∃ s ∈ suffixes, str = x.text ++ (s.1 ++ rest) ∧
        0 ≤ x.value ∧ parseScaledNumber str result =
          ((LongLong.saturate x.value).mul? s.2).map fun val : LongLong =>
            if rest ≠ [] then (false, result) else (true, BitVec.ofInt 64 val.val) := by
  rcases strtoll_cases str with hend | ⟨x, rest, rfl, hrest⟩
  · refine .inl ?_
    rw [parseScaledNumber]
    exact if_pos (.inl hend)
  · have hparse := parseScaledNumber_append x hrest result
    by_cases hneg : x.value < 0
    · exact .inl (hparse.trans (if_pos hneg))
    · obtain ⟨s, hs, htext, hval⟩ := exists_of_scaleBySuffix (LongLong.saturate x.value) rest
      refine .inr ⟨x, _, s, hs, congrArg (x.text ++ ·) htext, not_lt.mp hneg, ?_⟩
      rw [hparse, if_neg hneg, hval]

/-- A rejected string leaves the result as it was. -/
theorem parseScaledNumber_rejected {str : List Char} {result result' : Counter}
    (h : parseScaledNumber str result = some (false, result')) : result' = result := by
  rcases parseScaledNumber_cases str result with hno | ⟨x, rest, s, -, -, -, hparse⟩
  · rw [hno] at h
    cases h
    rfl
  · rw [hparse] at h
    obtain ⟨val, -, heq⟩ := Option.map_eq_some_iff.mp h
    split at heq
    · exact (Prod.mk.inj heq).2.symm
    · cases heq

/-! Counts. -/

/-- The largest `long long`. -/
def llongMax : ℤ := 2 ^ 63 - 1

/-- The string is white space, a sign, a decimal numeral and a suffix, and the scaled number is the
given one. -/
def Writes (str : List Char) (value : ℤ) : Prop :=
  ∃ x : Numeral isspace, ∃ s ∈ suffixes, str = x.text ++ s.1 ∧ value = x.value * s.2

/-- A string writes at most one number. -/
theorem Writes.unique {str : List Char} {value value' : ℤ} (h : Writes str value)
    (h' : Writes str value') : value = value' := by
  have hscale : ∀ s ∈ suffixes, ∀ s' ∈ suffixes, s.1 = s'.1 → s.2 = s'.2 := by
    decide
  obtain ⟨x, s, hs, rfl, rfl⟩ := h
  obtain ⟨x', s', hs', htext, rfl⟩ := h'
  have hscan := scan_isspace x (head_suffix hs)
  rw [htext, scan_isspace x' (head_suffix hs')] at hscan
  obtain ⟨hvalue, hsuffix⟩ := Prod.mk.inj (Option.some.inj hscan)
  rw [hvalue, hscale s hs s' hs' hsuffix.symm]

/-- A product in range is that of the number that was written. -/
theorem mul?_saturate {x scale : ℤ} (hx : 0 ≤ x) (hscale : 1 ≤ scale)
    (hfits : x * scale ≤ llongMax) {val : LongLong}
    (h : (LongLong.saturate x).mul? scale = some val) : val.val = x * scale := by
  have hle : x ≤ x * scale := le_mul_of_one_le_right hx hscale
  rw [llongMax] at hfits
  rw [LongLong.mul?_eq_some_iff.mp h, LongLong.saturate_of_mem (by omega) (by omega)]

/-- Only a number that is not negative exceeds the range by its scale. -/
theorem not_neg_of_llongMax_lt {x scale : ℤ} (hscale : 1 ≤ scale) (h : llongMax < x * scale) :
    ¬x < 0 := by
  intro hneg
  have hproduct := mul_neg_of_neg_of_pos hneg (by omega : 0 < scale)
  rw [llongMax] at h
  omega

/-- A product of a saturated number overflows exactly when that of the number does. -/
theorem mul?_saturate_eq_none_iff {x scale : ℤ} (hx : 0 ≤ x) (hscale : 2 ≤ scale) :
    (LongLong.saturate x).mul? scale = none ↔ llongMax < x * scale := by
  have hle : x ≤ x * scale := le_mul_of_one_le_right hx (by omega)
  rw [LongLong.mul?_eq_none_iff, llongMax]
  by_cases hfits : x ≤ 2 ^ 63 - 1
  · rw [LongLong.saturate_of_mem (by omega) hfits]
    omega
  · rw [LongLong.saturate_of_gt (not_le.mp hfits)]
    omega

/-- The call is undefined exactly on the strings that begin with a number that exceeds the range by
its scale, also when the string would be rejected for what follows. -/
theorem parseScaledNumber_eq_none_iff (str : List Char) (result : Counter) :
    parseScaledNumber str result = none ↔
      ∃ (x : Numeral isspace) (rest : List Char), ∃ s ∈ suffixes, s.1 ≠ [] ∧
        str = x.text ++ (s.1 ++ rest) ∧ llongMax < x.value * s.2 := by
  constructor
  · intro h
    rcases parseScaledNumber_cases str result with hno | ⟨x, rest, s, hs, htext, hpos, hparse⟩
    · rw [hno] at h
      cases h
    · rw [hparse, Option.map_eq_none_iff] at h
      obtain ⟨hone, htwo⟩ := scale_of_mem_suffixes hs
      have hne : s.1 ≠ [] := by
        intro hempty
        rw [hone hempty, LongLong.mul?_one] at h
        cases h
      exact ⟨x, rest, s, hs, hne, htext, (mul?_saturate_eq_none_iff hpos (htwo hne)).mp h⟩
  · intro h
    obtain ⟨x, rest, s, hs, hne, rfl, hgt⟩ := h
    have htwo := (scale_of_mem_suffixes hs).2 hne
    have hpos := not_neg_of_llongMax_lt (one_le_of_mem_suffixes hs) hgt
    rw [parseScaledNumber_of_suffix x hs (fun h => absurd h hne), if_neg hpos,
      (mul?_saturate_eq_none_iff (not_lt.mp hpos) htwo).mpr hgt]
    rfl

/-- What is accepted is a count that is not negative, and the result is the product. -/
theorem parseScaledNumber_accepted {str : List Char} {result result' : Counter}
    (h : parseScaledNumber str result = some (true, result')) :
    ∃ x : Numeral isspace, ∃ s ∈ suffixes, str = x.text ++ s.1 ∧ 0 ≤ x.value ∧
      ∃ val : LongLong, (LongLong.saturate x.value).mul? s.2 = some val ∧
        result' = BitVec.ofInt 64 val.val := by
  rcases parseScaledNumber_cases str result with hno | ⟨x, rest, s, hs, htext, hpos, hparse⟩
  · rw [hno] at h
    cases h
  · rw [hparse] at h
    obtain ⟨val, hval, heq⟩ := Option.map_eq_some_iff.mp h
    by_cases hrest : rest = []
    · rw [if_neg (not_not.mpr hrest)] at heq
      rw [hrest, List.append_nil] at htext
      exact ⟨x, s, hs, htext, hpos, val, hval, (Prod.mk.inj heq).2.symm⟩
    · rw [if_pos hrest] at heq
      cases heq

/-- A count in range is accepted with its value. -/
theorem parseScaledNumber_of_writes {str : List Char} {value : ℤ} (h : Writes str value)
    (hpos : 0 ≤ value) (hfits : value ≤ llongMax) (result : Counter) :
    parseScaledNumber str result = some (true, BitVec.ofInt 64 value) := by
  obtain ⟨x, s, hs, rfl, rfl⟩ := h
  have hscale := one_le_of_mem_suffixes hs
  have hx : 0 ≤ x.value := nonneg_of_mul_nonneg_left hpos (by omega)
  have hle : x.value ≤ x.value * s.2 := le_mul_of_one_le_right hx hscale
  have hsaturate : (LongLong.saturate x.value).val = x.value := by
    rw [llongMax] at hfits
    exact LongLong.saturate_of_mem (by omega) (by omega)
  have hproduct : (LongLong.saturate x.value).mul? s.2 =
      some ⟨x.value * s.2, le_trans (by decide) hpos, hfits⟩ := by
    rw [LongLong.mul?_eq_some_iff, hsaturate]
  rw [parseScaledNumber_of_count x hs, if_neg (not_lt.mpr hx), hproduct]
  rfl

/-- A numeral above the range is accepted as the largest value when it has no suffix. -/
theorem parseScaledNumber_saturates (x : Numeral isspace) (h : llongMax < x.value)
    (result : Counter) :
    parseScaledNumber x.text result = some (true, BitVec.ofInt 64 llongMax) := by
  have hpos : ¬x.value < 0 := by
    rw [llongMax] at h
    omega
  have hcount := parseScaledNumber_of_count x (List.mem_cons_self : ([], 1) ∈ suffixes) result
  rw [List.append_nil, if_neg hpos, LongLong.mul?_one] at hcount
  have hlargest : (LongLong.saturate x.value).val = llongMax := LongLong.saturate_of_gt h
  rw [hcount, ← hlargest]
  rfl

/-- Where a string writes no number above the range, what is accepted is the number that it
writes. -/
theorem writes_of_accepted {str : List Char} (hfits : ∀ value, Writes str value → value ≤ llongMax)
    {result result' : Counter} (h : parseScaledNumber str result = some (true, result')) :
    Writes str result'.toNat ∧ (result'.toNat : ℤ) ≤ llongMax := by
  obtain ⟨x, s, hs, htext, hpos, val, hval, rfl⟩ := parseScaledNumber_accepted h
  have hscale := one_le_of_mem_suffixes hs
  have hle := hfits _ ⟨x, s, hs, htext, rfl⟩
  have hproduct := mul?_saturate hpos hscale hle hval
  have hnonneg : 0 ≤ x.value * s.2 := mul_nonneg hpos (by omega)
  have hnat : ((BitVec.ofInt 64 val.val).toNat : ℤ) = x.value * s.2 := by
    rw [llongMax] at hle
    rw [BitVec.toNat_ofInt, hproduct]
    omega
  rw [hnat]
  exact ⟨⟨x, s, hs, htext, rfl⟩, hle⟩

/-- The parser accepts the string only as a count in range, with its value, and rejects a count
whose value is out of range. -/
structure AcceptsExactly (str : List Char) : Prop where
  accepted : ∀ result result', parseScaledNumber str result = some (true, result') →
    Writes str result'.toNat ∧ (result'.toNat : ℤ) ≤ llongMax
  rejected : ∀ value, Writes str value → value < 0 ∨ llongMax < value →
    ∀ result, parseScaledNumber str result = some (false, result)

/-- The parser is exact on the strings that do not write a number above the largest `long long`. The
call has no outcome on the strings that begin with a number that exceeds the range by its scale,
whatever follows. -/
theorem acceptsExactly_iff (str : List Char) :
    (AcceptsExactly str ↔ ∀ value, Writes str value → value ≤ llongMax) ∧
      ∀ result, parseScaledNumber str result = none ↔
        ∃ (x : Numeral isspace) (rest : List Char), ∃ s ∈ suffixes, s.1 ≠ [] ∧
          str = x.text ++ (s.1 ++ rest) ∧ llongMax < x.value * s.2 := by
  refine ⟨⟨?_, ?_⟩, parseScaledNumber_eq_none_iff str⟩
  · intro h value hwrites
    obtain ⟨x, s, hs, rfl, rfl⟩ := hwrites
    by_contra hgt
    have hpos := not_neg_of_llongMax_lt (one_le_of_mem_suffixes hs) (not_le.mp hgt)
    have hrejected := h.rejected _ ⟨x, s, hs, rfl, rfl⟩ (.inr (not_le.mp hgt)) 0
    have hparse := parseScaledNumber_of_count x hs 0
    rw [hrejected, if_neg hpos] at hparse
    obtain ⟨val, -, heq⟩ := Option.map_eq_some_iff.mp hparse.symm
    cases heq
  · intro hfits
    refine ⟨fun result result' h => writes_of_accepted hfits h, ?_⟩
    intro value hwrites hout result
    have hle := hfits value hwrites
    obtain ⟨x, s, hs, rfl, rfl⟩ := hwrites
    have hneg : x.value < 0 := by
      have hscale := one_le_of_mem_suffixes hs
      have hproduct : x.value * s.2 < 0 := hout.resolve_right hle.not_gt
      exact neg_of_mul_neg_left hproduct (by omega)
    exact (parseScaledNumber_of_count x hs result).trans (if_pos hneg)

/-- One more than the largest `long long` is accepted as the largest. -/
theorem first_above_saturates :
    parseScaledNumber "9223372036854775808".toList 0 = some (true, 0x7fffffffffffffff) ∧
      ¬AcceptsExactly "9223372036854775808".toList := by
  refine ⟨rfl, fun h => ?_⟩
  have hwrites : Writes "9223372036854775808".toList (2 ^ 63) :=
    ⟨⟨[], .none, "9223372036854775808".toList, by simp, by simp, by simp⟩, ([], 1),
      by simp [suffixes], rfl, rfl⟩
  have hrejected := h.rejected _ hwrites (.inr (by decide)) 0
  exact absurd hrejected (by decide +kernel)

end VeriCross
