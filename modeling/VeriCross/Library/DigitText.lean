import Mathlib.Data.Nat.Notation

/-!
# Reading digits back

A numeral is printed with `Nat.toDigits`, filled with zeros on the left, and read from the left
with a function that knows the digits below the base. Reading gives the printed number back.
-/

namespace DigitText

/-- The value of a text of digits, when all characters are known. -/
def value? (digit? : Char → Option ℕ) (b : ℕ) (text : List Char) : Option ℕ :=
  (text.mapM digit?).map fun digits => digits.foldl (b * · + ·) 0

section Reading

variable {digit? : Char → Option ℕ} {b : ℕ} {text : List Char} {n : ℕ}

/-- A further digit. -/
theorem value?_concat (hvalue : value? digit? b text = some n) {c : Char} {d : ℕ}
    (hdigit : digit? c = some d) : value? digit? b (text ++ [c]) = some (b * n + d) := by
  obtain ⟨digits, hdigits, hn⟩ := Option.map_eq_some_iff.mp hvalue
  rw [value?, List.mapM_append, hdigits, List.mapM_cons, List.mapM_nil, hdigit]
  simp [← hn]

/-- Only known characters have been read. -/
theorem isSome_digit?_of_mem (hvalue : value? digit? b text = some n) {c : Char} (hc : c ∈ text) :
    (digit? c).isSome := by
  obtain ⟨digits, hdigits, -⟩ := Option.map_eq_some_iff.mp hvalue
  clear hvalue
  induction text generalizing digits with
  | nil => cases hc
  | cons a rest ih =>
    rw [List.mapM_cons, Option.bind_eq_bind, Option.bind_eq_some_iff] at hdigits
    obtain ⟨d, ha, hrest⟩ := hdigits
    rw [Option.bind_eq_bind, Option.bind_eq_some_iff] at hrest
    obtain ⟨more, hmore, -⟩ := hrest
    rcases List.mem_cons.mp hc with rfl | hmem
    · exact Option.isSome_of_eq_some ha
    · exact ih hmem more hmore

/-- Zeros on the left do not change the value. -/
theorem value?_replicate_append (hzero : digit? '0' = some 0) (k : ℕ) :
    value? digit? b (List.replicate k '0' ++ text) = value? digit? b text := by
  induction k with
  | zero => rfl
  | succ k ih =>
    rw [List.replicate_succ, List.cons_append, value?, List.mapM_cons, hzero, ← ih, value?]
    cases (List.replicate k '0' ++ text).mapM digit? with
    | none => rfl
    | some digits => simp

end Reading

section Printing

variable {digit? : Char → Option ℕ} {b : ℕ} (hb : 1 < b)
  (hdigit : ∀ d < b, digit? (Nat.digitChar d) = some d)

include hb hdigit

/-- A printed number is read back. -/
theorem value?_toDigits (n : ℕ) : value? digit? b (Nat.toDigits b n) = some n := by
  -- the induction is on the number, whose last digit is printed last
  induction n using Nat.strongRecOn with
  | ind n ih =>
    rcases Nat.lt_or_ge n b with hlt | hge
    · have hone := value?_concat (b := b) (show value? digit? b [] = some 0 from rfl)
        (hdigit n hlt)
      rw [Nat.mul_zero, Nat.zero_add] at hone
      rw [Nat.toDigits_of_lt_base hlt]
      exact hone
    · have hsmaller : n / b < n := Nat.div_lt_self (by omega) hb
      have hlast := value?_concat (ih (n / b) hsmaller) (hdigit (n % b) (Nat.mod_lt n (by omega)))
      rw [Nat.toDigits_of_base_le hb hge]
      rwa [Nat.div_add_mod] at hlast

/-- A printed number is read back when zeros fill it. -/
theorem value?_leftpad (width n : ℕ) :
    value? digit? b ((Nat.toDigits b n).leftpad width '0') = some n := by
  rw [List.leftpad, value?_replicate_append (hdigit 0 (by omega)), value?_toDigits hb hdigit]

end Printing

/-- The value of a digit below sixteen. -/
def digit? (c : Char) : Option ℕ := (List.range 16).find? fun d => Nat.digitChar d = c

/-- A digit is read back from its character. -/
theorem digit?_digitChar : ∀ d < 16, digit? (Nat.digitChar d) = some d := by
  decide

section Small

variable {b : ℕ} (hb : 1 < b) (hb' : b ≤ 16)

include hb hb'

/-- The printed text determines the number. -/
theorem toDigits_inj {m n : ℕ} (heq : Nat.toDigits b m = Nat.toDigits b n) : m = n := by
  have hread := value?_toDigits hb fun d hd => digit?_digitChar d (by omega)
  have hm := hread m
  rw [heq, hread n] at hm
  exact (Option.some.inj hm).symm

/-- Only digits are printed. -/
theorem notMem_toDigits {c : Char} (hc : digit? c = none) (n : ℕ) : c ∉ Nat.toDigits b n := by
  intro hmem
  have hread := value?_toDigits hb (fun d hd => digit?_digitChar d (by omega)) n
  have hsome := isSome_digit?_of_mem hread hmem
  rw [hc] at hsome
  cases hsome

end Small

/-- A text of digits that is not longer than the width is filled up to it. -/
theorem length_leftpad {width : ℕ} {text : List Char} (h : text.length ≤ width) :
    (text.leftpad width '0').length = width := by
  rw [List.length_leftpad]
  exact Nat.max_eq_left h

end DigitText
