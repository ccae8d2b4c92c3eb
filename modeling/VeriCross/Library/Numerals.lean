import Mathlib.Data.List.TakeWhile
import Mathlib.Data.Nat.Digits.Defs

/-!
# Scanning decimal numerals

A scanner skips white space, takes a sign and then as many digits as there are. It succeeds exactly
on the texts that begin with a numeral, and leaves what follows the longest one.
-/

namespace Numerals

section LongestPrefix

variable {α : Type*} {p : α → Bool} {front rest : List α}

/-- All of the front passes the test, and what follows does not go on with it. -/
structure LongestPrefix (p : α → Bool) (front rest : List α) : Prop where
  all : ∀ a ∈ front, p a = true
  stops : ∀ a, rest.head? = some a → p a = false

/-- The longest prefix is what is taken. -/
theorem LongestPrefix.takeWhile_eq (h : LongestPrefix p front rest) :
    (front ++ rest).takeWhile p = front := by
  have hstops : rest.takeWhile p = [] := by
    cases rest with
    | nil => rfl
    | cons a _ => rw [List.takeWhile_cons, h.stops a rfl, if_neg Bool.false_ne_true]
  rw [List.takeWhile_append_of_pos h.all, hstops, List.append_nil]

/-- What follows the longest prefix is what is left. -/
theorem LongestPrefix.dropWhile_eq (h : LongestPrefix p front rest) :
    (front ++ rest).dropWhile p = rest := by
  have hsplit := List.takeWhile_append_dropWhile (p := p) (l := front ++ rest)
  rw [h.takeWhile_eq] at hsplit
  exact List.append_cancel_left hsplit

/-- Every text has a longest prefix that passes. -/
theorem longestPrefix_takeWhile (p : α → Bool) (l : List α) :
    LongestPrefix p (l.takeWhile p) (l.dropWhile p) where
  all := fun _ => List.mem_takeWhile_imp
  stops := by
    intro a ha
    have hhead := List.head?_dropWhile_not p l
    rw [ha] at hhead
    exact hhead

end LongestPrefix

/-- What may stand between the white space and the digits. -/
inductive Sign where
  | none
  | plus
  | minus
  deriving DecidableEq

/-- How a sign is written. -/
def Sign.text : Sign → List Char
  | none => []
  | plus => ['+']
  | minus => ['-']

/-- What a sign multiplies by. -/
def Sign.factor : Sign → ℤ
  | none => 1
  | plus => 1
  | minus => -1

/-- The value of a digit. -/
def digitValue (c : Char) : ℕ := c.toNat - '0'.toNat

/-- White space, a sign and at least one digit. -/
structure Numeral (space : Char → Bool) where
  blanks : List Char
  sign : Sign
  digits : List Char
  blanks_space : ∀ c ∈ blanks, space c = true
  digits_ne_nil : digits ≠ []
  digits_isDigit : ∀ c ∈ digits, c.isDigit = true

variable {space : Char → Bool}

/-- The characters of a numeral. -/
def Numeral.text (x : Numeral space) : List Char := x.blanks ++ x.sign.text ++ x.digits

/-- The integer that a numeral stands for, by the positions of its digits. -/
def Numeral.value (x : Numeral space) : ℤ :=
  x.sign.factor * (Nat.ofDigits 10 (x.digits.map digitValue).reverse : ℕ)

/-- A numeral has a digit. -/
theorem Numeral.text_ne_nil (x : Numeral space) : x.text ≠ [] := by
  intro h
  exact x.digits_ne_nil (List.append_eq_nil_iff.mp h).2

/-- Take the sign. -/
def scanSign : List Char → Sign × List Char
  | '+' :: rest => (.plus, rest)
  | '-' :: rest => (.minus, rest)
  | body => (.none, body)

/-- Accumulate digits from the left. -/
def accumulate (digits : List Char) : ℕ := digits.foldl (fun n c => 10 * n + digitValue c) 0

/-- Skip white space, take a sign and accumulate the digits that follow. -/
def scan (space : Char → Bool) (l : List Char) : Option (ℤ × List Char) :=
  let (sign, body) := scanSign (l.dropWhile space)
  let digits := body.takeWhile Char.isDigit
  if digits = [] then none
  else some (sign.factor * accumulate digits, body.dropWhile Char.isDigit)

/-- Accumulating the digits gives their value by positions. -/
theorem accumulate_eq (digits : List Char) :
    accumulate digits = Nat.ofDigits 10 (digits.map digitValue).reverse := by
  rw [accumulate, Nat.ofDigits_eq_foldr, List.foldr_reverse, List.foldl_map]
  congr 1
  funext n c
  exact Nat.add_comm ..

/-- The sign is taken off a text that goes on with something else. -/
theorem scanSign_append (sign : Sign) {body : List Char}
    (hbody : ∀ c, body.head? = some c → c ≠ '+' ∧ c ≠ '-') :
    scanSign (sign.text ++ body) = (sign, body) := by
  cases sign with
  | plus => rfl
  | minus => rfl
  | none =>
    cases body with
    | nil => rfl
    | cons c rest =>
      obtain ⟨hplus, hminus⟩ := hbody c rfl
      rw [Sign.text, List.nil_append, scanSign]
      · intro rest' heq
        exact hplus (List.cons.inj heq).1
      · intro rest' heq
        exact hminus (List.cons.inj heq).1

/-- Taking the sign splits a text. -/
theorem scanSign_text (l : List Char) : (scanSign l).1.text ++ (scanSign l).2 = l := by
  fun_cases scanSign l <;> rfl

/-- A numeral is scanned when no further digit follows. -/
theorem scan_append (hspace : ∀ c, space c = true → c.isDigit = false)
    (hplus : space '+' = false) (hminus : space '-' = false) (x : Numeral space)
    {rest : List Char} (hrest : ∀ c, rest.head? = some c → c.isDigit = false) :
    scan space (x.text ++ rest) = some (x.value, rest) := by
  obtain ⟨d, digits, hdigits⟩ := List.exists_cons_of_ne_nil x.digits_ne_nil
  have hd : d.isDigit = true := x.digits_isDigit d (hdigits ▸ List.mem_cons_self)
  have hblanks : LongestPrefix space x.blanks (x.sign.text ++ (x.digits ++ rest)) := by
    refine ⟨x.blanks_space, fun c hc => ?_⟩
    rw [hdigits] at hc
    cases hsign : x.sign with
    | none =>
      rw [hsign] at hc
      cases hc
      exact Bool.eq_false_iff.mpr fun h => absurd hd (by rw [hspace d h]; decide)
    | plus =>
      rw [hsign] at hc
      cases hc
      exact hplus
    | minus =>
      rw [hsign] at hc
      cases hc
      exact hminus
  have hsign : scanSign (x.sign.text ++ (x.digits ++ rest)) = (x.sign, x.digits ++ rest) := by
    apply scanSign_append
    intro c hc
    rw [hdigits] at hc
    cases hc
    constructor
    · intro heq
      rw [heq] at hd
      exact absurd hd (by decide)
    · intro heq
      rw [heq] at hd
      exact absurd hd (by decide)
  have hlongest : LongestPrefix Char.isDigit x.digits rest := ⟨x.digits_isDigit, hrest⟩
  rw [scan, Numeral.text, List.append_assoc, List.append_assoc, hblanks.dropWhile_eq, hsign]
  dsimp only
  rw [hlongest.takeWhile_eq, hlongest.dropWhile_eq, if_neg x.digits_ne_nil, accumulate_eq]
  rfl

/-- What is scanned is a numeral, and no further digit follows. -/
theorem exists_of_scan {l rest : List Char} {value : ℤ} (h : scan space l = some (value, rest)) :
    ∃ x : Numeral space, l = x.text ++ rest ∧ value = x.value ∧
      ∀ c, rest.head? = some c → c.isDigit = false := by
  have hblanks := longestPrefix_takeWhile space l
  have hdigits := longestPrefix_takeWhile Char.isDigit (scanSign (l.dropWhile space)).2
  rw [scan] at h
  dsimp only at h
  split at h
  · cases h
  · next hne =>
    obtain ⟨rfl, rfl⟩ := Prod.mk.inj (Option.some.inj h)
    refine ⟨⟨_, (scanSign (l.dropWhile space)).1, _, hblanks.all, hne, hdigits.all⟩, ?_, ?_,
      hdigits.stops⟩
    · rw [Numeral.text, List.append_assoc, List.takeWhile_append_dropWhile, List.append_assoc,
        scanSign_text, List.takeWhile_append_dropWhile]
    · rw [accumulate_eq]
      rfl

end Numerals
