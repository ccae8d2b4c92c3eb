import Mathlib.Data.List.Basic

/-!
# Files and what is known of them

A file has a value at every place and a position where the next transfer starts. Who seeks, reads
and writes without looking inside knows a part of it: the position since the last seek, and the
values written at known positions. Each operation on the known part keeps it a part of the file.
-/

/-- A file: where the next transfer starts, and the value at each place. -/
structure StoredFile (B : Type*) where
  position : ℕ
  content : ℕ → B

/-- What is known of a file. -/
structure KnownFile (B : Type*) where
  position : Option ℕ
  content : ℕ → Option B

variable {B : Type*}

/-- The second file is the first after some values were written at the position. The data tells
the first of these values. -/
structure StoredFile.Written (f : StoredFile B) (data : List B) (moved : ℕ) (f' : StoredFile B) :
    Prop where
  position : f'.position = f.position + moved
  inside : ∀ i (hi : i < data.length), i < moved → f'.content (f.position + i) = data[i]
  outside : ∀ x, x < f.position ∨ f.position + moved ≤ x → f'.content x = f.content x

namespace KnownFile

/-- Nothing is known. -/
def nothing : KnownFile B := ⟨none, fun _ => none⟩

/-- Move to a position. -/
def seek (f : KnownFile B) (position : ℕ) : KnownFile B := { f with position := some position }

/-- Read some values. -/
def read (f : KnownFile B) (moved : ℕ) : KnownFile B :=
  { f with position := f.position.map (· + moved) }

/-- Write some values, the first of which the data tells. What was written at an unknown position
can be anywhere. -/
def write (f : KnownFile B) (data : List B) (moved : ℕ) : KnownFile B :=
  match f.position with
  | none => nothing
  | some p =>
    { position := some (p + moved)
      content := fun x => if x < p ∨ p + moved ≤ x then f.content x else data[x - p]? }

/-- What is known is right. -/
structure Sound (f : KnownFile B) (file : StoredFile B) : Prop where
  position : ∀ p, f.position = some p → file.position = p
  content : ∀ x b, f.content x = some b → file.content x = b

variable {f : KnownFile B} {file file' : StoredFile B}

/-- Knowing nothing is right. -/
theorem Sound.nothing (file : StoredFile B) : Sound nothing file where
  position := by
    intro p h
    cases h
  content := by
    intro x b h
    cases h

/-- A seek keeps what is known right. -/
theorem Sound.seek (h : Sound f file) (position : ℕ) :
    Sound (f.seek position) { file with position := position } where
  position := by
    intro p hp
    exact Option.some_inj.mp hp
  content := h.content

/-- A read keeps what is known right. -/
theorem Sound.read (h : Sound f file) (moved : ℕ) :
    Sound (f.read moved) { file with position := file.position + moved } where
  position := by
    intro p hp
    obtain ⟨q, hq, rfl⟩ := Option.map_eq_some_iff.mp hp
    rw [h.position q hq]
  content := h.content

/-- A write keeps what is known right. -/
theorem Sound.write (h : Sound f file) {data : List B} {moved : ℕ}
    (hwritten : file.Written data moved file') : Sound (f.write data moved) file' := by
  rw [KnownFile.write]
  cases hposition : f.position with
  | none => exact .nothing file'
  | some p =>
    have hp := h.position p hposition
    refine ⟨fun q hq => ?_, fun x b hx => ?_⟩
    · rw [← Option.some_inj.mp hq, hwritten.position, hp]
    · dsimp only at hx
      split at hx
      · next hout => rw [hwritten.outside x (by rwa [hp]), h.content x b hx]
      · next hin =>
        obtain ⟨hi, rfl⟩ := List.getElem?_eq_some_iff.mp hx
        rw [← hwritten.inside (x - p) hi (by omega)]
        congr 1
        omega

end KnownFile
