import Mathlib.Data.BitVec

/-!
# Ordered maps with decidable keys

Where the order decides equality, looking up a key after an insertion or a removal is a case
distinction on the key.
-/

namespace TreeMaps

variable {K V : Type*} [Ord K] [Std.TransOrd K] [Std.LawfulEqOrd K] [DecidableEq K]

/-- Looking up a key after an insertion. -/
theorem getElem?_insert_ite (t : Std.TreeMap K V) (k : K) (v : V) (l : K) :
    (t.insert k v)[l]? = if l = k then some v else t[l]? := by
  simp only [Std.TreeMap.getElem?_insert, Std.compare_eq_iff_eq]
  exact ite_congr (propext eq_comm) (fun _ => rfl) (fun _ => rfl)

/-- Looking up a key after a removal. -/
theorem getElem?_erase_ite (t : Std.TreeMap K V) (k l : K) :
    (t.erase k)[l]? = if l = k then none else t[l]? := by
  simp only [Std.TreeMap.getElem?_erase, Std.compare_eq_iff_eq]
  exact ite_congr (propext eq_comm) (fun _ => rfl) (fun _ => rfl)

end TreeMaps
