import Mathlib.Tactic

/-!
# Records and copies

A record laid out without gaps is the concatenation of its fields, so a field is read back
from the sum of the lengths before it (`slice_flatten`).  A loop that copies a block into an
array at an offset writes the block and nothing else (`getElem_copyInto`,
`getElem_copyInto_of_outside`).
-/

namespace Roshi.Lib

variable {α : Type*}

/-! ### Fields -/

/-- Field `i` stands behind the fields before it. -/
theorem slice_flatten {fields : List (List α)} {i : Nat} {x : List α} (h : fields[i]? = some x) :
    (fields.flatten.drop ((fields.take i).map List.length).sum).take x.length = x := by
  induction fields generalizing i with
  | nil => cases h
  | cons field fields ih =>
    cases i with
    | zero =>
      cases h
      rw [List.take_zero, List.map_nil, List.sum_nil, List.drop_zero, List.flatten_cons,
        List.take_left]
    | succ i =>
      rw [List.getElem?_cons_succ] at h
      rw [List.take_succ_cons, List.map_cons, List.sum_cons, List.flatten_cons,
        List.drop_length_add_append]
      exact ih h

/-! ### Copying -/

variable {n m : Nat}

/-- One pass of a copying loop: the element at `index` goes behind `offset`. -/
def copyElement (offset : Nat) (source : Fin n → α) (h : offset + n ≤ m) (target : Vector α m)
    (index : Fin n) : Vector α m :=
  target.set (offset + index.val) (source index) (by omega)

/-- A loop that copies a block into an array, from `offset` on. -/
def copyInto (target : Vector α m) (offset : Nat) (source : Fin n → α) (h : offset + n ≤ m) :
    Vector α m :=
  (List.finRange n).foldl (copyElement offset source h) target

section Loop

variable {target : Vector α m} {offset : Nat} {source : Fin n → α} {h : offset + n ≤ m}

/-- A pass of the loop writes at its own index only. -/
theorem getElem_foldl_copy_of_ne {l : List (Fin n)} {k : Nat} (hk : k < m)
    (hne : ∀ i ∈ l, offset + i.val ≠ k) :
    (l.foldl (copyElement offset source h) target)[k] = target[k] := by
  induction l generalizing target with
  | nil => rfl
  | cons i l ih =>
    rw [List.forall_mem_cons] at hne
    rw [List.foldl_cons, ih hne.2, copyElement, Vector.getElem_set_ne _ _ hne.1]

/-- What it writes there stays. -/
theorem getElem_foldl_copy {l : List (Fin n)} {i : Fin n} (hi : i ∈ l) :
    (l.foldl (copyElement offset source h) target)[offset + i.val] = source i := by
  induction l generalizing target with
  | nil => cases hi
  | cons j l ih =>
    rw [List.foldl_cons]
    by_cases hil : i ∈ l
    · exact ih hil
    · obtain rfl : i = j := (List.mem_cons.mp hi).resolve_right hil
      have hne : ∀ k ∈ l, offset + k.val ≠ offset + i.val := by
        intro k hk heq
        obtain rfl : k = i := Fin.ext (Nat.add_left_cancel heq)
        exact hil hk
      rw [getElem_foldl_copy_of_ne _ hne, copyElement, Vector.getElem_set_self]

/-- **The block is copied.** -/
theorem getElem_copyInto {k : Nat} (hk : k < n) :
    (copyInto target offset source h)[offset + k] = source ⟨k, hk⟩ :=
  getElem_foldl_copy (List.mem_finRange ⟨k, hk⟩)

/-- **Nothing else is written.** -/
theorem getElem_copyInto_of_outside {k : Nat} (hk : k < m) (hout : k < offset ∨ offset + n ≤ k) :
    (copyInto target offset source h)[k] = target[k] :=
  getElem_foldl_copy_of_ne hk fun i _ => by omega

end Loop

end Roshi.Lib
