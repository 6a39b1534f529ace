import Mathlib.Tactic

/-!
# Words as a string of bits

Bit `k` of a list of `w`-bit words is bit `k % w` of word `k / w`, and false past the end.
Words of one number are told apart by their bits (`ext_bitAt`), and `words[i] |= value` sets
the bits of one window (`bitAt_orAt`).
-/

namespace Roshi.Lib

variable {w : Nat}

/-- Bit `k` of a string of words. -/
def bitAt (words : List (BitVec w)) (k : Nat) : Bool := (words.getD (k / w) 0).getLsbD (k % w)

/-- `words[i] |= value`. -/
def orAt (words : List (BitVec w)) (i : Nat) (value : BitVec w) : List (BitVec w) :=
  words.modify i (· ||| value)

@[simp] theorem length_orAt (words : List (BitVec w)) (i : Nat) (value : BitVec w) :
    (orAt words i value).length = words.length :=
  List.length_modify ..

theorem getLsbD_zero (j : Nat) : (0 : BitVec w).getLsbD j = false := BitVec.getLsbD_zero

theorem bitAt_mul_add (words : List (BitVec w)) (i : Nat) {j : Nat} (hj : j < w) :
    bitAt words (w * i + j) = (words.getD i 0).getLsbD j := by
  rw [bitAt, Nat.mul_add_div (by omega), Nat.div_eq_of_lt hj, Nat.add_zero, Nat.mul_add_mod,
    Nat.mod_eq_of_lt hj]

/-- Past the last word there are no bits. -/
theorem bitAt_of_length_le {words : List (BitVec w)} {k : Nat} (hw : 0 < w)
    (h : w * words.length ≤ k) : bitAt words k = false := by
  have hle : words.length ≤ k / w := (Nat.le_div_iff_mul_le hw).mpr (by rwa [Nat.mul_comm])
  rw [bitAt, List.getD_eq_getElem?_getD, List.getElem?_eq_none hle, Option.getD_none,
    getLsbD_zero]

@[simp] theorem bitAt_replicate_zero (n k : Nat) :
    bitAt (List.replicate n (0 : BitVec w)) k = false := by
  rw [bitAt, List.getD_eq_getElem?_getD, List.getElem?_replicate]
  split <;> simp

/-- **Words are told apart by their bits.** -/
theorem ext_bitAt {words words' : List (BitVec w)} (hlen : words.length = words'.length)
    (h : ∀ k, bitAt words k = bitAt words' k) : words = words' := by
  apply List.ext_getElem hlen
  intro i hi hi'
  apply BitVec.eq_of_getLsbD_eq
  intro j hj
  have hbit := h (w * i + j)
  rw [bitAt_mul_add words i hj, bitAt_mul_add words' i hj, List.getD_eq_getElem?_getD,
    List.getD_eq_getElem?_getD, List.getElem?_eq_getElem hi, List.getElem?_eq_getElem hi'] at hbit
  exact hbit

/-- **Or-ing into one word** sets bits of its window only. -/
theorem bitAt_orAt {words : List (BitVec w)} {i : Nat} (hi : i < words.length) (value : BitVec w)
    (k : Nat) :
    bitAt (orAt words i value) k = (bitAt words k || (k / w == i && value.getLsbD (k % w))) := by
  rw [bitAt, bitAt, orAt, List.getD_eq_getElem?_getD, List.getD_eq_getElem?_getD,
    List.getElem?_modify]
  by_cases hk : i = k / w
  · subst hk
    rw [List.getElem?_eq_getElem hi]
    simp
  · have hne : (k / w == i) = false := beq_false_of_ne (Ne.symm hk)
    rw [hne, Bool.false_and, Bool.or_false]
    simp [hk]

/-- A shifted-down word is zero when the bits from there on are. -/
theorem ushiftRight_eq_zero_iff {x : BitVec w} {n : Nat} :
    x >>> n = 0 ↔ ∀ j, n ≤ j → x.getLsbD j = false := by
  constructor
  · intro h j hj
    have hbit := congrArg (fun y : BitVec w => y.getLsbD (j - n)) h
    simp only [BitVec.getLsbD_ushiftRight, getLsbD_zero] at hbit
    rwa [Nat.add_sub_cancel' hj] at hbit
  · intro h
    apply BitVec.eq_of_getLsbD_eq
    intro j _
    rw [BitVec.getLsbD_ushiftRight, getLsbD_zero]
    exact h _ (Nat.le_add_right _ _)

end Roshi.Lib
