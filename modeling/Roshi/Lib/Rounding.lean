import Mathlib.Tactic

/-!
# Rounded quotients and unsigned fixed point

`roundDiv n d` is `n / d` to the nearest integer, ties up.  It only depends on the
fraction and is monotone in it (`roundDiv_le_of_cross`), and clamping the fraction
from below commutes with rounding (`roundDiv_max`).

`UFixed w f` are unsigned numbers of `w` bits, `f` of them fractional: the bits stand
for `bits / 2 ^ f`.
-/

namespace Roshi.Lib

/-! ### Rounding half up -/

/-- `n / d` rounded to the nearest integer, ties up. -/
def roundDiv (n d : Nat) : Nat := (2 * n + d) / (2 * d)

variable {n n' d d' : Nat}

/-- The quotient, and one more when the remainder is at least half. -/
theorem roundDiv_eq_div_add (n : Nat) (hd : 0 < d) :
    roundDiv n d = n / d + if d ≤ 2 * (n % d) then 1 else 0 := by
  have hmod := Nat.mod_lt n hd
  have hn : 2 * n + d = (2 * (n % d) + d) + 2 * d * (n / d) := by
    have := Nat.mod_add_div n d
    calc 2 * n + d = 2 * (n % d + d * (n / d)) + d := by rw [this]
      _ = _ := by ring
  rw [roundDiv, hn, Nat.add_mul_div_left _ _ (by omega), Nat.add_comm]
  congr 1
  split
  · rw [Nat.div_eq_iff (by omega)]
    omega
  · rw [Nat.div_eq_iff (by omega)]
    omega

/-- **Rounding is monotone in the fraction**, compared by cross-multiplication. -/
theorem roundDiv_le_of_cross (hd : 0 < d) (hd' : 0 < d') (h : n * d' ≤ n' * d) :
    roundDiv n d ≤ roundDiv n' d' := by
  rw [roundDiv, roundDiv, Nat.le_div_iff_mul_le (by omega)]
  refine Nat.le_of_mul_le_mul_right ?_ hd
  have hfloor : (2 * n + d) / (2 * d) * (2 * d) ≤ 2 * n + d := Nat.div_mul_le_self _ _
  calc (2 * n + d) / (2 * d) * (2 * d') * d
      = (2 * n + d) / (2 * d) * (2 * d) * d' := by ring
    _ ≤ (2 * n + d) * d' := Nat.mul_le_mul_right _ hfloor
    _ = 2 * (n * d') + d * d' := by ring
    _ ≤ 2 * (n' * d) + d * d' := by omega
    _ = (2 * n' + d') * d := by ring

theorem roundDiv_mono (hd : 0 < d) (h : n ≤ n') : roundDiv n d ≤ roundDiv n' d :=
  roundDiv_le_of_cross hd hd (Nat.mul_le_mul_right _ h)

/-- A whole number is its own rounding. -/
theorem roundDiv_mul_self (k : Nat) (hd : 0 < d) : roundDiv (k * d) d = k := by
  rw [roundDiv_eq_div_add _ hd, Nat.mul_div_cancel _ hd, Nat.mul_mod_left, if_neg (by omega)]
  rfl

/-- Rounding never exceeds the numerator. -/
theorem roundDiv_le_self (n : Nat) (hd : 0 < d) : roundDiv n d ≤ n :=
  calc roundDiv n d ≤ roundDiv (n * 1) 1 := by
        refine roundDiv_le_of_cross hd Nat.one_pos ?_
        rw [Nat.mul_one]
        exact Nat.le_mul_of_pos_right n hd
    _ = n := roundDiv_mul_self n Nat.one_pos

/-- Clamping at a whole number before or after rounding is the same. -/
theorem roundDiv_max (n k : Nat) (hd : 0 < d) :
    roundDiv (max n (k * d)) d = max (roundDiv n d) k := by
  have hmono : Monotone fun m => roundDiv m d := fun _ _ => roundDiv_mono hd
  calc roundDiv (max n (k * d)) d = max (roundDiv n d) (roundDiv (k * d) d) := hmono.map_max
    _ = max (roundDiv n d) k := by rw [roundDiv_mul_self k hd]

/-! ### Fixed point -/

/-- An unsigned number of `w` bits, `f` of them fractional. -/
structure UFixed (w f : Nat) where
  bits : BitVec w
  deriving DecidableEq

namespace UFixed

variable {w f : Nat}

/-- `from_num`, of a number whose whole part fits. -/
def fromNum (f : Nat) {v : Nat} (n : BitVec v) : UFixed w f := ⟨BitVec.ofNat w (n.toNat * 2 ^ f)⟩

/-- `checked_mul`: the product cut to the fractional bits. -/
def checkedMul (a b : UFixed w f) : Option (UFixed w f) :=
  if a.bits.toNat * b.bits.toNat / 2 ^ f < 2 ^ w then
    some ⟨BitVec.ofNat w (a.bits.toNat * b.bits.toNat / 2 ^ f)⟩
  else none

instance : LT (UFixed w f) := ⟨fun a b => a.bits < b.bits⟩

instance : LE (UFixed w f) := ⟨fun a b => a.bits ≤ b.bits⟩

instance (a b : UFixed w f) : Decidable (a < b) := inferInstanceAs (Decidable (a.bits < b.bits))

instance (a b : UFixed w f) : Decidable (a ≤ b) := inferInstanceAs (Decidable (a.bits ≤ b.bits))

/-- `Ord::max`. -/
def max (a b : UFixed w f) : UFixed w f := if a ≤ b then b else a

/-- `round`: to the nearest whole number, ties up. -/
def round (a : UFixed w f) : UFixed w f :=
  ⟨BitVec.ofNat w (roundDiv a.bits.toNat (2 ^ f) * 2 ^ f)⟩

/-- `from_fixed`: the whole part. -/
def toNum (v : Nat) (a : UFixed w f) : BitVec v := BitVec.ofNat v (a.bits.toNat / 2 ^ f)

theorem bits_fromNum {v : Nat} {n : BitVec v} (h : n.toNat * 2 ^ f < 2 ^ w) :
    (fromNum f n : UFixed w f).bits.toNat = n.toNat * 2 ^ f := by
  rw [fromNum, BitVec.toNat_ofNat, Nat.mod_eq_of_lt h]

theorem lt_iff {a b : UFixed w f} : a < b ↔ a.bits.toNat < b.bits.toNat := BitVec.lt_def

theorem le_iff {a b : UFixed w f} : a ≤ b ↔ a.bits.toNat ≤ b.bits.toNat := BitVec.le_def

theorem bits_max (a b : UFixed w f) :
    (a.max b).bits.toNat = Nat.max a.bits.toNat b.bits.toNat := by
  rw [max]
  split
  · rename_i h
    exact (Nat.max_eq_right (le_iff.mp h)).symm
  · rename_i h
    rw [le_iff, Nat.not_le] at h
    exact (Nat.max_eq_left h.le).symm

/-- The product of a whole number and a fraction is exact. -/
theorem checkedMul_fromNum {v : Nat} {n : BitVec v} {a : UFixed w f}
    (hn : n.toNat * 2 ^ f < 2 ^ w) (h : n.toNat * a.bits.toNat < 2 ^ w) :
    ∃ p : UFixed w f, checkedMul (fromNum f n) a = some p ∧
      p.bits.toNat = n.toNat * a.bits.toNat := by
  have hp : (fromNum f n : UFixed w f).bits.toNat * a.bits.toNat / 2 ^ f
      = n.toNat * a.bits.toNat := by
    rw [bits_fromNum hn, Nat.mul_right_comm, Nat.mul_div_cancel _ (Nat.two_pow_pos f)]
  refine ⟨⟨BitVec.ofNat w (n.toNat * a.bits.toNat)⟩, ?_, ?_⟩
  · rw [checkedMul, hp, if_pos h]
  · rw [BitVec.toNat_ofNat, Nat.mod_eq_of_lt h]

/-- Rounding, then taking the whole part, rounds the quotient. -/
theorem toNat_toNum_round {v : Nat} {a : UFixed w f}
    (hw : roundDiv a.bits.toNat (2 ^ f) * 2 ^ f < 2 ^ w)
    (hv : roundDiv a.bits.toNat (2 ^ f) < 2 ^ v) :
    (a.round.toNum v).toNat = roundDiv a.bits.toNat (2 ^ f) := by
  rw [toNum, round, BitVec.toNat_ofNat, BitVec.toNat_ofNat, Nat.mod_eq_of_lt hw,
    Nat.mul_div_cancel _ (Nat.two_pow_pos f), Nat.mod_eq_of_lt hv]

end UFixed

end Roshi.Lib
