import Roshi.Lib.Rounding
import Roshi.Math

/-!
# The flash-loan fee

`round_with_min1` charges `flashFee`: the quotient rounded half up, at least one atom
once anything is charged.  `roundWithMin1_eq` says that this is all it computes, with
`DivisionByZero` and `ResultDoesNotFit` its only errors.

The lender computes its fee in `fixed::U68F60`, clamping at one atom before it rounds.
`klendFlashFee` is that computation, and the two agree wherever the lender charges a fee
(`flash_fee_equals_klend`): clamping at a whole number commutes with rounding.

Fees are monotone in the rate (`flashFee_le`), which is what lowering a committed rate
rests on.
-/

namespace Roshi

open Lib

/-! ### What the fee is -/

/-- The fee on `value > 0` at a rate `num / den > 0`, as a number. -/
def flashFee (value num den : Nat) : Nat := max 1 (roundDiv (value * num) den)

/-- Nothing on the way overflows. -/
structure FlashFeeExact (value num den : U64) : Prop where
  product_lt : value.toNat * num.toNat < 2 ^ 128
  doubled_lt : 2 * (value.toNat * num.toNat % den.toNat) < 2 ^ 128
  carried_lt : value.toNat * num.toNat / den.toNat + 1 < 2 ^ 128

variable {value num den : U64}

theorem flashFeeExact (hden : den.toNat ≠ 0) : FlashFeeExact value num den := by
  have hmod := Nat.mod_lt (value.toNat * num.toNat) (Nat.pos_of_ne_zero hden)
  have hlt := den.isLt
  refine ⟨U64.mul_lt value num, by omega, ?_⟩
  have hle : value.toNat * num.toNat ≤ (2 ^ 64 - 1) * (2 ^ 64 - 1) :=
    Nat.mul_le_mul (Nat.le_pred_of_lt value.isLt) (Nat.le_pred_of_lt num.isLt)
  have hdiv : value.toNat * num.toNat / den.toNat ≤ value.toNat * num.toNat := Nat.div_le_self _ _
  omega

/-- The rounded quotient, as the code builds it. -/
theorem toNat_rounded {numerator denominator : U128} (hd : 0 < denominator.toNat)
    (h2 : 2 * (numerator.toNat % denominator.toNat) < 2 ^ 128)
    (h1 : numerator.toNat / denominator.toNat + 1 < 2 ^ 128) :
    (if 2 * (numerator % denominator) ≥ denominator then numerator / denominator + 1
      else numerator / denominator).toNat = roundDiv numerator.toNat denominator.toNat := by
  have hdouble : (2 * (numerator % denominator)).toNat
      = 2 * (numerator.toNat % denominator.toNat) := by
    rw [BitVec.toNat_mul, BitVec.toNat_umod]
    exact Nat.mod_eq_of_lt h2
  have hcarry : (numerator / denominator + 1).toNat
      = numerator.toNat / denominator.toNat + 1 := by
    rw [BitVec.toNat_add, BitVec.toNat_udiv]
    exact Nat.mod_eq_of_lt h1
  have hge : 2 * (numerator % denominator) ≥ denominator ↔
      denominator.toNat ≤ 2 * (numerator.toNat % denominator.toNat) := by
    rw [ge_iff_le, BitVec.le_def, hdouble]
  rw [roundDiv_eq_div_add _ hd]
  by_cases hhalf : denominator.toNat ≤ 2 * (numerator.toNat % denominator.toNat)
  · rw [if_pos (hge.mpr hhalf), if_pos hhalf]
    exact hcarry
  · rw [if_neg (hge.not.mpr hhalf), if_neg hhalf, BitVec.toNat_udiv, Nat.add_zero]

theorem checkedU64_eq (v : U128) :
    checkedU64 v =
      if v.toNat < 2 ^ 64 then .ok (BitVec.ofNat 64 v.toNat) else .error .resultDoesNotFit := by
  rw [checkedU64, tryFrom]
  split <;> rfl

theorem roundWithMin1_free (h : num.toNat = 0 ∨ value.toNat = 0) :
    roundWithMin1 value num den = .ok 0 := by
  rw [roundWithMin1, if_pos]
  simpa only [eq_zero_iff] using h

theorem roundWithMin1_division_by_zero (hv : value.toNat ≠ 0) (hn : num.toNat ≠ 0)
    (hden : den.toNat = 0) : roundWithMin1 value num den = .error .divisionByZero := by
  have h0 : ¬ (num = 0 ∨ value = 0) := by
    simp only [eq_zero_iff]
    omega
  rw [roundWithMin1, if_neg h0, rejectIf, if_pos (eq_zero_iff.mpr hden)]
  rfl

/-- **The fee, or `ResultDoesNotFit`.** -/
theorem roundWithMin1_eq (hv : value.toNat ≠ 0) (hn : num.toNat ≠ 0) (hden : den.toNat ≠ 0) :
    roundWithMin1 value num den =
      if flashFee value.toNat num.toNat den.toNat < 2 ^ 64 then
        .ok (BitVec.ofNat 64 (flashFee value.toNat num.toNat den.toNat))
      else .error .resultDoesNotFit := by
  obtain ⟨hprod, hdouble, hcarry⟩ : FlashFeeExact value num den := flashFeeExact hden
  have h0 : ¬ (num = 0 ∨ value = 0) := by
    simp only [eq_zero_iff]
    omega
  obtain ⟨p, hp, hpv⟩ := exists_checkedMul (a := U64.to128 value) (b := U64.to128 num)
    (by simpa using hprod)
  rw [U64.toNat_to128, U64.toNat_to128] at hpv
  rw [roundWithMin1, if_neg h0, rejectIf_of_not (by rwa [eq_zero_iff]), hp]
  rw [← hpv, ← U64.toNat_to128 den] at hdouble hcarry
  have hrounded := toNat_rounded (by rw [U64.toNat_to128]; omega) hdouble hcarry
  show checkedU64 (umax _ 1) = _
  rw [checkedU64_eq, toNat_umax, hrounded, hpv, U64.toNat_to128, Nat.max_comm]
  rfl

/-- What a fee that was returned is. -/
theorem roundWithMin1_eq_ok {fee : U64} :
    roundWithMin1 value num den = .ok fee ↔
      (num.toNat = 0 ∨ value.toNat = 0) ∧ fee.toNat = 0 ∨
      num.toNat ≠ 0 ∧ value.toNat ≠ 0 ∧ den.toNat ≠ 0 ∧
        fee.toNat = flashFee value.toNat num.toNat den.toNat := by
  by_cases h0 : num.toNat = 0 ∨ value.toNat = 0
  · rw [roundWithMin1_free h0, Except.ok.injEq, eq_comm, eq_zero_iff]
    omega
  · rw [not_or] at h0
    by_cases hden : den.toNat = 0
    · rw [roundWithMin1_division_by_zero h0.2 h0.1 hden]
      simp [h0, hden]
    · rw [roundWithMin1_eq h0.2 h0.1 hden]
      have hfee := fee.isLt
      split
      · rename_i hfit
        rw [Except.ok.injEq, ← BitVec.toNat_inj, BitVec.toNat_ofNat, Nat.mod_eq_of_lt hfit]
        omega
      · simp only [reduceCtorEq, false_iff]
        omega

/-- What any amount is charged at a rate, nothing included. -/
def flashCharge (value num den : Nat) : Nat :=
  if num = 0 ∨ value = 0 then 0 else flashFee value num den

/-- At a rate with a denominator, or at no rate, only the width of the result can fail. -/
theorem roundWithMin1_of_sound (h : num.toNat = 0 ∨ den.toNat ≠ 0) :
    roundWithMin1 value num den =
      if flashCharge value.toNat num.toNat den.toNat < 2 ^ 64 then
        .ok (BitVec.ofNat 64 (flashCharge value.toNat num.toNat den.toNat))
      else .error .resultDoesNotFit := by
  by_cases h0 : num.toNat = 0 ∨ value.toNat = 0
  · rw [roundWithMin1_free h0, flashCharge, if_pos h0, if_pos (Nat.two_pow_pos 64)]
    rfl
  · rw [flashCharge, if_neg h0]
    exact roundWithMin1_eq (by omega) (by omega) (by omega)

/-- **Fees are monotone in the rate**, compared by cross-multiplication. -/
theorem flashFee_le {value num den num' den' : Nat} (hden : 0 < den) (hden' : 0 < den')
    (h : num * den' ≤ num' * den) : flashFee value num den ≤ flashFee value num' den' := by
  refine max_le_max (Nat.le_refl 1) (roundDiv_le_of_cross hden hden' ?_)
  calc value * num * den' = value * (num * den') := Nat.mul_assoc ..
    _ ≤ value * (num' * den) := Nat.mul_le_mul_left _ h
    _ = value * num' * den := (Nat.mul_assoc ..).symm

/-! ### The lender's own computation -/

/-- `fixed::types::U68F60`. -/
abbrev Fraction := UFixed 128 60

/-- klend's fee on `amount` at a rate given by its bits.  `none` is an overflowing product,
or `BorrowTooSmall`: a fee of at least the amount. -/
def klendFlashFee (amount flashLoanFeeSf : U64) : Option U64 :=
  let rate : Fraction := ⟨U64.to128 flashLoanFeeSf⟩
  if UFixed.fromNum 60 (0 : U64) < rate ∧ amount > 0 then do
    let amountF : Fraction := UFixed.fromNum 60 amount
    let product ← UFixed.checkedMul amountF rate
    let feeF := product.max (UFixed.fromNum 60 (1 : U64))
    if amountF ≤ feeF then none else some (feeF.round.toNum 64)
  else some 0

/-- What klend charges, and when it charges anything. -/
theorem klendFlashFee_eq_some {amount sf fee : U64} :
    klendFlashFee amount sf = some fee ↔
      (sf.toNat = 0 ∨ amount.toNat = 0) ∧ fee.toNat = 0 ∨
      sf.toNat ≠ 0 ∧ amount.toNat ≠ 0 ∧
        max (amount.toNat * sf.toNat) (2 ^ 60) < amount.toNat * 2 ^ 60 ∧
        fee.toNat = roundDiv (max (amount.toNat * sf.toNat) (2 ^ 60)) (2 ^ 60) := by
  have hamount := amount.isLt
  have hsf := sf.isLt
  have hfits : amount.toNat * 2 ^ 60 < 2 ^ 128 := by omega
  have hzero : (UFixed.fromNum 60 (0 : U64) : Fraction).bits.toNat = 0 := rfl
  have hone : (UFixed.fromNum 60 (1 : U64) : Fraction).bits.toNat = 2 ^ 60 := rfl
  have hguard : (UFixed.fromNum 60 (0 : U64) < (⟨U64.to128 sf⟩ : Fraction) ∧ amount > 0) ↔
      sf.toNat ≠ 0 ∧ amount.toNat ≠ 0 := by
    rw [UFixed.lt_iff, hzero, gt_iff_lt, BitVec.lt_def, U64.toNat_to128]
    exact and_congr Nat.pos_iff_ne_zero Nat.pos_iff_ne_zero
  simp only [klendFlashFee, hguard]
  by_cases h : sf.toNat ≠ 0 ∧ amount.toNat ≠ 0
  swap
  · rw [if_neg h, Option.some.injEq, eq_comm, eq_zero_iff]
    omega
  rw [if_pos h]
  obtain ⟨p, hp, hpv⟩ := UFixed.checkedMul_fromNum (w := 128) (f := 60) (n := amount)
    (a := ⟨U64.to128 sf⟩) hfits (by rw [U64.toNat_to128]; exact U64.mul_lt amount sf)
  rw [hp, Option.bind_eq_bind, Option.bind_some]
  have hfee : (p.max (UFixed.fromNum 60 (1 : U64))).bits.toNat
      = max (amount.toNat * sf.toNat) (2 ^ 60) := by
    rw [UFixed.bits_max, hpv, hone, U64.toNat_to128]
  have hcmp : (UFixed.fromNum 60 amount : Fraction) ≤ p.max (UFixed.fromNum 60 (1 : U64)) ↔
      amount.toNat * 2 ^ 60 ≤ max (amount.toNat * sf.toNat) (2 ^ 60) := by
    rw [UFixed.le_iff, UFixed.bits_fromNum hfits, hfee]
  by_cases hlt : max (amount.toNat * sf.toNat) (2 ^ 60) < amount.toNat * 2 ^ 60
  · -- a fee below the amount rounds to at most the amount
    have hround : roundDiv (max (amount.toNat * sf.toNat) (2 ^ 60)) (2 ^ 60) ≤ amount.toNat := by
      have hone' := Nat.two_pow_pos 60
      calc roundDiv (max (amount.toNat * sf.toNat) (2 ^ 60)) (2 ^ 60)
          ≤ roundDiv (amount.toNat * 2 ^ 60) (2 ^ 60) := roundDiv_mono hone' (Nat.le_of_lt hlt)
        _ = amount.toNat := roundDiv_mul_self _ hone'
    have hwide : roundDiv (max (amount.toNat * sf.toNat) (2 ^ 60)) (2 ^ 60) * 2 ^ 60 < 2 ^ 128 :=
      Nat.lt_of_le_of_lt (Nat.mul_le_mul_right _ hround) hfits
    rw [← hfee] at hwide hround
    rw [if_neg (hcmp.not.mpr (Nat.not_le.mpr hlt)), Option.some.injEq, ← BitVec.toNat_inj,
      UFixed.toNat_toNum_round hwide (Nat.lt_of_le_of_lt hround hamount), hfee]
    generalize roundDiv (max (amount.toNat * sf.toNat) (2 ^ 60)) (2 ^ 60) = r
    constructor
    · rintro rfl
      exact .inr ⟨h.1, h.2, hlt, rfl⟩
    · rintro (⟨h0, -⟩ | ⟨-, -, -, hr⟩)
      · omega
      · exact hr.symm
  · rw [if_pos (by rw [hcmp]; omega)]
    simp only [reduceCtorEq, false_iff]
    omega

/-- `2 ^ 60`, the denominator of a rate in `U68F60`. -/
def FRACTION_ONE : U64 := 1152921504606846976

/-- **The fee is klend's bit for bit**, wherever klend charges one; and for any rate it is
the half-up quotient of at least one atom, or `ResultDoesNotFit`. -/
theorem flash_fee_equals_klend (value num : U64) :
    (∀ fee, klendFlashFee value num = some fee → roundWithMin1 value num FRACTION_ONE = .ok fee) ∧
    ∀ den : U64, value.toNat ≠ 0 → num.toNat ≠ 0 → den.toNat ≠ 0 →
      FlashFeeExact value num den ∧
      roundWithMin1 value num den =
        if max 1 ((2 * (value.toNat * num.toNat) + den.toNat) / (2 * den.toNat)) < 2 ^ 64 then
          .ok (BitVec.ofNat 64
            (max 1 ((2 * (value.toNat * num.toNat) + den.toNat) / (2 * den.toNat))))
        else .error .resultDoesNotFit := by
  refine ⟨?_, fun den hv hn hden => ⟨flashFeeExact hden, roundWithMin1_eq hv hn hden⟩⟩
  intro fee hfee
  have hone : FRACTION_ONE.toNat = 2 ^ 60 := rfl
  rw [roundWithMin1_eq_ok, hone]
  rcases klendFlashFee_eq_some.mp hfee with hfree | ⟨hn, hv, -, hfee⟩
  · exact .inl hfree
  · refine .inr ⟨hn, hv, by decide, ?_⟩
    -- klend clamps the fraction and rounds, the code rounds and clamps
    have hclamp := roundDiv_max (value.toNat * num.toNat) 1 (Nat.two_pow_pos 60)
    rw [Nat.one_mul] at hclamp
    rw [hfee, hclamp, Nat.max_comm]
    rfl

theorem flash_fee_equals_klend_tie :
    roundWithMin1 5 576460752303423488 FRACTION_ONE = .ok 3 ∧
      FlashFeeExact 5 576460752303423488 FRACTION_ONE :=
  ⟨(flash_fee_equals_klend 5 576460752303423488).1 3 (by decide +kernel),
    ((flash_fee_equals_klend 5 576460752303423488).2 FRACTION_ONE (by decide) (by decide)
      (by decide)).1⟩

end Roshi
