import Mathlib.Algebra.Order.Floor.Semifield
import Mathlib.Data.Rat.Floor
import Roshi.Math

/-!
# Converting asset atoms into base atoms

`base_atoms_from_asset_atoms` cancels the shared power of ten and divides once.  Both of
its branches divide `atoms * asset_value * 10 ^ (m - n)` by `base_value * 10 ^ (n - m)`,
with `m` and `n` the decimals of the two sides and subtraction stopping at zero, so they
are one case here: the function returns `exactBaseAtoms` exactly when `Convertible`
holds and the floor fits (`baseAtomsFromAssetAtoms_eq_ok`).

What follows from the exact floor is arithmetic: the result is monotone in the amount,
and restating a price at another scale changes nothing.
-/

namespace Roshi

open Lib

variable {a a' v v' : U64} {p q p' q' : OraclePrice} {d e : U8}

/-! ### The exact quotient -/

/-- Decimals on the numerator's side: the base atoms and the base price. -/
def numeratorExp (basePrice : OraclePrice) (baseDecimals : U8) : Nat :=
  baseDecimals.toNat + basePrice.decimals.toNat

/-- Decimals on the denominator's side: the asset atoms and the asset price. -/
def denominatorExp (assetPrice : OraclePrice) (assetDecimals : U8) : Nat :=
  assetDecimals.toNat + assetPrice.decimals.toNat

/-- The floor of the two-leg price of `a` asset atoms. -/
def exactBaseAtoms (a : U64) (p q : OraclePrice) (d e : U8) : Nat :=
  a.toNat * p.value.toNat * 10 ^ numeratorExp q e / (q.value.toNat * 10 ^ denominatorExp p d)

/-- What the computation needs on the way: a base price, a scale within `u128`, and
products within `u128`. -/
structure Convertible (a : U64) (p q : OraclePrice) (d e : U8) : Prop where
  base_ne : q.value.toNat ≠ 0
  scale_le : numeratorExp q e - denominatorExp p d ≤ 38 ∧
    denominatorExp p d - numeratorExp q e ≤ 38
  scaled_lt : a.toNat * p.value.toNat < 2 ^ 128
  numerator_lt :
    a.toNat * p.value.toNat * 10 ^ (numeratorExp q e - denominatorExp p d) < 2 ^ 128
  denominator_lt : q.value.toNat * 10 ^ (denominatorExp p d - numeratorExp q e) < 2 ^ 128

/-- Cancelling the shared power of ten. -/
theorem div_cancel_pow10 (x y m n : Nat) :
    x * 10 ^ (m - n) / (y * 10 ^ (n - m)) = x * 10 ^ m / (y * 10 ^ n) := by
  have hm : 10 ^ m = 10 ^ (m - n) * 10 ^ min m n := by
    rw [← pow_add]
    congr 1
    omega
  have hn : 10 ^ n = 10 ^ (n - m) * 10 ^ min m n := by
    rw [← pow_add]
    congr 1
    omega
  rw [hm, hn, ← Nat.mul_assoc, ← Nat.mul_assoc,
    Nat.mul_div_mul_right _ _ (Nat.pow_pos (by decide))]

/-- A power of ten fits in `u128` up to the 38th. -/
theorem pow10_lt_iff {n : Nat} : 10 ^ n < 2 ^ 128 ↔ n ≤ 38 := by
  constructor
  · intro h
    by_contra hn
    have h39 : 10 ^ 39 ≤ 10 ^ n := Nat.pow_le_pow_right (by decide) (by omega)
    have h128 : 2 ^ 128 < 10 ^ 39 := by norm_num
    omega
  · intro h
    have h38 : 10 ^ n ≤ 10 ^ 38 := Nat.pow_le_pow_right (by decide) h
    have h128 : 10 ^ 38 < 2 ^ 128 := by norm_num
    omega

/-- Scaling fails only past the 38th power; `u8` is wide enough for any other exponent. -/
theorem pow10_netDecimals_eq_ok {n : Nat} {scale : U128} (hn : n < 2 ^ 32) :
    (netDecimals n >>= pow10) = .ok scale ↔ n ≤ 38 ∧ scale.toNat = 10 ^ n := by
  have hscale := scale.isLt
  simp only [netDecimals, bind_eq_ok, okOr_eq_ok, tryFrom_eq_some, pow10_eq_ok,
    BitVec.toNat_ofNat, Nat.mod_eq_of_lt hn]
  constructor
  · rintro ⟨x, hx, hs⟩
    rw [hx] at hs
    exact ⟨pow10_lt_iff.mp (by omega), hs⟩
  · rintro ⟨h38, hs⟩
    obtain ⟨x, hx⟩ := exists_toNat_eq (w := 8) (n := n) (by omega)
    exact ⟨x, hx, by rw [hx, hs]⟩

theorem numeratorExp_lt (q : OraclePrice) (e : U8) : numeratorExp q e < 2 ^ 32 := by
  have h1 := e.isLt
  have h2 := q.decimals.isLt
  rw [numeratorExp]
  omega

theorem denominatorExp_lt (p : OraclePrice) (d : U8) : denominatorExp p d < 2 ^ 32 :=
  numeratorExp_lt p d

/-- The branch with the surplus of decimals above the fraction bar. -/
theorem scaleUp_eq_ok {scaled base : U128} {n : Nat} (hn : n < 2 ^ 32) :
    (do
      let scale ← pow10 (← netDecimals n)
      checkedU64 (← mulDivFloor scaled scale base)) = .ok v ↔
      n ≤ 38 ∧ base.toNat ≠ 0 ∧ scaled.toNat * 10 ^ n < 2 ^ 128 ∧
        v.toNat = scaled.toNat * 10 ^ n / base.toNat := by
  rw [← bind_assoc]
  simp only [bind_eq_ok (x := netDecimals n >>= pow10), pow10_netDecimals_eq_ok hn, bind_eq_ok,
    mulDivFloor_eq_ok, checkedU64_eq_ok]
  constructor
  · rintro ⟨scale, ⟨h38, hs⟩, r, ⟨hb, hlt, hr⟩, hv⟩
    rw [hs] at hlt hr
    exact ⟨h38, hb, hlt, hv.trans hr⟩
  · rintro ⟨h38, hb, hlt, hv⟩
    obtain ⟨scale, hs⟩ := exists_toNat_eq (pow10_lt_iff.mpr h38)
    refine ⟨scale, ⟨h38, hs⟩, U64.to128 v, ?_, (U64.toNat_to128 v).symm⟩
    rw [hs, U64.toNat_to128]
    exact ⟨hb, hlt, hv⟩

/-- The branch with the surplus below it. -/
theorem scaleDown_eq_ok {scaled base : U128} {n : Nat} (hn : n < 2 ^ 32) :
    (do
      let scale ← pow10 (← netDecimals n)
      let denominator ← okOr (checkedMul base scale) .overflow
      checkedU64 (scaled / denominator)) = .ok v ↔
      n ≤ 38 ∧ base.toNat * 10 ^ n < 2 ^ 128 ∧
        v.toNat = scaled.toNat / (base.toNat * 10 ^ n) := by
  rw [← bind_assoc]
  simp only [bind_eq_ok (x := netDecimals n >>= pow10), pow10_netDecimals_eq_ok hn, bind_eq_ok,
    okOr_eq_ok, checkedMul_eq_some, checkedU64_eq_ok, BitVec.toNat_udiv]
  constructor
  · rintro ⟨scale, ⟨h38, hs⟩, denominator, hden, hv⟩
    have hlt := denominator.isLt
    rw [hs] at hden
    rw [hden] at hlt hv
    exact ⟨h38, hlt, hv⟩
  · rintro ⟨h38, hlt, hv⟩
    obtain ⟨scale, hs⟩ := exists_toNat_eq (pow10_lt_iff.mpr h38)
    obtain ⟨denominator, hden⟩ := exists_toNat_eq hlt
    exact ⟨scale, ⟨h38, hs⟩, denominator, by rw [hden, hs], by rw [hden, hv]⟩

/-- **The exact floor**, returned whenever the products fit and the floor does. -/
theorem baseAtomsFromAssetAtoms_eq_ok :
    baseAtomsFromAssetAtoms a p q d e = .ok v ↔
      Convertible a p q d e ∧ v.toNat = exactBaseAtoms a p q d e := by
  have hm := numeratorExp_lt q e
  have hn := denominatorExp_lt p d
  have hq := q.value.isLt
  have hexact := div_cancel_pow10 (a.toNat * p.value.toNat) q.value.toNat (numeratorExp q e)
    (denominatorExp p d)
  rw [exactBaseAtoms, ← hexact, baseAtomsFromAssetAtoms]
  simp only [bind_eq_ok (x := rejectIf _ _), bind_eq_ok (x := okOr _ _), rejectIf_eq_ok,
    exists_const, okOr_eq_ok, checkedMul_eq_some, eq_zero_iff, U64.toNat_to128]
  rw [← numeratorExp, ← denominatorExp]
  by_cases hge : numeratorExp q e ≥ denominatorExp p d
  · -- the surplus is above the bar: the power below it is `10 ^ 0`
    have h0 : denominatorExp p d - numeratorExp q e = 0 := by omega
    have hlt32 : numeratorExp q e - denominatorExp p d < 2 ^ 32 := by omega
    simp only [if_pos hge, scaleUp_eq_ok hlt32]
    rw [h0, pow_zero, Nat.mul_one]
    constructor
    · rintro ⟨hb, scaled, hscaled, h38, -, hlt, hv⟩
      have hs := scaled.isLt
      rw [hscaled] at hs hlt hv
      refine ⟨⟨hb, ⟨h38, by omega⟩, hs, hlt, ?_⟩, hv⟩
      rwa [h0, pow_zero, Nat.mul_one]
    · rintro ⟨hc, hv⟩
      obtain ⟨scaled, hscaled⟩ := exists_toNat_eq hc.scaled_lt
      refine ⟨hc.base_ne, scaled, hscaled, hc.scale_le.1, hc.base_ne, ?_, ?_⟩
      · rw [hscaled]
        exact hc.numerator_lt
      · rw [hscaled, hv]
  · have h0 : numeratorExp q e - denominatorExp p d = 0 := by omega
    have hlt32 : denominatorExp p d - numeratorExp q e < 2 ^ 32 := by omega
    simp only [if_neg hge, scaleDown_eq_ok hlt32]
    rw [h0, pow_zero, Nat.mul_one]
    constructor
    · rintro ⟨hb, scaled, hscaled, h38, hlt, hv⟩
      have hs := scaled.isLt
      rw [hscaled] at hs hv
      refine ⟨⟨hb, ⟨by omega, h38⟩, hs, ?_, hlt⟩, hv⟩
      rwa [h0, pow_zero, Nat.mul_one]
    · rintro ⟨hc, hv⟩
      obtain ⟨scaled, hscaled⟩ := exists_toNat_eq hc.scaled_lt
      refine ⟨hc.base_ne, scaled, hscaled, hc.scale_le.2, hc.denominator_lt, ?_⟩
      rw [hscaled, hv]

/-! ### Consequences -/

/-- Nothing is worth nothing. -/
theorem baseAtomsFromAssetAtoms_zero (h : baseAtomsFromAssetAtoms a p q d e = .ok v)
    (ha : a.toNat = 0) : v.toNat = 0 := by
  rw [(baseAtomsFromAssetAtoms_eq_ok.mp h).2, exactBaseAtoms, ha, Nat.zero_mul, Nat.zero_mul,
    Nat.zero_div]

/-- More atoms are never worth less. -/
theorem exactBaseAtoms_mono (h : a.toNat ≤ a'.toNat) :
    exactBaseAtoms a p q d e ≤ exactBaseAtoms a' p q d e :=
  Nat.div_le_div_right (Nat.mul_le_mul_right _ (Nat.mul_le_mul_right _ h))

/-- `p'` is `p` at another scale: `k` more decimals and a value `10 ^ k` times as large. -/
structure OraclePrice.Restated (k : Nat) (p p' : OraclePrice) : Prop where
  value : p'.value.toNat = p.value.toNat * 10 ^ k
  decimals : p'.decimals.toNat = p.decimals.toNat + k

/-- Restating the asset leg adds the power of ten above and below the bar. -/
theorem exactBaseAtoms_restate_asset {k : Nat} (h : p.Restated k p') :
    exactBaseAtoms a p' q d e = exactBaseAtoms a p q d e := by
  have hexp : denominatorExp p' d = denominatorExp p d + k := by
    rw [denominatorExp, denominatorExp, h.decimals, Nat.add_assoc]
  have hpos : 0 < 10 ^ k := Nat.pow_pos (by decide)
  rw [exactBaseAtoms, exactBaseAtoms, hexp, h.value, pow_add, ← Nat.mul_assoc, ← Nat.mul_assoc,
    Nat.mul_right_comm _ (10 ^ k), Nat.mul_div_mul_right _ _ hpos]

/-- Restating the base leg does too. -/
theorem exactBaseAtoms_restate_base {k : Nat} (h : q.Restated k q') :
    exactBaseAtoms a p q' d e = exactBaseAtoms a p q d e := by
  have hexp : numeratorExp q' e = numeratorExp q e + k := by
    rw [numeratorExp, numeratorExp, h.decimals, Nat.add_assoc]
  have hpos : 0 < 10 ^ k := Nat.pow_pos (by decide)
  rw [exactBaseAtoms, exactBaseAtoms, hexp, h.value, pow_add, ← Nat.mul_assoc,
    Nat.mul_right_comm q.value.toNat, Nat.mul_div_mul_right _ _ hpos]

/-! ### The exact value -/

/-- The price as a number. -/
def OraclePrice.rate (p : OraclePrice) : ℚ := p.value.toNat / 10 ^ p.decimals.toNat

@[simp] theorem OraclePrice.rate_UNIT : OraclePrice.UNIT.rate = 1 := by
  rw [OraclePrice.rate, show OraclePrice.UNIT.value.toNat = 1 from rfl,
    show OraclePrice.UNIT.decimals.toNat = 0 from rfl]
  norm_num

/-- What `a` asset atoms are worth in base atoms, before rounding. -/
def exactValue (a : U64) (assetRate baseRate : ℚ) (assetDecimals baseDecimals : U8) : ℚ :=
  a.toNat * assetRate / baseRate * 10 ^ ((baseDecimals.toNat : ℤ) - assetDecimals.toNat)

theorem exactValue_eq_div (hq : q.value.toNat ≠ 0) :
    exactValue a p.rate q.rate d e =
      ((a.toNat * p.value.toNat * 10 ^ numeratorExp q e : Nat) : ℚ) /
        ((q.value.toNat * 10 ^ denominatorExp p d : Nat) : ℚ) := by
  have hq : (q.value.toNat : ℚ) ≠ 0 := Nat.cast_ne_zero.mpr hq
  rw [exactValue, OraclePrice.rate, OraclePrice.rate, numeratorExp, denominatorExp,
    zpow_sub₀ (by norm_num), zpow_natCast, zpow_natCast]
  push_cast
  rw [pow_add, pow_add]
  field_simp

/-- The conversion is the floor of the exact value. -/
theorem exactBaseAtoms_eq_floor (hq : q.value.toNat ≠ 0) :
    exactBaseAtoms a p q d e = ⌊exactValue a p.rate q.rate d e⌋₊ := by
  rw [exactValue_eq_div hq, Nat.floor_div_eq_div]
  rfl

/-- A conversion that was returned is within one atom of the exact value. -/
theorem baseAtomsFromAssetAtoms_within (h : baseAtomsFromAssetAtoms a p q d e = .ok v) :
    (v.toNat : ℚ) ≤ exactValue a p.rate q.rate d e ∧
      exactValue a p.rate q.rate d e < v.toNat + 1 := by
  obtain ⟨hc, hv⟩ := baseAtomsFromAssetAtoms_eq_ok.mp h
  have hnonneg : 0 ≤ exactValue a p.rate q.rate d e := by
    rw [exactValue_eq_div hc.base_ne]
    positivity
  rw [hv, exactBaseAtoms_eq_floor hc.base_ne]
  exact ⟨Nat.floor_le hnonneg, Nat.lt_floor_add_one _⟩

/-- **Asset pricing is the exact floor.**  An error means that the base has no price, that
the net exponent exceeds 38, that a product exceeds `u128`, or that the floor exceeds `u64`. -/
theorem asset_pricing_exact_floor (a : U64) (p q : OraclePrice) (d e : U8) :
    (∀ v, baseAtomsFromAssetAtoms a p q d e = .ok v → v.toNat = exactBaseAtoms a p q d e) ∧
    (∀ err, baseAtomsFromAssetAtoms a p q d e = .error err →
      q.value.toNat = 0 ∨
      (38 < numeratorExp q e - denominatorExp p d ∨
        38 < denominatorExp p d - numeratorExp q e) ∨
      (2 ^ 128 ≤ a.toNat * p.value.toNat ∨
        2 ^ 128 ≤ a.toNat * p.value.toNat * 10 ^ (numeratorExp q e - denominatorExp p d) ∨
        2 ^ 128 ≤ q.value.toNat * 10 ^ (denominatorExp p d - numeratorExp q e)) ∨
      2 ^ 64 ≤ exactBaseAtoms a p q d e) ∧
    (∀ a' v v', a.toNat ≤ a'.toNat → baseAtomsFromAssetAtoms a p q d e = .ok v →
      baseAtomsFromAssetAtoms a' p q d e = .ok v' → v.toNat ≤ v'.toNat) ∧
    (∀ k p' v v', p.Restated k p' → baseAtomsFromAssetAtoms a p q d e = .ok v →
      baseAtomsFromAssetAtoms a p' q d e = .ok v' → v' = v) ∧
    ∀ k q' v v', q.Restated k q' → baseAtomsFromAssetAtoms a p q d e = .ok v →
      baseAtomsFromAssetAtoms a p q' d e = .ok v' → v' = v := by
  have hval : ∀ {a p q v}, baseAtomsFromAssetAtoms a p q d e = .ok v →
      v.toNat = exactBaseAtoms a p q d e := fun h => (baseAtomsFromAssetAtoms_eq_ok.mp h).2
  refine ⟨fun v h => hval h, ?_, ?_, ?_, ?_⟩
  · intro err herr
    by_contra hnone
    simp only [not_or, Nat.not_le, Nat.not_lt] at hnone
    obtain ⟨hb, hscale, ⟨hscaled, hnum, hden⟩, hfit⟩ := hnone
    obtain ⟨v, hv⟩ := exists_toNat_eq hfit
    rw [baseAtomsFromAssetAtoms_eq_ok.mpr ⟨⟨hb, hscale, hscaled, hnum, hden⟩, hv⟩] at herr
    cases herr
  · intro a' v v' hle h h'
    rw [hval h, hval h']
    exact exactBaseAtoms_mono hle
  · intro k p' v v' hp h h'
    rw [← BitVec.toNat_inj, hval h, hval h', exactBaseAtoms_restate_asset hp]
  · intro k q' v v' hq h h'
    rw [← BitVec.toNat_inj, hval h, hval h', exactBaseAtoms_restate_base hq]

/-- 1500 atoms of a 6-decimal asset at 2.5, in a 9-decimal base at 1.25. -/
theorem asset_pricing_exact_floor_two_legs :
    BitVec.toNat (3000000 : U64) = exactBaseAtoms 1500 ⟨25, 1⟩ ⟨125, 2⟩ 6 9 :=
  (asset_pricing_exact_floor 1500 ⟨25, 1⟩ ⟨125, 2⟩ 6 9).1 3000000 (by decide +kernel)

end Roshi
