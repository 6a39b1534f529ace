import Roshi.Basic

/-!
# Integer accounting math

`math.rs`.  Amounts are `u64`, products are taken in `u128` and divided once;
every function is characterised by an `_eq_ok` lemma over the naturals, which is
the only thing the rest of the development uses of it.

The pool is priced at `(total_assets + 1) / (total_shares + V)` with
`V = 10 ^ (9 - base_decimals)` (`virtualShares`): deposits mint
`⌊b (S + V) / (A + 1)⌋` shares, redemptions pay `⌊s (A + 1) / (S + V)⌋` atoms.
-/

namespace Roshi

open Lib

/-- A verified oracle price: `value / 10 ^ decimals` quote units per whole token. -/
structure OraclePrice where
  value : U128
  decimals : U8
  deriving DecidableEq, Repr

def SHARE_DECIMALS : U8 := 9

def BPS_DENOMINATOR : U16 := 10000

/-- `OraclePrice::UNIT`. -/
def OraclePrice.UNIT : OraclePrice := { value := 1, decimals := 0 }

/-! ### Products and quotients -/

def pow10 (decimals : U8) : MathResult U128 :=
  okOr (checkedPow 10 decimals.toNat) .invalidDecimals

def mulDivFloor (lhs rhs denominator : U128) : MathResult U128 := do
  rejectIf (denominator = 0) .divisionByZero
  let product ← okOr (checkedMul lhs rhs) .overflow
  .ok (product / denominator)

def mulDivCeil (lhs rhs denominator : U128) : MathResult U128 := do
  rejectIf (denominator = 0) .divisionByZero
  let product ← okOr (checkedMul lhs rhs) .overflow
  let quotient := product / denominator
  if product % denominator = 0 then .ok quotient else okOr (checkedAdd quotient 1) .overflow

def checkedU64 (value : U128) : MathResult U64 :=
  okOr (tryFrom 64 value) .resultDoesNotFit

def mulDivFloorU64 (lhs rhs denominator : U64) : MathResult U64 := do
  let value ← mulDivFloor (U64.to128 lhs) (U64.to128 rhs) (U64.to128 denominator)
  checkedU64 value

def mulDivCeilU64 (lhs rhs denominator : U64) : MathResult U64 := do
  let value ← mulDivCeil (U64.to128 lhs) (U64.to128 rhs) (U64.to128 denominator)
  checkedU64 value

/-- The flash-loan fee: `round_half_up(value * num / den)`, at least one atom
once anything is charged. -/
def roundWithMin1 (value num den : U64) : MathResult U64 :=
  if num = 0 ∨ value = 0 then .ok 0
  else do
    rejectIf (den = 0) .divisionByZero
    let numerator ← okOr (checkedMul (U64.to128 value) (U64.to128 num)) .overflow
    let denominator := U64.to128 den
    let quotient := numerator / denominator
    let remainder := numerator % denominator
    let rounded := if 2 * remainder ≥ denominator then quotient + 1 else quotient
    checkedU64 (umax rounded 1)

def bpsFloor (amount : U64) (bps : U16) : MathResult U64 :=
  mulDivFloorU64 amount (U16.to64 bps) (U16.to64 BPS_DENOMINATOR)

def bpsCeil (amount : U64) (bps : U16) : MathResult U64 :=
  mulDivCeilU64 amount (U16.to64 bps) (U16.to64 BPS_DENOMINATOR)

def validatePercentageBps (bps : U16) : MathResult Unit :=
  rejectIf (bps > BPS_DENOMINATOR) .invalidBps

/-! ### Oracle conversion -/

def netDecimals (exponent : Nat) : MathResult U8 :=
  okOr (tryFrom 8 (BitVec.ofNat 32 exponent)) .invalidDecimals

/-- Floor-rounded base atoms for `assetAtoms`, priced through two whole-token
legs that share a quote currency.  The exponents are sums of two `u8`s, hence
kept as naturals. -/
def baseAtomsFromAssetAtoms (assetAtoms : U64) (assetPrice basePrice : OraclePrice)
    (assetDecimals baseDecimals : U8) : MathResult U64 := do
  rejectIf (basePrice.value = 0) .divisionByZero
  let numeratorExp := baseDecimals.toNat + basePrice.decimals.toNat
  let denominatorExp := assetDecimals.toNat + assetPrice.decimals.toNat
  let scaledAtoms ← okOr (checkedMul (U64.to128 assetAtoms) assetPrice.value) .overflow
  if numeratorExp ≥ denominatorExp then do
    let scale ← pow10 (← netDecimals (numeratorExp - denominatorExp))
    checkedU64 (← mulDivFloor scaledAtoms scale basePrice.value)
  else do
    let scale ← pow10 (← netDecimals (denominatorExp - numeratorExp))
    let denominator ← okOr (checkedMul basePrice.value scale) .overflow
    checkedU64 (scaledAtoms / denominator)

/-! ### Share pricing -/

/-- The virtual share supply backing one virtual base atom. -/
def virtualShareOffset (baseDecimals : U8) : MathResult U128 := do
  let delta ← okOr (checkedSub SHARE_DECIMALS baseDecimals) .invalidDecimals
  pow10 delta

def checkedNonzeroU64 (value : U128) : MathResult U64 := do
  let value ← checkedU64 value
  rejectIf (value = 0) .zeroOutput
  .ok value

def sharesForDeposit (baseAtoms totalAssets totalShares : U64) (baseDecimals : U8) :
    MathResult U64 := do
  let virtualShares ← virtualShareOffset baseDecimals
  let shares ← mulDivFloor (U64.to128 baseAtoms) (U64.to128 totalShares + virtualShares)
    (U64.to128 totalAssets + 1)
  checkedNonzeroU64 shares

/-- Floor-rounded base value of `shares`; zero is a valid result. -/
def assetsForShares (shares totalAssets totalShares : U64) (baseDecimals : U8) :
    MathResult U64 := do
  rejectIf (shares > totalShares) .invalidVaultState
  let virtualShares ← virtualShareOffset baseDecimals
  let assets ← mulDivFloor (U64.to128 shares) (U64.to128 totalAssets + 1)
    (U64.to128 totalShares + virtualShares)
  checkedU64 assets

def assetsForRedeem (shares totalAssets totalShares : U64) (baseDecimals : U8) :
    MathResult U64 := do
  let assets ← assetsForShares shares totalAssets totalShares baseDecimals
  rejectIf (assets = 0) .zeroOutput
  .ok assets

def sharePriceFromAssets (totalAssets totalShares : U64) : MathResult U64 := do
  rejectIf (totalShares = 0) .invalidVaultState
  let shareScale ← pow10 SHARE_DECIMALS
  let sharePrice ← mulDivFloor (U64.to128 totalAssets) shareScale (U64.to128 totalShares)
  checkedU64 sharePrice

/-- `(fee_assets, net_total_assets, high_watermark)`. -/
def performanceFeeForNav (grossTotalAssets totalShares highWatermark : U64)
    (performanceFeeBps : U16) : MathResult (U64 × U64 × U64) := do
  validatePercentageBps performanceFeeBps
  if totalShares = 0 then .ok (0, grossTotalAssets, highWatermark)
  else do
    let grossSharePrice ← sharePriceFromAssets grossTotalAssets totalShares
    if highWatermark = 0 ∨ grossSharePrice ≤ highWatermark ∨ performanceFeeBps = 0 then
      .ok (0, grossTotalAssets, umax highWatermark grossSharePrice)
    else do
      let shareScale ← pow10 SHARE_DECIMALS
      let highWatermarkAssets ←
        checkedU64 (← mulDivCeil (U64.to128 highWatermark) (U64.to128 totalShares) shareScale)
      let profitAssets ← okOr (checkedSub grossTotalAssets highWatermarkAssets) .overflow
      let feeAssets ← bpsFloor profitAssets performanceFeeBps
      let netTotalAssets ← okOr (checkedSub grossTotalAssets feeAssets) .overflow
      let netSharePrice ← sharePriceFromAssets netTotalAssets totalShares
      .ok (feeAssets, netTotalAssets, umax highWatermark netSharePrice)

/-! ### What each function returns -/

theorem BPS_DENOMINATOR_toNat : BPS_DENOMINATOR.toNat = 10000 := rfl

@[simp] theorem pow10_eq_ok {d : U8} {v : U128} : pow10 d = .ok v ↔ v.toNat = 10 ^ d.toNat := by
  rw [pow10, okOr_eq_ok, checkedPow_eq_some]
  rfl

theorem mulDivFloor_eq_ok {a b d q : U128} :
    mulDivFloor a b d = .ok q ↔
      d.toNat ≠ 0 ∧ a.toNat * b.toNat < 2 ^ 128 ∧ q.toNat = a.toNat * b.toNat / d.toNat := by
  simp only [mulDivFloor, bind_eq_ok, rejectIf_eq_ok, okOr_eq_ok, checkedMul_eq_some,
    Except.ok.injEq, exists_const, eq_zero_iff]
  constructor
  · rintro ⟨hd, p, hp, rfl⟩
    exact ⟨hd, hp ▸ p.isLt, by rw [BitVec.toNat_udiv, hp]⟩
  · rintro ⟨hd, hlt, hq⟩
    obtain ⟨p, _, hp⟩ := exists_checkedMul hlt
    exact ⟨hd, p, hp, BitVec.toNat_inj.mp (by rw [BitVec.toNat_udiv, hp, hq])⟩

theorem checkedU64_eq_ok {v : U128} {c : U64} : checkedU64 v = .ok c ↔ c.toNat = v.toNat := by
  rw [checkedU64, okOr_eq_ok, tryFrom_eq_some]

theorem checkedNonzeroU64_eq_ok {v : U128} {c : U64} :
    checkedNonzeroU64 v = .ok c ↔ c.toNat = v.toNat ∧ c.toNat ≠ 0 := by
  simp only [checkedNonzeroU64, bind_eq_ok, rejectIf_eq_ok, exists_const, Except.ok.injEq,
    checkedU64_eq_ok, eq_zero_iff]
  constructor
  · rintro ⟨c, h, h0, rfl⟩
    exact ⟨h, h0⟩
  · rintro ⟨h, h0⟩
    exact ⟨c, h, h0, rfl⟩

theorem mulDivCeil_eq_ok {a b d q : U128} :
    mulDivCeil a b d = .ok q ↔
      d.toNat ≠ 0 ∧ a.toNat * b.toNat < 2 ^ 128 ∧
        q.toNat = a.toNat * b.toNat ⌈/⌉ d.toNat := by
  simp only [mulDivCeil, bind_eq_ok, rejectIf_eq_ok, okOr_eq_ok, checkedMul_eq_some,
    exists_const, eq_zero_iff]
  -- the quotient never needs the carry when it is itself near `2 ^ 128`
  have key : ∀ p : U128, d.toNat ≠ 0 → p.toNat = a.toNat * b.toNat →
      ((if (p % d).toNat = 0 then Except.ok (p / d)
        else okOr (checkedAdd (p / d) 1) RoshiError.overflow) = .ok q ↔
      q.toNat = a.toNat * b.toNat ⌈/⌉ d.toNat) := by
    intro p hd hp
    rw [← hp, ceilDiv_eq_div_add _ hd, BitVec.toNat_umod]
    split
    · rw [Except.ok.injEq, ← BitVec.toNat_inj, BitVec.toNat_udiv, Nat.add_zero]
      exact eq_comm
    · rw [okOr_eq_ok, checkedAdd_eq_some, BitVec.toNat_udiv]
      rfl
  constructor
  · rintro ⟨hd, p, hp, h⟩
    exact ⟨hd, hp ▸ p.isLt, (key p hd hp).mp h⟩
  · rintro ⟨hd, hlt, hq⟩
    obtain ⟨p, _, hp⟩ := exists_checkedMul hlt
    exact ⟨hd, p, hp, (key p hd hp).mpr hq⟩

theorem mulDivFloorU64_eq_ok {a b d q : U64} :
    mulDivFloorU64 a b d = .ok q ↔ d.toNat ≠ 0 ∧ q.toNat = a.toNat * b.toNat / d.toNat := by
  have hab := U64.mul_lt a b
  simp only [mulDivFloorU64, bind_eq_ok, mulDivFloor_eq_ok, checkedU64_eq_ok, U64.toNat_to128]
  constructor
  · rintro ⟨v, ⟨hd, -, hv⟩, hq⟩
    exact ⟨hd, hq.trans hv⟩
  · rintro ⟨hd, hq⟩
    refine ⟨U64.to128 q, ⟨hd, hab, ?_⟩, ?_⟩ <;> simp [hq]

theorem mulDivCeilU64_eq_ok {a b d q : U64} :
    mulDivCeilU64 a b d = .ok q ↔ d.toNat ≠ 0 ∧ q.toNat = a.toNat * b.toNat ⌈/⌉ d.toNat := by
  have hab := U64.mul_lt a b
  simp only [mulDivCeilU64, bind_eq_ok, mulDivCeil_eq_ok, checkedU64_eq_ok, U64.toNat_to128]
  constructor
  · rintro ⟨v, ⟨hd, -, hv⟩, hq⟩
    exact ⟨hd, hq.trans hv⟩
  · rintro ⟨hd, hq⟩
    refine ⟨U64.to128 q, ⟨hd, hab, ?_⟩, ?_⟩ <;> simp [hq]

theorem bpsFloor_eq_ok {a q : U64} {bps : U16} :
    bpsFloor a bps = .ok q ↔ q.toNat = a.toNat * bps.toNat / 10000 := by
  rw [bpsFloor, mulDivFloorU64_eq_ok, U16.toNat_to64, U16.toNat_to64, BPS_DENOMINATOR_toNat]
  exact and_iff_right (by decide)

theorem bpsCeil_eq_ok {a q : U64} {bps : U16} :
    bpsCeil a bps = .ok q ↔ q.toNat = a.toNat * bps.toNat ⌈/⌉ 10000 := by
  rw [bpsCeil, mulDivCeilU64_eq_ok, U16.toNat_to64, U16.toNat_to64, BPS_DENOMINATOR_toNat]
  exact and_iff_right (by decide)

theorem validatePercentageBps_eq_ok {bps : U16} {u : Unit} :
    validatePercentageBps bps = .ok u ↔ bps.toNat ≤ 10000 := by
  rw [validatePercentageBps, rejectIf_eq_ok, gt_iff_lt, BitVec.lt_def, BPS_DENOMINATOR_toNat,
    Nat.not_lt]

/-! ### What the pricing functions return -/

/-- The virtual share offset as a number. -/
def virtualShares (baseDecimals : U8) : Nat := 10 ^ (9 - baseDecimals.toNat)

theorem virtualShares_pos (d : U8) : 0 < virtualShares d := Nat.pow_pos (by decide)

theorem virtualShares_le (d : U8) : virtualShares d ≤ 10 ^ 9 :=
  Nat.pow_le_pow_right (by decide) (by omega)

theorem virtualShareOffset_eq_ok {d : U8} {v : U128} :
    virtualShareOffset d = .ok v ↔ d.toNat ≤ 9 ∧ v.toNat = virtualShares d := by
  simp only [virtualShareOffset, bind_eq_ok, okOr_eq_ok, checkedSub_eq_some, pow10_eq_ok,
    virtualShares]
  have h9 : SHARE_DECIMALS.toNat = 9 := rfl
  rw [h9]
  constructor
  · rintro ⟨delta, h, hv⟩
    exact ⟨by omega, by rw [hv]; congr 1; omega⟩
  · rintro ⟨hd, hv⟩
    obtain ⟨delta, -, h⟩ := exists_checkedSub (a := SHARE_DECIMALS) (b := d) (by omega)
    exact ⟨delta, by omega, by rw [hv]; congr 1; omega⟩

/-- Adding the offset to a `u64` stays far inside `u128`. -/
theorem toNat_add_offset {x : U64} {v : U128} (hv : v.toNat ≤ 10 ^ 9) :
    (U64.to128 x + v).toNat = x.toNat + v.toNat := by
  have hx := x.isLt
  rw [BitVec.toNat_add, U64.toNat_to128, Nat.mod_eq_of_lt (by omega)]

theorem sharesForDeposit_eq_ok {b A S s : U64} {d : U8} :
    sharesForDeposit b A S d = .ok s ↔
      d.toNat ≤ 9 ∧ b.toNat * (S.toNat + virtualShares d) < 2 ^ 128 ∧ s.toNat ≠ 0 ∧
        s.toNat = b.toNat * (S.toNat + virtualShares d) / (A.toNat + 1) := by
  have hV := virtualShares_le d
  have hA : (U64.to128 A + 1).toNat = A.toNat + 1 := toNat_add_offset (by decide)
  simp only [sharesForDeposit, bind_eq_ok, virtualShareOffset_eq_ok, mulDivFloor_eq_ok,
    checkedNonzeroU64_eq_ok, hA, U64.toNat_to128]
  constructor
  · rintro ⟨v, ⟨hd, hv⟩, q, ⟨-, hlt, hq⟩, hs, h0⟩
    rw [toNat_add_offset (by omega), hv] at hlt hq
    exact ⟨hd, hlt, h0, hs.trans hq⟩
  · rintro ⟨hd, hlt, h0, hs⟩
    have hv : (BitVec.ofNat 128 (virtualShares d)).toNat = virtualShares d := by
      rw [BitVec.toNat_ofNat, Nat.mod_eq_of_lt (by omega)]
    refine ⟨_, ⟨hd, hv⟩, U64.to128 s, ?_, U64.toNat_to128 s ▸ rfl, h0⟩
    rw [toNat_add_offset (by omega), hv, U64.toNat_to128]
    exact ⟨by omega, hlt, hs⟩

/-- The payout of a redemption never exceeds the assets it is priced at. -/
theorem payout_le {s A S V : Nat} (hV : 0 < V) (hs : s ≤ S) : s * (A + 1) / (S + V) ≤ A := by
  have h : s * (A + 1) < (S + V) * (A + 1) := Nat.mul_lt_mul_of_pos_right (by omega) (by omega)
  have := Nat.div_lt_of_lt_mul h
  omega

/-- Pricing a redemption fails only on a supply that does not hold the shares. -/
theorem assetsForShares_eq_ok {s A S a : U64} {d : U8} :
    assetsForShares s A S d = .ok a ↔
      s.toNat ≤ S.toNat ∧ d.toNat ≤ 9 ∧
        a.toNat = s.toNat * (A.toNat + 1) / (S.toNat + virtualShares d) := by
  have hV := virtualShares_le d
  have hV0 := virtualShares_pos d
  have hA : (U64.to128 A + 1).toNat = A.toNat + 1 := toNat_add_offset (by decide)
  have hlt : s.toNat * (A.toNat + 1) < 2 ^ 128 :=
    calc s.toNat * (A.toNat + 1) ≤ s.toNat * 2 ^ 64 := Nat.mul_le_mul_left _ A.isLt
      _ < 2 ^ 64 * 2 ^ 64 := Nat.mul_lt_mul_of_pos_right s.isLt (by decide)
      _ = 2 ^ 128 := by norm_num
  simp only [assetsForShares, bind_eq_ok, rejectIf_eq_ok, exists_const, virtualShareOffset_eq_ok,
    mulDivFloor_eq_ok, checkedU64_eq_ok, hA, U64.toNat_to128, gt_iff_lt, BitVec.lt_def, Nat.not_lt]
  constructor
  · rintro ⟨hs, v, ⟨hd, hv⟩, q, ⟨-, -, hq⟩, ha⟩
    rw [toNat_add_offset (by omega), hv] at hq
    exact ⟨hs, hd, ha.trans hq⟩
  · rintro ⟨hs, hd, ha⟩
    have hv : (BitVec.ofNat 128 (virtualShares d)).toNat = virtualShares d := by
      rw [BitVec.toNat_ofNat, Nat.mod_eq_of_lt (by omega)]
    refine ⟨hs, _, ⟨hd, hv⟩, U64.to128 a, ?_, (U64.toNat_to128 a).symm⟩
    rw [toNat_add_offset (by omega), hv, U64.toNat_to128]
    exact ⟨by omega, hlt, ha⟩

theorem exists_assetsForShares {s A S : U64} {d : U8} (hd : d.toNat ≤ 9)
    (hs : s.toNat ≤ S.toNat) : ∃ a, assetsForShares s A S d = .ok a := by
  have hA := A.isLt
  have hle := payout_le (A := A.toNat) (virtualShares_pos d) hs
  refine ⟨BitVec.ofNat 64 (s.toNat * (A.toNat + 1) / (S.toNat + virtualShares d)),
    assetsForShares_eq_ok.mpr ⟨hs, hd, ?_⟩⟩
  rw [BitVec.toNat_ofNat, Nat.mod_eq_of_lt (by omega)]

theorem assetsForRedeem_eq_ok {s A S a : U64} {d : U8} :
    assetsForRedeem s A S d = .ok a ↔ assetsForShares s A S d = .ok a ∧ a.toNat ≠ 0 := by
  simp only [assetsForRedeem, bind_eq_ok, rejectIf_eq_ok, exists_const, Except.ok.injEq,
    eq_zero_iff]
  constructor
  · rintro ⟨a, h, h0, rfl⟩
    exact ⟨h, h0⟩
  · rintro ⟨h, h0⟩
    exact ⟨a, h, h0, rfl⟩

theorem sharePriceFromAssets_eq_ok {A S p : U64} :
    sharePriceFromAssets A S = .ok p ↔ S.toNat ≠ 0 ∧ p.toNat = A.toNat * 10 ^ 9 / S.toNat := by
  have h9 : SHARE_DECIMALS.toNat = 9 := rfl
  have hlt : A.toNat * 10 ^ 9 < 2 ^ 128 := by
    have := A.isLt
    omega
  simp only [sharePriceFromAssets, bind_eq_ok, rejectIf_eq_ok, exists_const, pow10_eq_ok, h9,
    mulDivFloor_eq_ok, checkedU64_eq_ok, eq_zero_iff, U64.toNat_to128]
  constructor
  · rintro ⟨hS, scale, hscale, q, ⟨-, -, hq⟩, hp⟩
    rw [hscale] at hq
    exact ⟨hS, hp.trans hq⟩
  · rintro ⟨hS, hp⟩
    have hscale : (1000000000 : U128).toNat = 10 ^ 9 := rfl
    refine ⟨hS, 1000000000, hscale, U64.to128 p, ?_, (U64.toNat_to128 p).symm⟩
    rw [hscale, U64.toNat_to128]
    exact ⟨hS, hlt, hp⟩

/-- What a report at gross value `G` does with the fee: nothing on an empty
supply, nothing up to the watermark, and above it `f / 10^4` of the gain over
`⌈H S / 10^9⌉`, the watermark ratcheting on the net price. -/
inductive FeeOutcome (G S H : U64) (f : U16) : U64 × U64 × U64 → Prop
  | empty (hS : S.toNat = 0) : FeeOutcome G S H f (0, G, H)
  | free {p : U64} (hS : S.toNat ≠ 0) (hp : p.toNat = G.toNat * 10 ^ 9 / S.toNat)
      (h : H.toNat = 0 ∨ p.toNat ≤ H.toNat ∨ f.toNat = 0) : FeeOutcome G S H f (0, G, umax H p)
  | charged {p fee net q : U64} (hS : S.toNat ≠ 0) (hp : p.toNat = G.toNat * 10 ^ 9 / S.toNat)
      (hH : H.toNat ≠ 0) (hpH : H.toNat < p.toNat) (hf : f.toNat ≠ 0)
      (hW : H.toNat * S.toNat ⌈/⌉ 10 ^ 9 ≤ G.toNat)
      (hfee : fee.toNat = (G.toNat - H.toNat * S.toNat ⌈/⌉ 10 ^ 9) * f.toNat / 10000)
      (hnet : net.toNat + fee.toNat = G.toNat) (hq : q.toNat = net.toNat * 10 ^ 9 / S.toNat) :
      FeeOutcome G S H f (fee, net, umax H q)

theorem performanceFeeForNav_eq_ok {G S H : U64} {f : U16} {r : U64 × U64 × U64}
    (h : performanceFeeForNav G S H f = .ok r) : f.toNat ≤ 10000 ∧ FeeOutcome G S H f r := by
  rw [performanceFeeForNav, bind_eq_ok] at h
  obtain ⟨_, hf, h⟩ := h
  refine ⟨validatePercentageBps_eq_ok.mp hf, ?_⟩
  split at h
  · rename_i hS
    cases h
    exact .empty (eq_zero_iff.mp hS)
  · rename_i hS
    rw [eq_zero_iff] at hS
    obtain ⟨p, hp, h⟩ := bind_eq_ok.mp h
    have hp := (sharePriceFromAssets_eq_ok.mp hp).2
    split at h
    · rename_i hfree
      rw [eq_zero_iff, eq_zero_iff, BitVec.le_def] at hfree
      cases h
      exact .free hS hp hfree
    · rename_i hcharged
      rw [eq_zero_iff, eq_zero_iff, BitVec.le_def, not_or, not_or] at hcharged
      obtain ⟨hH, hpH, hf0⟩ := hcharged
      simp only [bind_eq_ok, okOr_eq_ok, pow10_eq_ok, mulDivCeil_eq_ok, checkedU64_eq_ok,
        checkedSub_eq_some, bpsFloor_eq_ok, sharePriceFromAssets_eq_ok, Except.ok.injEq,
        U64.toNat_to128] at h
      obtain ⟨scale, hscale, w', ⟨-, -, hw'⟩, w, hw, g, hg, fee, hfee, net, hnet, q, hq, rfl⟩ := h
      have h9 : scale.toNat = 10 ^ 9 := hscale
      rw [← hw, h9] at hw'
      refine .charged hS hp hH (by omega) hf0 (by omega) ?_ hnet hq.2
      rw [hfee, ← hw', ← hg, Nat.add_sub_cancel]

end Roshi
