import Roshi.Math

/-!
# The performance fee of one report

`performance_fee_for_nav` mixes a price rounded down, a watermark rounded up, a fee
rounded down and two downcasts.  The roundings fit together: once the gross price fits
in `u64` nothing else can fail (`exists_performanceFeeForNav`), because the watermark is
worth no more than the gross assets (`watermark_le_of_price_lt`), and what the fee leaves
is still worth the watermark (`price_of_watermark_le`), so that a second run at the same
NAV charges nothing.

`performanceFeeForNav_spec` collects this.
-/

namespace Roshi

open Lib

variable {G S H : U64} {f : U16}

/-! ### The roundings -/

/-- A watermark below the gross price is worth no more than the gross assets. -/
theorem watermark_le_of_price_lt {g s h : Nat} (hlt : h < g * 10 ^ 9 / s) :
    h * s ⌈/⌉ 10 ^ 9 ≤ g := by
  rw [ceilDiv_le_iff_le_mul (by norm_num), Nat.mul_comm (10 ^ 9) g]
  calc h * s ≤ g * 10 ^ 9 / s * s := Nat.mul_le_mul_right s hlt.le
    _ ≤ g * 10 ^ 9 := Nat.div_mul_le_self _ _

/-- Assets worth the watermark are priced at least at it. -/
theorem price_of_watermark_le {n s h : Nat} (hs : 0 < s) (hle : h * s ⌈/⌉ 10 ^ 9 ≤ n) :
    h ≤ n * 10 ^ 9 / s := by
  rw [ceilDiv_le_iff_le_mul (by norm_num), Nat.mul_comm (10 ^ 9) n] at hle
  exact (Nat.le_div_iff_mul_le hs).mpr hle

/-- A percentage of a profit is at most the profit. -/
theorem bps_le {a f : Nat} (hf : f ≤ 10000) : a * f / 10000 ≤ a :=
  Nat.div_le_of_le_mul (by rw [Nat.mul_comm]; exact Nat.mul_le_mul_right a hf)

/-! ### When the fee is computed -/

theorem exists_sharePriceFromAssets {A : U64} (hS : S.toNat ≠ 0)
    (hp : A.toNat * 10 ^ 9 / S.toNat < 2 ^ 64) : ∃ p, sharePriceFromAssets A S = .ok p := by
  obtain ⟨p, hpn⟩ := exists_toNat_eq hp
  exact ⟨p, sharePriceFromAssets_eq_ok.mpr ⟨hS, hpn⟩⟩

/-- A price that does not fit is the only way to fail on a nonempty supply. -/
theorem sharePriceFromAssets_error {A : U64} (hS : S.toNat ≠ 0)
    (hp : 2 ^ 64 ≤ A.toNat * 10 ^ 9 / S.toNat) :
    sharePriceFromAssets A S = .error .resultDoesNotFit := by
  have hA := A.isLt
  obtain ⟨scale, hscale⟩ : ∃ scale : U128, scale.toNat = 10 ^ 9 := exists_toNat_eq (by norm_num)
  obtain ⟨q, hq⟩ : ∃ q : U128, q.toNat = A.toNat * 10 ^ 9 / S.toNat :=
    exists_toNat_eq (lt_of_le_of_lt (Nat.div_le_self _ _) (by omega))
  have hpow : pow10 SHARE_DECIMALS = .ok scale := pow10_eq_ok.mpr hscale
  have hmul : mulDivFloor (U64.to128 A) scale (U64.to128 S) = .ok q := by
    rw [mulDivFloor_eq_ok, U64.toNat_to128, U64.toNat_to128, hscale]
    exact ⟨hS, by omega, hq⟩
  have hwide : ¬ q.toNat < 2 ^ 64 := by omega
  rw [sharePriceFromAssets, rejectIf_of_not (by rwa [eq_zero_iff]), hpow]
  show (mulDivFloor (U64.to128 A) scale (U64.to128 S) >>= checkedU64) = _
  rw [hmul]
  show checkedU64 q = _
  rw [checkedU64, tryFrom, if_neg hwide]
  rfl

/-- **Only the gross price can fail to fit.** -/
theorem exists_performanceFeeForNav (H : U64) (hf : f.toNat ≤ 10000)
    (hp : S.toNat = 0 ∨ G.toNat * 10 ^ 9 / S.toNat < 2 ^ 64) :
    ∃ r, performanceFeeForNav G S H f = .ok r := by
  have hvalid : validatePercentageBps f = .ok () := validatePercentageBps_eq_ok.mpr hf
  rw [performanceFeeForNav, hvalid, ok_bind]
  by_cases hS : S = 0
  · rw [if_pos hS]
    exact ⟨_, rfl⟩
  have hS' : S.toNat ≠ 0 := mt eq_zero_iff.mpr hS
  have hp := hp.resolve_left hS'
  obtain ⟨p, hprice⟩ := exists_sharePriceFromAssets hS' hp
  rw [if_neg hS, hprice, ok_bind]
  by_cases hfree : H = 0 ∨ p ≤ H ∨ f = 0
  · rw [if_pos hfree]
    exact ⟨_, rfl⟩
  rw [if_neg hfree]
  have hpn := (sharePriceFromAssets_eq_ok.mp hprice).2
  have hHp : H.toNat < G.toNat * 10 ^ 9 / S.toNat := by
    rw [not_or, not_or, BitVec.le_def] at hfree
    omega
  have hW := watermark_le_of_price_lt hHp
  have hG := G.isLt
  -- the watermark in assets, the profit, the fee and the rest, all below `gross`
  obtain ⟨w, hw⟩ : ∃ w : U64, w.toNat = H.toNat * S.toNat ⌈/⌉ 10 ^ 9 :=
    exists_toNat_eq (by omega)
  obtain ⟨g, hg, hgn⟩ := exists_checkedSub (a := G) (b := w) (by omega)
  have hfee := bps_le (a := g.toNat) hf
  obtain ⟨fee, hfeen⟩ : ∃ fee : U64, fee.toNat = g.toNat * f.toNat / 10000 :=
    exists_toNat_eq (by omega)
  obtain ⟨net, hnet, hnetn⟩ := exists_checkedSub (a := G) (b := fee) (by omega)
  obtain ⟨q, hq⟩ := exists_sharePriceFromAssets (A := net) hS' (by
    refine lt_of_le_of_lt (Nat.div_le_div_right (Nat.mul_le_mul_right _ ?_)) hp
    omega)
  refine ⟨(fee, net, umax H q), ?_⟩
  simp only [bind_eq_ok, pow10_eq_ok, mulDivCeil_eq_ok, checkedU64_eq_ok, okOr_eq_ok,
    bpsFloor_eq_ok, U64.toNat_to128]
  have h9 : (1000000000 : U128).toNat = 10 ^ 9 := rfl
  refine ⟨1000000000, rfl, U64.to128 w, ⟨by decide, U64.mul_lt H S, ?_⟩, w,
    (U64.toNat_to128 w).symm, g, hg, fee, hfeen, net, hnet, q, hq, rfl⟩
  rw [h9, U64.toNat_to128, hw]

/-- The two ways to fail. -/
theorem performanceFeeForNav_error {e : RoshiError} (h : performanceFeeForNav G S H f = .error e) :
    (10000 < f.toNat ∧ e = .invalidBps) ∨
      (S.toNat ≠ 0 ∧ 2 ^ 64 ≤ G.toNat * 10 ^ 9 / S.toNat ∧ e = .resultDoesNotFit) := by
  by_cases hf : 10000 < f.toNat
  · have hbad : f > BPS_DENOMINATOR := by
      rw [gt_iff_lt, BitVec.lt_def, BPS_DENOMINATOR_toNat]
      exact hf
    rw [performanceFeeForNav, validatePercentageBps, rejectIf, if_pos hbad] at h
    cases h
    exact .inl ⟨hf, rfl⟩
  · by_cases hp : S.toNat = 0 ∨ G.toNat * 10 ^ 9 / S.toNat < 2 ^ 64
    · obtain ⟨r, hr⟩ := exists_performanceFeeForNav H (Nat.not_lt.mp hf) hp
      rw [hr] at h
      cases h
    · rw [not_or, Nat.not_lt] at hp
      have hvalid : validatePercentageBps f = .ok () :=
        validatePercentageBps_eq_ok.mpr (Nat.not_lt.mp hf)
      rw [performanceFeeForNav, hvalid, ok_bind, if_neg (by rw [eq_zero_iff]; exact hp.1),
        sharePriceFromAssets_error hp.1 hp.2] at h
      cases h
      exact .inr ⟨hp.1, hp.2, rfl⟩

/-! ### What the fee is -/

/-- What a computed fee satisfies. -/
structure FeeSpec (G S H : U64) (f : U16) (fee net H' : U64) : Prop where
  conserves : fee.toNat + net.toNat = G.toNat
  ratchets : H.toNat ≤ H'.toNat
  charged : 0 < fee.toNat →
    0 < S.toNat ∧ 0 < H.toNat ∧ 0 < f.toNat ∧ H.toNat < G.toNat * 10 ^ 9 / S.toNat ∧
      (fee.toNat : ℚ) ≤ f.toNat * (G.toNat - H.toNat * S.toNat / 10 ^ 9) / 10000 ∧
      H.toNat ≤ net.toNat * 10 ^ 9 / S.toNat ∧ H'.toNat = net.toNat * 10 ^ 9 / S.toNat
  again : performanceFeeForNav net S H' f = .ok (0, net, H')

/-- A price that is not above the watermark charges nothing. -/
theorem performanceFeeForNav_of_le (hf : f.toNat ≤ 10000)
    (h : S.toNat = 0 ∨ G.toNat * 10 ^ 9 / S.toNat ≤ H.toNat) :
    performanceFeeForNav G S H f = .ok (0, G, H) := by
  have hH := H.isLt
  obtain ⟨r, hr⟩ := exists_performanceFeeForNav (G := G) H hf (h.imp_right fun h => by omega)
  rw [hr]
  obtain ⟨-, hout⟩ := performanceFeeForNav_eq_ok hr
  cases hout with
  | empty => rfl
  | @free p hS hp _ =>
    have hle := h.resolve_left hS
    have hmax : umax H p = H := BitVec.eq_of_toNat_eq (by rw [toNat_umax]; omega)
    rw [hmax]
  | charged hS hp _ hlt =>
    have hle := h.resolve_left hS
    omega

/-- The fee is a fraction of what the gross assets exceed the watermark by. -/
theorem fee_le_fraction {g s h f : Nat} (hW : h * s ⌈/⌉ 10 ^ 9 ≤ g) :
    (((g - h * s ⌈/⌉ 10 ^ 9) * f / 10000 : Nat) : ℚ) ≤
      f * ((g : ℚ) - h * s / 10 ^ 9) / 10000 := by
  have hceil : (h * s : ℚ) / 10 ^ 9 ≤ ((h * s ⌈/⌉ 10 ^ 9 : Nat) : ℚ) := by
    rw [div_le_iff₀ (by norm_num)]
    have hle : h * s ≤ 10 ^ 9 * (h * s ⌈/⌉ 10 ^ 9) :=
      (ceilDiv_le_iff_le_mul (by norm_num)).mp le_rfl
    calc (h * s : ℚ) = ((h * s : Nat) : ℚ) := by push_cast; ring
      _ ≤ ((10 ^ 9 * (h * s ⌈/⌉ 10 ^ 9) : Nat) : ℚ) := Nat.cast_le.mpr hle
      _ = ((h * s ⌈/⌉ 10 ^ 9 : Nat) : ℚ) * 10 ^ 9 := by push_cast; ring
  calc (((g - h * s ⌈/⌉ 10 ^ 9) * f / 10000 : Nat) : ℚ)
      ≤ ((g - h * s ⌈/⌉ 10 ^ 9) * f : Nat) / (10000 : Nat) := Nat.cast_div_le
    _ = f * ((g : ℚ) - (h * s ⌈/⌉ 10 ^ 9 : Nat)) / 10000 := by
        rw [Nat.cast_mul, Nat.cast_sub hW]
        ring
    _ ≤ f * ((g : ℚ) - h * s / 10 ^ 9) / 10000 := by gcongr

theorem FeeOutcome.spec {fee net H' : U64} (hf : f.toNat ≤ 10000)
    (h : FeeOutcome G S H f (fee, net, H')) : FeeSpec G S H f fee net H' := by
  have h0 : (0 : U64).toNat = 0 := rfl
  cases h with
  | empty hS =>
    exact ⟨by omega, le_rfl, fun h => absurd h (by decide),
      performanceFeeForNav_of_le hf (.inl hS)⟩
  | @free p hS hp hfree =>
    refine ⟨by omega, ?_, fun h => absurd h (by decide), performanceFeeForNav_of_le hf (.inr ?_)⟩
    · rw [toNat_umax]
      exact le_max_left _ _
    · rw [toNat_umax, ← hp]
      exact le_max_right _ _
  | @charged p _ _ q hS hp hH hpH hf0 hW hfee hnet hq =>
    have hle := bps_le (a := G.toNat - H.toNat * S.toNat ⌈/⌉ 10 ^ 9) hf
    -- the fee leaves at least the watermark
    have hnetW : H.toNat * S.toNat ⌈/⌉ 10 ^ 9 ≤ net.toNat := by omega
    have hHq := price_of_watermark_le (Nat.pos_of_ne_zero hS) hnetW
    have hmax : (umax H q).toNat = net.toNat * 10 ^ 9 / S.toNat := by
      rw [toNat_umax]
      omega
    refine ⟨by omega, by omega, fun _ => ⟨by omega, by omega, by omega, by omega, ?_, hHq, hmax⟩,
      performanceFeeForNav_of_le hf (.inr hmax.ge)⟩
    rw [hfee]
    exact fee_le_fraction hW

/-- A higher rate charges no less. -/
theorem FeeOutcome.fee_mono {f' : U16} {r r' : U64 × U64 × U64} (h : FeeOutcome G S H f r)
    (h' : FeeOutcome G S H f' r') (hff : f.toNat ≤ f'.toNat) : r.1.toNat ≤ r'.1.toNat := by
  cases h with
  | empty => exact Nat.zero_le _
  | free => exact Nat.zero_le _
  | charged hS hp hH hpH hf0 hW hfee =>
    cases h' with
    | empty hS' => exact (hS hS').elim
    | free _ hp' hfree => omega
    | charged _ _ _ _ _ _ hfee' =>
      rw [hfee, hfee']
      exact Nat.div_le_div_right (Nat.mul_le_mul_left _ hff)

/-- **The performance fee.**  It is computed exactly when the rate is a percentage and the
gross price fits; what is computed conserves the assets, never lowers the watermark,
charges only a price above it and leaves the price at least there, grows with the rate,
and charges nothing when run again on its own result. -/
theorem performanceFeeForNav_spec (G S H : U64) (f : U16) :
    ((∃ r, performanceFeeForNav G S H f = .ok r) ↔
      f.toNat ≤ 10000 ∧ (S.toNat = 0 ∨ G.toNat * 10 ^ 9 / S.toNat < 2 ^ 64)) ∧
    (∀ e, performanceFeeForNav G S H f = .error e →
      (10000 < f.toNat ∧ e = .invalidBps) ∨
        (S.toNat ≠ 0 ∧ 2 ^ 64 ≤ G.toNat * 10 ^ 9 / S.toNat ∧ e = .resultDoesNotFit)) ∧
    (∀ fee net H', performanceFeeForNav G S H f = .ok (fee, net, H') →
      FeeSpec G S H f fee net H') ∧
    (∀ f' : U16, ∀ r r', f.toNat ≤ f'.toNat → performanceFeeForNav G S H f = .ok r →
      performanceFeeForNav G S H f' = .ok r' → r.1.toNat ≤ r'.1.toNat) := by
  refine ⟨⟨?_, ?_⟩, fun e => performanceFeeForNav_error, ?_, ?_⟩
  · rintro ⟨r, hr⟩
    obtain ⟨hf, hout⟩ := performanceFeeForNav_eq_ok hr
    refine ⟨hf, ?_⟩
    cases hout with
    | empty hS => exact .inl hS
    | @free p _ hp => exact .inr (hp ▸ p.isLt)
    | @charged p _ _ _ _ hp => exact .inr (hp ▸ p.isLt)
  · rintro ⟨hf, hp⟩
    exact exists_performanceFeeForNav H hf hp
  · intro fee net H' h
    obtain ⟨hf, hout⟩ := performanceFeeForNav_eq_ok h
    exact hout.spec hf
  · intro f' r r' hff h h'
    exact (performanceFeeForNav_eq_ok h).2.fee_mono (performanceFeeForNav_eq_ok h').2 hff

/-- A price of twice the watermark, at ten and at twenty percent. -/
theorem performanceFeeForNav_spec_doubled :
    FeeSpec 2000000000 1000000000 1000000000 1000 100000000 1900000000 1900000000 ∧
      (100000000 : U64).toNat ≤ (200000000 : U64).toNat := by
  have h : performanceFeeForNav 2000000000 1000000000 1000000000 1000 =
      .ok (100000000, 1900000000, 1900000000) := by decide +kernel
  have h' : performanceFeeForNav 2000000000 1000000000 1000000000 2000 =
      .ok (200000000, 1800000000, 1800000000) := by decide +kernel
  obtain ⟨-, -, hspec, hmono⟩ := performanceFeeForNav_spec 2000000000 1000000000 1000000000 1000
  exact ⟨hspec _ _ _ h, hmono 2000 _ _ (by decide) h h'⟩

end Roshi
