import Roshi.Lib.Drip
import Roshi.State.Vault

/-!
# What the vault's own accounting does

The lemmas the instructions use of `Vault`.  `WellFormed` is `validateState` as a
list of facts (`validateState_eq_ok`).  The unlock window of a well-formed vault is
a `Lib.Drip`, and `remainingLockedProfit` reads that line
(`remainingLockedProfit_eq_ok`).

`debit_spec` and `report_spec` say what a payment and a report do to the record.
The two facts the pricing results rest on: a payment of `a` lowers the effective
assets of its own instant by exactly `a` (`effective_debit`), and both operations
keep the record well formed at any clock (`WellFormed.debit`, `WellFormed.report`).
-/

namespace Roshi.Vault

open Lib

/-! ### The static checks -/

/-- A stored flag is 0 or 1. -/
theorem exists_boolFlag {f : U8} : (∃ b, boolFlag f = .ok b) ↔ f = 0 ∨ f = 1 := by
  rcases eq_or_ne f 0 with rfl | h0
  · exact ⟨fun _ => .inl rfl, fun _ => ⟨false, rfl⟩⟩
  rcases eq_or_ne f 1 with rfl | h1
  · exact ⟨fun _ => .inr rfl, fun _ => ⟨true, rfl⟩⟩
  · rw [boolFlag, if_neg h0, if_neg h1]
    exact ⟨fun h => (by obtain ⟨b, h⟩ := h; cases h), fun h => (h.elim h0 h1).elim⟩

theorem exists_boolFlag_flag (b : Bool) : flag b = 0 ∨ flag b = 1 := by
  cases b <;> simp [flag]

theorem controls_validate_eq_ok {c : VaultControls} {u : Unit} :
    c.validate = .ok u ↔
      c.atomicRedeemFeeBps.toNat ≤ 10000 ∧ c.maxSwapSlippageBps.toNat ≤ 10000 := by
  simp [VaultControls.validate, validatePercentageBps_eq_ok]

theorem validateConfig_eq_ok {b s : Pubkey} {d : U8} {p q : U16} {u : Unit} :
    validateConfig b s d p q = .ok u ↔
      p.toNat ≤ 10000 ∧ q.toNat ≤ 10000 ∧ b ≠ s ∧ d.toNat ≤ 9 := by
  have h9 : SHARE_DECIMALS.toNat = 9 := rfl
  simp [validateConfig, validatePercentageBps_eq_ok, BitVec.lt_def, h9]

/-- `validateState` as a list of facts. -/
structure WellFormed (v : Vault) : Prop where
  tag : ∃ t, unpackTag v.tag v.tagLen = .ok t
  performanceFeeBps_le : v.performanceFeeBps.toNat ≤ 10000
  withdrawalBufferBps_le : v.withdrawalBufferBps.toNat ≤ 10000
  baseMint_ne_shareMint : v.baseMint ≠ v.shareMint
  baseDecimals_le : v.baseDecimals.toNat ≤ 9
  baseOracle : v.baseOracle.validate = .ok ()
  atomicRedeemFeeBps_le : v.controls.atomicRedeemFeeBps.toNat ≤ 10000
  maxSwapSlippageBps_le : v.controls.maxSwapSlippageBps.toNat ≤ 10000
  lockedProfit_le : v.lockedProfit.toNat ≤ v.totalAssets.toNat
  unlock_le : v.profitUnlockStartTs.toInt ≤ v.profitUnlockEndTs.toInt
  depositsPausedFlag : v.depositsPausedFlag = 0 ∨ v.depositsPausedFlag = 1
  withdrawalsPausedFlag : v.withdrawalsPausedFlag = 0 ∨ v.withdrawalsPausedFlag = 1
  managePausedFlag : v.managePausedFlag = 0 ∨ v.managePausedFlag = 1
  privateFlag : v.privateFlag = 0 ∨ v.privateFlag = 1
  externalEnabledFlag : v.externalEnabledFlag = 0 ∨ v.externalEnabledFlag = 1

theorem validateState_eq_ok {v : Vault} {u : Unit} : v.validateState = .ok u ↔ v.WellFormed := by
  simp only [validateState, bind_eq_ok, rejectIf_eq_ok, mapError_eq_ok, validateConfig_eq_ok,
    controls_validate_eq_ok, gt_iff_lt, BitVec.lt_def, Nat.not_lt, Int64.lt_iff_toInt_lt,
    Int.not_lt, exists_and_left, exists_and_right, exists_boolFlag, and_true, exists_const]
  constructor
  · rintro ⟨ht, ⟨h1, h2, h3, h4⟩, ⟨_, ho⟩, ⟨h5, h6⟩, hl, hw, f1, f2, f3, f4, f5⟩
    exact ⟨ht, h1, h2, h3, h4, ho, h5, h6, hl, hw, f1, f2, f3, f4, f5⟩
  · rintro ⟨ht, h1, h2, h3, h4, ho, h5, h6, hl, hw, f1, f2, f3, f4, f5⟩
    exact ⟨ht, ⟨h1, h2, h3, h4⟩, ⟨_, ho⟩, ⟨h5, h6⟩, hl, hw, f1, f2, f3, f4, f5⟩

/-! ### The unlock line -/

/-- The unlock window as a line. -/
def drip (v : Vault) (h : v.profitUnlockStartTs.toInt ≤ v.profitUnlockEndTs.toInt) : Drip where
  amount := v.lockedProfit.toNat
  start := v.profitUnlockStartTs.toInt
  stop := v.profitUnlockEndTs.toInt
  start_le_stop := h

variable {v v' : Vault} {a b net : U64} {now t : I64}

/-- A window as the code computes it: an `i64` difference read as `u128`. -/
theorem span_eq_some {x y : I64} {s : U128} :
    (checkedSubI x y).bind (tryFromI 128) = some s ↔
      x.toInt - y.toInt < 2 ^ 63 ∧ (s.toNat : Int) = x.toInt - y.toInt := by
  simp only [Option.bind_eq_some_iff, checkedSubI_eq_some, tryFromI_eq_some]
  constructor
  · rintro ⟨c, hc, hs⟩
    have := c.toInt_lt
    omega
  · rintro ⟨hlt, hs⟩
    exact ⟨_, toInt_ofInt_of_fits (by omega), by rw [toInt_ofInt_of_fits (by omega)]; exact hs⟩

theorem remaining_of_end_le (h : v.profitUnlockEndTs.toInt ≤ now.toInt) :
    v.remainingLockedProfit now = .ok 0 :=
  if_pos (Int64.le_iff_toInt_le.mpr h)

theorem remaining_of_le_start (h : now.toInt < v.profitUnlockEndTs.toInt)
    (h' : now.toInt ≤ v.profitUnlockStartTs.toInt) :
    v.remainingLockedProfit now = .ok v.lockedProfit := by
  rw [remainingLockedProfit, if_neg (by rw [ge_iff_le, Int64.le_iff_toInt_le]; omega),
    if_pos (Int64.le_iff_toInt_le.mpr h')]

theorem remaining_of_between (h : v.profitUnlockStartTs.toInt < now.toInt)
    (h' : now.toInt < v.profitUnlockEndTs.toInt) :
    v.remainingLockedProfit now = (do
      let window ←
        okOr ((checkedSubI v.profitUnlockEndTs v.profitUnlockStartTs).bind (tryFromI 128))
          (.custom .overflow)
      let left ←
        okOr ((checkedSubI v.profitUnlockEndTs now).bind (tryFromI 128)) (.custom .overflow)
      let remaining ← into (mulDivFloor (U64.to128 v.lockedProfit) left window)
      into (checkedU64 remaining)) := by
  rw [remainingLockedProfit, if_neg (by rw [ge_iff_le, Int64.le_iff_toInt_le]; omega),
    if_neg (by rw [Int64.le_iff_toInt_le]; omega)]

/-- **The code reads the unlock line**, and fails only inside a window longer than `i64`. -/
theorem remainingLockedProfit_eq_ok {r : U64}
    (h : v.profitUnlockStartTs.toInt ≤ v.profitUnlockEndTs.toInt) :
    v.remainingLockedProfit now = .ok r ↔
      r.toNat = (v.drip h).remaining now.toInt ∧
        (now.toInt ≤ v.profitUnlockStartTs.toInt ∨ v.profitUnlockEndTs.toInt ≤ now.toInt ∨
          v.profitUnlockEndTs.toInt - v.profitUnlockStartTs.toInt < 2 ^ 63) := by
  rcases Int.lt_or_le now.toInt v.profitUnlockEndTs.toInt with hlt | hge
  swap
  · rw [remaining_of_end_le hge, Except.ok.injEq, eq_comm, eq_zero_iff,
      Drip.remaining_of_stop_le hge]
    simp [hge]
  rcases Int.lt_or_le v.profitUnlockStartTs.toInt now.toInt with hgt | hle
  swap
  · rw [remaining_of_le_start hlt hle, Except.ok.injEq, ← BitVec.toNat_inj,
      Drip.remaining_of_le_start hlt hle]
    simp [hle, drip, eq_comm]
  rw [remaining_of_between hgt hlt, Drip.remaining_of_between hgt hlt]
  have hL := v.lockedProfit.isLt
  simp only [bind_eq_ok, okOr_eq_ok, span_eq_some, into_eq_ok, mulDivFloor_eq_ok,
    checkedU64_eq_ok, U64.toNat_to128, drip]
  constructor
  · rintro ⟨w, ⟨hw1, hw⟩, l, ⟨-, hl⟩, q, ⟨-, -, hq⟩, hr⟩
    have ew : (v.profitUnlockEndTs.toInt - v.profitUnlockStartTs.toInt).toNat = w.toNat := by omega
    have el : (v.profitUnlockEndTs.toInt - now.toInt).toNat = l.toNat := by omega
    rw [ew, el]
    exact ⟨hr.trans hq, by omega⟩
  · rintro ⟨hr, hspan⟩
    have hw : (BitVec.ofNat 128 (v.profitUnlockEndTs.toInt - v.profitUnlockStartTs.toInt).toNat).toNat
        = (v.profitUnlockEndTs.toInt - v.profitUnlockStartTs.toInt).toNat := by
      rw [BitVec.toNat_ofNat, Nat.mod_eq_of_lt (by omega)]
    have hl : (BitVec.ofNat 128 (v.profitUnlockEndTs.toInt - now.toInt).toNat).toNat
        = (v.profitUnlockEndTs.toInt - now.toInt).toNat := by
      rw [BitVec.toNat_ofNat, Nat.mod_eq_of_lt (by omega)]
    refine ⟨_, ⟨by omega, by rw [hw]; omega⟩, _, ⟨by omega, by rw [hl]; omega⟩, U64.to128 r, ?_,
      (U64.toNat_to128 r).symm⟩
    rw [hw, hl, U64.toNat_to128]
    refine ⟨by omega, ?_, hr⟩
    calc v.lockedProfit.toNat * (v.profitUnlockEndTs.toInt - now.toInt).toNat
        < 2 ^ 64 * 2 ^ 64 := Nat.mul_lt_mul'' hL (by omega)
      _ = 2 ^ 128 := by norm_num

theorem remaining_le_locked {r : U64} (h : v.remainingLockedProfit now = .ok r) :
    r.toNat ≤ v.lockedProfit.toNat := by
  rcases Int.lt_or_le now.toInt v.profitUnlockEndTs.toInt with hlt | hge
  · rcases Int.lt_or_le v.profitUnlockStartTs.toInt now.toInt with hgt | hle
    · rw [((remainingLockedProfit_eq_ok (by omega)).mp h).1]
      exact Drip.remaining_le _ _
    · rw [remaining_of_le_start hlt hle] at h
      cases h
      exact Nat.le_refl _
  · rw [remaining_of_end_le hge] at h
    cases h
    exact Nat.zero_le _

theorem exists_remaining (h : v.profitUnlockStartTs.toInt ≤ v.profitUnlockEndTs.toInt)
    (hs : v.profitUnlockEndTs.toInt - v.profitUnlockStartTs.toInt < 2 ^ 63) (now : I64) :
    ∃ r : U64, v.remainingLockedProfit now = .ok r ∧
      r.toNat = (v.drip h).remaining now.toInt := by
  have hle := (v.drip h).remaining_le now.toInt
  have hL : (v.drip h).amount < 2 ^ 64 := v.lockedProfit.isLt
  have hr : (BitVec.ofNat 64 ((v.drip h).remaining now.toInt)).toNat
      = (v.drip h).remaining now.toInt := by
    rw [BitVec.toNat_ofNat, Nat.mod_eq_of_lt (by omega)]
  exact ⟨_, (remainingLockedProfit_eq_ok h).mpr ⟨hr, .inr (.inr hs)⟩, hr⟩

theorem effectiveTotalAssets_eq_ok {E : U64} :
    v.effectiveTotalAssets now = .ok E ↔
      ∃ r, v.remainingLockedProfit now = .ok r ∧ E.toNat + r.toNat = v.totalAssets.toNat := by
  simp only [effectiveTotalAssets, bind_eq_ok, okOr_eq_ok, checkedSub_eq_some]

theorem economicShareSupply_eq_ok {s S : U64} :
    v.economicShareSupply s = .ok S ↔ S.toNat = s.toNat + v.requestedWithdrawalShares.toNat := by
  rw [economicShareSupply, okOr_eq_ok, checkedAdd_eq_some]

theorem totalAssetsAfterDeposit_eq_ok {p : U64} (h : v.totalAssetsAfterDeposit b = .ok p) :
    p.toNat = v.totalAssets.toNat + b.toNat := by
  simp only [totalAssetsAfterDeposit, bind_eq_ok, okOr_eq_ok, checkedAdd_eq_some,
    Except.ok.injEq] at h
  obtain ⟨q, hq, -, -, rfl⟩ := h
  exact hq

/-! ### Payments -/

/-- The record after `debit_assets_at_effective`. -/
def debited (v : Vault) (total remaining : U64) (now : I64) : Vault :=
  { v with
    totalAssets := total
    lockedProfit := remaining
    profitUnlockStartTs := if remaining > 0 then now else v.profitUnlockStartTs }

theorem debit_spec :
    v.debitAssetsAtEffective a now = .ok v' ↔
      ∃ r total : U64, v.remainingLockedProfit now = .ok r ∧
        a.toNat + r.toNat ≤ v.totalAssets.toNat ∧
        total.toNat + a.toNat = v.totalAssets.toNat ∧ v' = v.debited total r now := by
  simp only [debitAssetsAtEffective, bind_eq_ok, okOr_eq_ok, checkedSub_eq_some, rejectIf_eq_ok,
    exists_const, gt_iff_lt, BitVec.lt_def, Nat.not_lt, Except.ok.injEq]
  constructor
  · rintro ⟨r, hr, E, hE, hle, total, ht, rfl⟩
    exact ⟨r, total, hr, by omega, ht, rfl⟩
  · rintro ⟨r, total, hr, hle, ht, rfl⟩
    obtain ⟨E, -, hE⟩ := exists_checkedSub (a := v.totalAssets) (b := r) (by omega)
    exact ⟨r, hr, E, hE, by omega, total, ht, rfl⟩

theorem exists_debit {E : U64} (hE : v.effectiveTotalAssets now = .ok E)
    (ha : a.toNat ≤ E.toNat) : ∃ v', v.debitAssetsAtEffective a now = .ok v' := by
  obtain ⟨r, hr, hEr⟩ := effectiveTotalAssets_eq_ok.mp hE
  obtain ⟨total, -, ht⟩ := exists_checkedSub (a := v.totalAssets) (b := a) (by omega)
  exact ⟨_, debit_spec.mpr ⟨r, total, hr, by omega, ht, rfl⟩⟩

/-- Re-anchoring at `now` leaves the profit locked at `now` as it was. -/
theorem remaining_debited {r total : U64} (hr : v.remainingLockedProfit now = .ok r) :
    (v.debited total r now).remainingLockedProfit now = .ok r := by
  rcases Int.lt_or_le now.toInt v.profitUnlockEndTs.toInt with hlt | hge
  · rcases Nat.eq_zero_or_pos r.toNat with h0 | hpos
    · -- nothing is locked any more: the old window, with amount zero
      obtain rfl : r = 0 := eq_zero_iff.mpr h0
      rcases Int.lt_or_le v.profitUnlockStartTs.toInt now.toInt with hgt | hle
      · rw [remaining_of_between hgt hlt] at hr
        rw [remaining_of_between (v := v.debited total 0 now) hgt hlt]
        simp only [bind_eq_ok, okOr_eq_ok, into_eq_ok, mulDivFloor_eq_ok, checkedU64_eq_ok] at hr ⊢
        obtain ⟨w, hw, l, hl, q, ⟨hw0, -, -⟩, -⟩ := hr
        exact ⟨w, hw, l, hl, 0, ⟨hw0, by simp [debited], by simp [debited]⟩, rfl⟩
      · exact remaining_of_le_start (v := v.debited total 0 now) hlt hle
    · refine remaining_of_le_start (v := v.debited total r now) hlt ?_
      show now.toInt ≤ (if r > 0 then now else v.profitUnlockStartTs).toInt
      rw [if_pos (BitVec.lt_def.mpr (by simpa using hpos))]
  · rw [remaining_of_end_le hge] at hr
    exact (remaining_of_end_le (v := v.debited total r now) hge).trans hr

/-- **A payment of `a` lowers the effective assets of its instant by exactly `a`.** -/
theorem effective_debit {E : U64} (hE : v.effectiveTotalAssets now = .ok E)
    (h : v.debitAssetsAtEffective a now = .ok v') :
    ∃ E' : U64, v'.effectiveTotalAssets now = .ok E' ∧ E'.toNat + a.toNat = E.toNat := by
  obtain ⟨r, total, hr, hle, ht, rfl⟩ := debit_spec.mp h
  obtain ⟨r', hr', hEr⟩ := effectiveTotalAssets_eq_ok.mp hE
  obtain rfl : r = r' := Except.ok.inj (hr.symm.trans hr')
  obtain ⟨E', -, hE'⟩ := exists_checkedSub (a := total) (b := r) (by omega)
  exact ⟨E', effectiveTotalAssets_eq_ok.mpr ⟨r, remaining_debited hr, hE'⟩, by omega⟩

theorem remaining_lt_end {r : U64} (h : v.remainingLockedProfit now = .ok r) (hr : 0 < r.toNat) :
    now.toInt < v.profitUnlockEndTs.toInt := by
  by_contra hn
  rw [remaining_of_end_le (by omega)] at h
  cases h
  exact Nat.lt_irrefl 0 hr

theorem WellFormed.debit (hv : v.WellFormed) (h : v.debitAssetsAtEffective a now = .ok v') :
    v'.WellFormed := by
  obtain ⟨r, total, hr, hle, ht, rfl⟩ := debit_spec.mp h
  refine { hv with lockedProfit_le := ?_, unlock_le := ?_ }
  · show r.toNat ≤ total.toNat
    omega
  · show (if r > 0 then now else v.profitUnlockStartTs).toInt ≤ v.profitUnlockEndTs.toInt
    split
    · rename_i hpos
      rw [gt_iff_lt, BitVec.lt_def] at hpos
      exact (remaining_lt_end hr hpos).le
    · exact hv.unlock_le

/-! ### What payments leave alone -/

/-- `v` with the five fields a payment touches taken from `x`. -/
def withPayment (v x : Vault) : Vault :=
  { v with
    totalAssets := x.totalAssets
    lockedProfit := x.lockedProfit
    profitUnlockStartTs := x.profitUnlockStartTs
    requestedWithdrawalShares := x.requestedWithdrawalShares
    pendingWithdrawalAssets := x.pendingWithdrawalAssets }

/-- `v'` differs from `v` only where payments do. -/
def PaidFrom (v v' : Vault) : Prop := v' = v.withPayment v'

theorem PaidFrom.refl (v : Vault) : v.PaidFrom v := rfl

theorem PaidFrom.trans {v₁ v₂ v₃ : Vault} (h : v₁.PaidFrom v₂) (h' : v₂.PaidFrom v₃) :
    v₁.PaidFrom v₃ :=
  calc v₃ = v₂.withPayment v₃ := h'
    _ = (v₁.withPayment v₂).withPayment v₃ := congrArg (·.withPayment v₃) h
    _ = v₁.withPayment v₃ := rfl

/-- Any field outside the five is the same. -/
theorem PaidFrom.eq {α : Type} {f : Vault → α} (h : v.PaidFrom v')
    (hf : ∀ x, f (v.withPayment x) = f v) : f v' = f v :=
  (congrArg f h).trans (hf v')

/-! ### Reports -/

/-- The unlock window a report at `now` opens for a gain. -/
def unlockWindow (v : Vault) (now : I64) : I64 :=
  imin (imax (saturatingSubI now v.lastUpdateTs) 0) (U32.toI64 v.controls.maxUnlockDurationSecs)

theorem toInt_unlockWindow (v : Vault) (now : I64) :
    (v.unlockWindow now).toInt =
      min (max (min (2 ^ 63 - 1) (now.toInt - v.lastUpdateTs.toInt)) 0)
        v.controls.maxUnlockDurationSecs.toNat := by
  rw [unlockWindow, toInt_imin, toInt_imax, toInt_saturatingSubI, U32.toInt_toI64]
  have h0 : (0 : Int64).toInt = 0 := rfl
  omega

theorem unlockWindow_bounds (v : Vault) (now : I64) :
    0 ≤ (v.unlockWindow now).toInt ∧ (v.unlockWindow now).toInt < 2 ^ 32 := by
  have := v.controls.maxUnlockDurationSecs.isLt
  rw [toInt_unlockWindow]
  omega

/-- The record after `apply_reported_nav`. -/
def reported (v : Vault) (net locked : U64) (start stop : I64) : Vault :=
  { v with
    totalAssets := net
    lockedProfit := locked
    profitUnlockStartTs := start
    profitUnlockEndTs := stop }

/-- A report locks the gain over its window, or lands a loss at once. -/
theorem report_spec :
    v.applyReportedNav net now = .ok v' ↔
      ∃ E : U64, v.effectiveTotalAssets now = .ok E ∧
        ((E.toNat < net.toNat ∧ ∃ gain stop, gain.toNat + E.toNat = net.toNat ∧
            stop.toInt = now.toInt + (v.unlockWindow now).toInt ∧
            v' = v.reported net (if v.unlockWindow now = 0 then 0 else gain) now stop) ∨
          (net.toNat ≤ E.toNat ∧ v' = v.reported net 0 now now)) := by
  rw [applyReportedNav, bind_eq_ok]
  refine exists_congr fun E => and_congr_right fun _ => ?_
  by_cases h : net > E
  · have h' : E.toNat < net.toNat := BitVec.lt_def.mp h
    rw [if_pos h]
    simp only [bind_eq_ok, okOr_eq_ok, checkedSub_eq_some, checkedAddI_eq_some, Except.ok.injEq]
    constructor
    · rintro ⟨gain, hg, stop, hs, rfl⟩
      exact .inl ⟨h', gain, stop, hg, hs, rfl⟩
    · rintro (⟨-, gain, stop, hg, hs, rfl⟩ | ⟨hle, -⟩)
      · exact ⟨gain, hg, stop, hs, rfl⟩
      · omega
  · have h' : net.toNat ≤ E.toNat := Nat.not_lt.mp fun hlt => h (BitVec.lt_def.mpr hlt)
    rw [if_neg h, Except.ok.injEq]
    constructor
    · rintro rfl
      exact .inr ⟨h', rfl⟩
    · rintro (⟨hlt, -⟩ | ⟨-, rfl⟩)
      · omega
      · rfl

theorem WellFormed.report (hv : v.WellFormed) (h : v.applyReportedNav net now = .ok v') :
    v'.WellFormed := by
  have hw := unlockWindow_bounds v now
  obtain ⟨E, -, ⟨-, gain, stop, hg, hs, rfl⟩ | ⟨-, rfl⟩⟩ := report_spec.mp h
  · refine { hv with lockedProfit_le := ?_, unlock_le := ?_ }
    · show (if v.unlockWindow now = 0 then 0 else gain).toNat ≤ net.toNat
      split
      · exact Nat.zero_le _
      · omega
    · show now.toInt ≤ stop.toInt
      omega
  · refine { hv with lockedProfit_le := ?_, unlock_le := ?_ }
    · exact Nat.zero_le _
    · exact Int.le_refl _

/-! ### The window under a clock that never runs back -/

/-- The unlock window is short, and what it still locks started in the past. -/
structure Anchored (v : Vault) (now : Int) : Prop where
  span_lt : v.profitUnlockEndTs.toInt - v.profitUnlockStartTs.toInt < 2 ^ 32
  start_le : 0 < v.lockedProfit.toNat → v.profitUnlockStartTs.toInt ≤ now

theorem Anchored.later {t t' : Int} (h : v.Anchored t) (ht : t ≤ t') : v.Anchored t' :=
  ⟨h.span_lt, fun hl => (h.start_le hl).trans ht⟩

/-- Pricing never fails on a well-formed vault whose window is short. -/
theorem WellFormed.exists_effective {n : Int} (hv : v.WellFormed) (ha : v.Anchored n) (t : I64) :
    ∃ E : U64, v.effectiveTotalAssets t = .ok E ∧
      E.toNat + (v.drip hv.unlock_le).remaining t.toInt = v.totalAssets.toNat := by
  have hspan := ha.span_lt
  obtain ⟨r, hr, hrt⟩ := exists_remaining hv.unlock_le (by omega) t
  have hle : (v.drip hv.unlock_le).remaining t.toInt ≤ v.lockedProfit.toNat :=
    (v.drip hv.unlock_le).remaining_le t.toInt
  have hlocked := hv.lockedProfit_le
  obtain ⟨E, -, hE⟩ := exists_checkedSub (a := v.totalAssets) (b := r) (by omega)
  exact ⟨E, effectiveTotalAssets_eq_ok.mpr ⟨r, hr, hE⟩, by omega⟩

theorem Anchored.debit (ha : v.Anchored now.toInt)
    (h : v.debitAssetsAtEffective a now = .ok v') : v'.Anchored now.toInt := by
  obtain ⟨r, total, hr, -, -, rfl⟩ := debit_spec.mp h
  have hspan := ha.span_lt
  rcases Nat.eq_zero_or_pos r.toNat with h0 | hpos
  · have hstart : (v.debited total r now).profitUnlockStartTs = v.profitUnlockStartTs := by
      show (if r > 0 then now else v.profitUnlockStartTs) = _
      rw [if_neg (by rw [gt_iff_lt, BitVec.lt_def]; simp [h0])]
    refine ⟨by rw [hstart]; exact hspan, fun hl => ?_⟩
    have hl' : 0 < r.toNat := hl
    omega
  · have hstart : (v.debited total r now).profitUnlockStartTs = now := by
      show (if r > 0 then now else v.profitUnlockStartTs) = _
      rw [if_pos (BitVec.lt_def.mpr (by simpa using hpos))]
    refine ⟨?_, fun _ => by rw [hstart]⟩
    rw [hstart]
    -- something was still locked, so the old window had already started
    have := ha.start_le (lt_of_lt_of_le hpos (remaining_le_locked hr))
    show v.profitUnlockEndTs.toInt - now.toInt < 2 ^ 32
    omega

theorem Anchored.report (h : v.applyReportedNav net now = .ok v') : v'.Anchored now.toInt := by
  have hw := unlockWindow_bounds v now
  obtain ⟨E, -, ⟨-, gain, stop, -, hs, rfl⟩ | ⟨-, rfl⟩⟩ := report_spec.mp h
  · refine ⟨?_, fun _ => Int.le_refl _⟩
    show stop.toInt - now.toInt < 2 ^ 32
    omega
  · refine ⟨?_, fun _ => Int.le_refl _⟩
    show now.toInt - now.toInt < 2 ^ 32
    omega

end Roshi.Vault
