import Roshi.System

/-!
# The unlock line under debits and reports

Every payment restates the unlock line from the whole atoms still locked.  Over any
sequence of payments the line never rises, and loses at most one atom for each time
at which something was paid (`debits_preserve_line`).

A gain is locked over the span it was earned in, so it reaches the price by dripping;
a loss lands at once.  `effective_after_report` gives the effective assets right after
a report and shows that from then on they only rise, up to what was reported.

The span of a gain reported in the same second as the report before it is empty: it
is recognized at once, together with whatever was still dripping
(`same_second_report_jumps`).
-/

namespace Roshi

open Lib

namespace Vault

variable {v v' : Vault} {net E : U64} {now : I64}

/-! ### Sequences of debits -/

/-- `debit_assets_at_effective` for each amount and time in turn. -/
def debitAll (v : Vault) : List (U64 × I64) → ProgramResult Vault
  | [] => .ok v
  | (amount, now) :: l => do
    let v ← v.debitAssetsAtEffective amount now
    v.debitAll l

/-- A payment restates the unlock line at its time. -/
theorem drip_debit {a : U64} (h : v.debitAssetsAtEffective a now = .ok v')
    (hv : v.profitUnlockStartTs.toInt ≤ v.profitUnlockEndTs.toInt)
    (hv' : v'.profitUnlockStartTs.toInt ≤ v'.profitUnlockEndTs.toInt) :
    v'.drip hv' = (v.drip hv).restate now.toInt := by
  obtain ⟨r, total, hr, -, -, rfl⟩ := debit_spec.mp h
  have hrem := ((remainingLockedProfit_eq_ok hv).mp hr).1
  rcases Nat.eq_zero_or_pos r.toNat with h0 | hpos
  · rw [Drip.restate_of_dry (hrem ▸ h0)]
    have hstart : (v.debited total r now).profitUnlockStartTs = v.profitUnlockStartTs :=
      if_neg (by rw [gt_iff_lt, BitVec.lt_def]; simp [h0])
    refine Drip.ext h0 ?_ rfl
    show (v.debited total r now).profitUnlockStartTs.toInt = _
    rw [hstart]
    rfl
  · rw [Drip.restate_of_pos (hrem ▸ hpos)]
    have hstart : (v.debited total r now).profitUnlockStartTs = now :=
      if_pos (BitVec.lt_def.mpr (by simpa using hpos))
    refine Drip.ext hrem ?_ rfl
    show (v.debited total r now).profitUnlockStartTs.toInt = _
    rw [hstart]

/-- A sequence of payments restates the line at each of their times, keeps its end, and
lowers the total assets by their sum. -/
theorem debitAll_spec {l : List (U64 × I64)} (hv : v.WellFormed) (h : v.debitAll l = .ok v') :
    ∃ hv' : v'.WellFormed,
      v'.drip hv'.unlock_le = (v.drip hv.unlock_le).restateAll (l.map fun d => d.2.toInt) ∧
      v'.profitUnlockEndTs = v.profitUnlockEndTs ∧
      v'.totalAssets.toNat + (l.map fun d => d.1.toNat).sum = v.totalAssets.toNat := by
  induction l generalizing v with
  | nil =>
    cases h
    exact ⟨hv, rfl, rfl, rfl⟩
  | cons d l ih =>
    obtain ⟨amount, now⟩ := d
    obtain ⟨v₁, h₁, h⟩ := bind_eq_ok.mp h
    have hv₁ := hv.debit h₁
    obtain ⟨hv', hdrip, hend, hsum⟩ := ih hv₁ h
    have hline := drip_debit h₁ hv.unlock_le hv₁.unlock_le
    obtain ⟨r, total, -, -, htotal, rfl⟩ := debit_spec.mp h₁
    have htotal' : (v.debited total r now).totalAssets.toNat = total.toNat := rfl
    refine ⟨hv', ?_, hend, ?_⟩
    · rw [hdrip, hline, List.map_cons, Drip.restateAll_cons]
    · simp only [List.map_cons, List.sum_cons]
      omega

/-- A window that starts at or after the epoch is shorter than `i64`. -/
theorem window_lt (h0 : 0 ≤ v.profitUnlockStartTs.toInt) :
    v.profitUnlockEndTs.toInt - v.profitUnlockStartTs.toInt < 2 ^ 63 := by
  have := v.profitUnlockEndTs.toInt_lt
  omega

/-- **Debits preserve the unlock line.**  After any payments at times that never go back,
starting no earlier than the line, what is locked at a later time is at most what it
would have been, and less by at most the number of distinct times of payment. -/
theorem debits_preserve_line {l : List (U64 × I64)} {t : I64} (hvalid : v.validateState = .ok ())
    (h0 : 0 ≤ v.profitUnlockStartTs.toInt)
    (hfirst : ∀ d ∈ l.head?, v.profitUnlockStartTs.toInt ≤ d.2.toInt)
    (htimes : (l.map fun d => d.2.toInt).Pairwise (· ≤ ·)) (h : v.debitAll l = .ok v')
    (ht : ∀ d ∈ l, d.2.toInt ≤ t.toInt) :
    ∃ r r' : U64, v.remainingLockedProfit t = .ok r ∧ v'.remainingLockedProfit t = .ok r' ∧
      r'.toNat ≤ r.toNat ∧
      r.toNat ≤ r'.toNat + (l.map fun d => d.2.toInt).toFinset.card ∧
      v'.profitUnlockEndTs = v.profitUnlockEndTs ∧
      v'.totalAssets.toNat + (l.map fun d => d.1.toNat).sum = v.totalAssets.toNat := by
  have hv := validateState_eq_ok.mp hvalid
  obtain ⟨hv', hdrip, hend, hsum⟩ := debitAll_spec hv h
  -- the first payment is no earlier than the line, hence none is
  have hstart : ∀ n ∈ l.map fun d => d.2.toInt, v.profitUnlockStartTs.toInt ≤ n := by
    cases l with
    | nil => simp
    | cons d l =>
      have hd := hfirst d rfl
      intro n hn
      rcases List.mem_cons.mp hn with rfl | hn
      · exact hd
      · exact hd.trans ((List.pairwise_cons.mp htimes).1 n hn)
  have hlate : ∀ n ∈ l.map fun d => d.2.toInt, n ≤ t.toInt := by
    intro n hn
    obtain ⟨d, hd, rfl⟩ := List.mem_map.mp hn
    exact ht d hd
  have h0' : 0 ≤ v'.profitUnlockStartTs.toInt := by
    have hle : v.profitUnlockStartTs.toInt ≤ (v'.drip hv'.unlock_le).start := by
      rw [hdrip]
      exact Drip.le_restateAll_start (d := v.drip hv.unlock_le) le_rfl hstart
    exact h0.trans hle
  obtain ⟨r, hr, hrn⟩ := exists_remaining hv.unlock_le (window_lt h0) t
  obtain ⟨r', hr', hrn'⟩ := exists_remaining hv'.unlock_le (window_lt h0') t
  obtain ⟨hlow, hhigh⟩ := Drip.restateAll_bounds (d := v.drip hv.unlock_le) htimes hstart hlate
  rw [← hdrip, ← hrn, ← hrn'] at hlow hhigh
  have hcard := Finset.card_erase_le (s := (l.map fun d => d.2.toInt).toFinset)
    (a := (v.drip hv.unlock_le).start)
  exact ⟨r, r', hr, hr', hlow, by omega, hend, hsum⟩

/-- Three payments at two times out of a gain that is dripping. -/
theorem debits_preserve_line_queued :
    ∃ v' r r',
      Sample.queued.vault.debitAll [(10, 1700011101), (20, 1700011101), (30, 1700051502)]
        = .ok v' ∧
      Sample.queued.vault.remainingLockedProfit 1700071703 = .ok r ∧
      v'.remainingLockedProfit 1700071703 = .ok r' ∧ 0 < r.toNat ∧ r.toNat ≤ r'.toNat + 2 := by
  have hd : Sample.queued.vault.validateState = .ok () ∧
      0 ≤ Sample.queued.vault.profitUnlockStartTs.toInt ∧
      Sample.queued.vault.profitUnlockStartTs.toInt ≤ (1700011101 : I64).toInt ∧
      (Sample.queued.vault.debitAll [(10, 1700011101), (20, 1700011101), (30, 1700051502)]).isOk
        = true ∧
      Sample.queued.vault.remainingLockedProfit 1700071703 = .ok 18 := by
    decide +kernel
  obtain ⟨hvalid, h0, hfirst, hok, hpos⟩ := hd
  have hfirst' : ∀ d ∈ [((10 : U64), (1700011101 : I64)), (20, 1700011101), (30, 1700051502)].head?,
      Sample.queued.vault.profitUnlockStartTs.toInt ≤ d.2.toInt := by
    rintro d ⟨⟩
    exact hfirst
  have hlate : ∀ d ∈ [((10 : U64), (1700011101 : I64)), (20, 1700011101), (30, 1700051502)],
      d.2.toInt ≤ (1700071703 : I64).toInt := by
    intro d hd
    simp only [List.mem_cons, List.not_mem_nil, or_false] at hd
    rcases hd with rfl | rfl | rfl <;> decide
  obtain ⟨r, r', hr, hr', -, hhigh, -, -⟩ :=
    debits_preserve_line (t := 1700071703) hvalid h0 hfirst' (by decide) (eq_okValue hok) hlate
  have hr18 : 18 = r := Except.ok.inj (hpos.symm.trans hr)
  subst hr18
  exact ⟨_, _, r', eq_okValue hok, hpos, hr', by decide, hhigh⟩

/-! ### Reports -/

/-- The effective assets of a report with nothing locked are what was reported. -/
theorem effective_of_unlocked (h : v.lockedProfit = 0) (hv : v.WellFormed) {n : Int}
    (ha : v.Anchored n) (t : I64) : v.effectiveTotalAssets t = .ok v.totalAssets := by
  obtain ⟨E, hE, hsum⟩ := hv.exists_effective ha t
  have hle : (v.drip hv.unlock_le).remaining t.toInt ≤ v.lockedProfit.toNat := Drip.remaining_le _ _
  rw [h] at hle
  have h0 : (0 : U64).toNat = 0 := rfl
  rw [hE, BitVec.eq_of_toNat_eq (show E.toNat = v.totalAssets.toNat by omega)]

/-- The window of a gain is empty exactly in the second of the last report. -/
theorem unlockWindow_pos (hmax : 0 < v.controls.maxUnlockDurationSecs.toNat)
    (hnow : v.lastUpdateTs.toInt < now.toInt) : 0 < (v.unlockWindow now).toInt := by
  rw [toInt_unlockWindow]
  omega

theorem unlockWindow_eq_zero (hnow : now.toInt = v.lastUpdateTs.toInt) :
    v.unlockWindow now = 0 := by
  have hw := toInt_unlockWindow v now
  rw [hnow, Int.sub_self] at hw
  refine Int64.toInt_inj.mp ?_
  rw [hw]
  have h0 : (0 : Int64).toInt = 0 := rfl
  omega

/-- From a report on, the effective assets rise towards what was reported. -/
theorem effective_mono_after_report (hv : v.WellFormed) (h : v.applyReportedNav net now = .ok v')
    {t t' : I64} (ht : t.toInt ≤ t'.toInt) :
    ∃ Et Et' : U64, v'.effectiveTotalAssets t = .ok Et ∧ v'.effectiveTotalAssets t' = .ok Et' ∧
      Et.toNat ≤ Et'.toNat ∧ Et'.toNat ≤ net.toNat := by
  have hv' := hv.report h
  have ha := Anchored.report h
  have htotal : v'.totalAssets = net := by
    obtain ⟨E, -, ⟨-, gain, stop, -, -, rfl⟩ | ⟨-, rfl⟩⟩ := report_spec.mp h
    · rfl
    · rfl
  obtain ⟨Et, hEt, hsum⟩ := hv'.exists_effective ha t
  obtain ⟨Et', hEt', hsum'⟩ := hv'.exists_effective ha t'
  have hfall := Drip.remaining_antitone (d := v'.drip hv'.unlock_le) ht
  rw [htotal] at hsum hsum'
  exact ⟨Et, Et', hEt, hEt', by omega, by omega⟩

/-- **The effective NAV after a report.**  A gain reported later than the last report leaves
it where it was, a loss lowers it to what was reported, a gain reported in the same
second raises it to what was reported; from then on it rises up to what was reported. -/
theorem effective_after_report (hvalid : v.validateState = .ok ())
    (hmax : 0 < v.controls.maxUnlockDurationSecs.toNat) (h : v.applyReportedNav net now = .ok v') :
    ∃ E : U64, v.effectiveTotalAssets now = .ok E ∧
      (v.lastUpdateTs.toInt < now.toInt ∨ net.toNat ≤ E.toNat →
        ∃ E' : U64, v'.effectiveTotalAssets now = .ok E' ∧ E'.toNat = min E.toNat net.toNat) ∧
      (now.toInt = v.lastUpdateTs.toInt → E.toNat < net.toNat →
        v'.effectiveTotalAssets now = .ok net) ∧
      ∀ t t' : I64, now.toInt ≤ t.toInt → t.toInt ≤ t'.toInt →
        ∃ Et Et' : U64, v'.effectiveTotalAssets t = .ok Et ∧
          v'.effectiveTotalAssets t' = .ok Et' ∧ Et.toNat ≤ Et'.toNat ∧
          Et'.toNat ≤ net.toNat := by
  have hv := validateState_eq_ok.mp hvalid
  have hv' := hv.report h
  have ha := Anchored.report h
  obtain ⟨E, hE, hcase⟩ := report_spec.mp h
  refine ⟨E, hE, ?_, ?_, fun t t' _ ht => effective_mono_after_report hv h ht⟩
  · intro hlater
    rcases hcase with ⟨hgain, gain, stop, hg, hs, rfl⟩ | ⟨hloss, rfl⟩
    · -- a gain over a real window: all of it is locked now
      have hwpos := unlockWindow_pos hmax (hlater.resolve_right (by omega))
      have hw0 : v.unlockWindow now ≠ 0 := by
        intro hw
        rw [hw] at hwpos
        exact absurd hwpos (by decide)
      obtain ⟨E', hE', hsum⟩ := hv'.exists_effective ha now
      refine ⟨E', hE', ?_⟩
      rw [Drip.remaining_of_le_start (show now.toInt < stop.toInt by omega)
        (show now.toInt ≤ now.toInt from le_rfl)] at hsum
      have hlock : (v.reported net (if v.unlockWindow now = 0 then 0 else gain) now stop).lockedProfit
          = gain := if_neg hw0
      have hsum' : E'.toNat + gain.toNat = net.toNat := by
        rw [← hlock]
        exact hsum
      omega
    · refine ⟨net, effective_of_unlocked rfl hv' ha now, ?_⟩
      omega
  · intro hsame hgain
    rcases hcase with ⟨-, gain, stop, hg, hs, rfl⟩ | ⟨hloss, -⟩
    · have hw0 := unlockWindow_eq_zero hsame
      exact effective_of_unlocked (if_pos hw0) hv' ha now
    · omega

/-- A gain of a hundred, reported a thousand seconds after the last report. -/
theorem effective_after_report_later :
    ∃ v' E E', Sample.queued.vault.applyReportedNav 1000200 1700002000 = .ok v' ∧
      Sample.queued.vault.effectiveTotalAssets 1700002000 = .ok E ∧
      v'.effectiveTotalAssets 1700002000 = .ok E' ∧ E'.toNat = min E.toNat 1000200 := by
  have hd : (Sample.queued.vault.applyReportedNav 1000200 1700002000).isOk = true ∧
      Sample.queued.vault.validateState = .ok () ∧
      0 < Sample.queued.vault.controls.maxUnlockDurationSecs.toNat ∧
      Sample.queued.vault.lastUpdateTs.toInt < (1700002000 : I64).toInt := by decide +kernel
  obtain ⟨hok, hvalid, hmax, hlater⟩ := hd
  have h := eq_okValue hok
  obtain ⟨E, hE, hafter, -, -⟩ := effective_after_report hvalid hmax h
  obtain ⟨E', hE', hmin⟩ := hafter (.inl hlater)
  exact ⟨_, E, E', h, hE, hE', hmin⟩

/-- The same gain reported again in the second of the last report: the effective assets
jump from a million to what was reported, and the gain still dripping jumps with it. -/
theorem same_second_report_jumps :
    Sample.queued.vault.validateState = .ok () ∧
      0 < Sample.queued.vault.controls.maxUnlockDurationSecs.toNat ∧
      Sample.queued.vault.lastUpdateTs = 1700001000 ∧
      Sample.queued.vault.effectiveTotalAssets 1700001000 = .ok 1000000 ∧
      (do let v' ← Sample.queued.vault.applyReportedNav 1000200 1700001000
          v'.effectiveTotalAssets 1700001000) = .ok 1000200 ∧
      (1000200 : U64).toNat ≠ min (1000000 : U64).toNat (1000200 : U64).toNat := by
  decide +kernel

end Vault

end Roshi
