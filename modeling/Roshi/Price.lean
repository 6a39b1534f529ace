import Roshi.Invariants
import Roshi.Queue

/-!
# Holders are never diluted

The virtual share price is `(effective + 1) / (supply + requested + V)`.  Every
instruction but a report moves it by a fair mint, by fair payments, or not at all,
and all three round in the pool's favour; time only releases locked profit; foreign
programs can only burn shares.  So between reports the price never falls
(`virtualPrice_le_of_run`).
-/

namespace Roshi

open Lib

variable {rt : Runtime} {w w' : World} {tr : Trace}

/-- The price of one share atom, in base atoms, at the world's own clock. -/
def World.virtualPrice (w : World) : ProgramResult ℚ := do
  let effective ← w.vault.effectiveTotalAssets w.clock.unixTimestamp
  let virtualShares ← into (virtualShareOffset w.vault.baseDecimals)
  .ok (((effective.toNat : ℚ) + 1) /
    ((w.shareSupply.toNat : ℚ) + w.vault.requestedWithdrawalShares.toNat + virtualShares.toNat))

/-! ### Prices as fractions -/

/-- The price of a pool with effective assets `E`, economic supply `S` and offset `V`. -/
def poolPrice (E S V : Nat) : ℚ := ((E : ℚ) + 1) / ((S : ℚ) + V)

/-- The price `w` shows when its effective assets are `E`. -/
def World.priceAt (w : World) (E : U64) : ℚ :=
  poolPrice E.toNat w.economicSupply (virtualShares w.vault.baseDecimals)

theorem virtualPrice_eq_ok (hw : w.vault.WellFormed) {E : U64}
    (hE : w.vault.effectiveTotalAssets w.clock.unixTimestamp = .ok E) :
    w.virtualPrice = .ok (w.priceAt E) := by
  have hV := virtualShares_le w.vault.baseDecimals
  have hv : (BitVec.ofNat 128 (virtualShares w.vault.baseDecimals)).toNat
      = virtualShares w.vault.baseDecimals := by
    rw [BitVec.toNat_ofNat, Nat.mod_eq_of_lt (by omega)]
  rw [World.virtualPrice, bind_eq_ok]
  refine ⟨E, hE, ?_⟩
  rw [bind_eq_ok]
  refine ⟨_, into_eq_ok.mpr (virtualShareOffset_eq_ok.mpr ⟨hw.baseDecimals_le, hv⟩), ?_⟩
  rw [hv, World.priceAt, poolPrice, World.economicSupply]
  push_cast
  rfl

section Fractions

variable {E E' S S' V : Nat}

/-- More assets or fewer shares never lower the price. -/
theorem poolPrice_mono (hV : 0 < V) (hE : E ≤ E') (hS : S' ≤ S) :
    poolPrice E S V ≤ poolPrice E' S' V := by
  have hV' : (0 : ℚ) < V := by exact_mod_cast hV
  have hE' : (E : ℚ) ≤ E' := by exact_mod_cast hE
  have hS' : (S' : ℚ) ≤ S := by exact_mod_cast hS
  refine div_le_div₀ (by positivity) (by linarith) (by positivity) (by linarith)

theorem poolPrice_mint {b s : Nat} (hV : 0 < V) (h : s * (E + 1) ≤ b * (S + V)) :
    poolPrice E S V ≤ poolPrice (E + b) (S + s) V := by
  have hV' : (0 : ℚ) < V := by exact_mod_cast hV
  have hfair : (s : ℚ) * ((E : ℚ) + 1) ≤ b * ((S : ℚ) + V) := by exact_mod_cast h
  have hle := price_le_mint (by positivity) (by positivity) hfair
  have hA : ((E : ℚ) + 1 + b) = ((E + b : Nat) : ℚ) + 1 := by push_cast; ring
  have hS : ((S : ℚ) + V + s) = ((S + s : Nat) : ℚ) + V := by push_cast; ring
  rwa [hA, hS] at hle

theorem poolPrice_pay {a s : Nat} (hV : 0 < V) (h : a * (S + s + V) ≤ s * (E + a + 1)) :
    poolPrice (E + a) (S + s) V ≤ poolPrice E S V := by
  have hV' : (0 : ℚ) < V := by exact_mod_cast hV
  have hfair : (a : ℚ) * (((S + s : Nat) : ℚ) + V) ≤ s * (((E + a : Nat) : ℚ) + 1) := by
    exact_mod_cast h
  have hS0 : (0 : ℚ) ≤ S := by positivity
  have hlt : (s : ℚ) < ((S + s : Nat) : ℚ) + V := by
    push_cast
    linarith
  have hle := price_le_pay (by positivity) hlt hfair
  have hA : (((E + a : Nat) : ℚ) + 1 - a) = (E : ℚ) + 1 := by push_cast; ring
  have hS : (((S + s : Nat) : ℚ) + V - s) = (S : ℚ) + V := by push_cast; ring
  rwa [hA, hS] at hle

end Fractions

/-! ### One step -/

/-- `w'` prices shares, and no lower than `w` with effective assets `E`. -/
def NotDiluted (w : World) (E : U64) (w' : World) : Prop :=
  ∃ E' : U64, w'.vault.effectiveTotalAssets w'.clock.unixTimestamp = .ok E' ∧
    w.priceAt E ≤ w'.priceAt E'

/-- The effective assets are read off four fields. -/
theorem Vault.SameBooks.effective {v v' : Vault} (h : v.SameBooks v') (t : I64) :
    v'.effectiveTotalAssets t = v.effectiveTotalAssets t := by
  rw [effectiveTotalAssets, effectiveTotalAssets, remainingLockedProfit, remainingLockedProfit,
    h.totalAssets, h.lockedProfit, h.profitUnlockStartTs, h.profitUnlockEndTs]

variable {E : U64}

/-- A deposit raises the effective assets of its instant by exactly its base atoms. -/
theorem Deposited.effective {base shares burned : Nat} (h : Deposited w w' base shares burned)
    (hE : w.vault.effectiveTotalAssets w.clock.unixTimestamp = .ok E) :
    ∃ E' : U64, w'.vault.effectiveTotalAssets w'.clock.unixTimestamp = .ok E' ∧
      E'.toNat = E.toNat + base := by
  obtain ⟨r, hr, hsum⟩ := Vault.effectiveTotalAssets_eq_ok.mp hE
  have htotal := h.total
  obtain ⟨E', -, hE'⟩ := exists_checkedSub (a := w'.vault.totalAssets) (b := r) (by omega)
  refine ⟨E', ?_, by omega⟩
  rw [h.clock, h.vault]
  exact Vault.effectiveTotalAssets_eq_ok.mpr ⟨r, hr, hE'⟩

/-- The shares of a deposit are fair at the price it met. -/
theorem Deposited.shares_eq {base shares burned : Nat} (h : Deposited w w' base shares burned)
    (hE : w.vault.effectiveTotalAssets w.clock.unixTimestamp = .ok E) :
    shares = base * (w.economicSupply + virtualShares w.vault.baseDecimals) / (E.toNat + 1) := by
  obtain ⟨E₀, hE₀, hshares⟩ := h.priced
  obtain rfl : E = E₀ := Except.ok.inj (hE.symm.trans hE₀)
  exact hshares

theorem Deposited.notDiluted {base shares burned : Nat} (h : Deposited w w' base shares burned)
    (hE : w.vault.effectiveTotalAssets w.clock.unixTimestamp = .ok E) : NotDiluted w E w' := by
  obtain ⟨E', hE', hsum⟩ := h.effective hE
  have hsupply := h.economicSupply
  have hV := virtualShares_pos w.vault.baseDecimals
  refine ⟨E', hE', ?_⟩
  have hfair : shares * (E.toNat + 1) ≤
      base * (w.economicSupply + virtualShares w.vault.baseDecimals) := by
    rw [h.shares_eq hE]
    exact Nat.div_mul_le_self _ _
  rw [World.priceAt, World.priceAt, h.baseDecimals]
  calc poolPrice E.toNat w.economicSupply (virtualShares w.vault.baseDecimals)
      ≤ poolPrice (E.toNat + base) (w.economicSupply + shares)
          (virtualShares w.vault.baseDecimals) := poolPrice_mint hV hfair
    _ ≤ _ := poolPrice_mono hV (by omega) (by omega)

theorem Processed.notDiluted {l l' : List TicketSettlement} (h : Processed w w' l l')
    (hE : w.vault.effectiveTotalAssets w.clock.unixTimestamp = .ok E) : NotDiluted w E w' := by
  obtain ⟨v₁, settled, hst, hv'⟩ := h.struck
  obtain ⟨hpay, E', hE', hsum⟩ := hst.payouts E hE
  have hsupply := h.economicSupply
  have hV := virtualShares_pos w.vault.baseDecimals
  refine ⟨E', by rw [h.clock, hv']; exact hE', ?_⟩
  -- the batch is one fair payment of the sum
  have hle := payAll_sum_le (A := E.toNat + 1)
    (S := w.economicSupply + virtualShares w.vault.baseDecimals) (l := sharesOf l) (by omega)
  have hpay' : owedTo l' = payAll (E.toNat + 1)
      (w.economicSupply + virtualShares w.vault.baseDecimals) (sharesOf l) := hpay
  rw [← hpay', Nat.le_div_iff_mul_le (by omega)] at hle
  rw [World.priceAt, World.priceAt, h.baseDecimals, ← hsupply, ← hsum]
  rw [← hsupply, ← hsum] at hle
  exact poolPrice_pay hV hle

theorem Unwound.notDiluted {shares burned : Nat} {payout : U64}
    (h : Unwound w w' shares payout burned)
    (hE : w.vault.effectiveTotalAssets w.clock.unixTimestamp = .ok E) : NotDiluted w E w' := by
  obtain ⟨E₀, hE₀, hfair⟩ := h.priced
  obtain rfl : E = E₀ := Except.ok.inj (hE.symm.trans hE₀)
  obtain ⟨E', hE', hsum⟩ := Vault.effective_debit hE h.debit
  have hsupply := h.economicSupply
  have hV := virtualShares_pos w.vault.baseDecimals
  refine ⟨E', by rw [h.clock]; exact hE', ?_⟩
  have hS : w.economicSupply = w'.economicSupply + burned + shares := by omega
  rw [hS, ← hsum] at hfair
  rw [World.priceAt, World.priceAt, h.baseDecimals, hS, ← hsum]
  calc poolPrice (E'.toNat + payout.toNat) (w'.economicSupply + burned + shares) _
      ≤ poolPrice E'.toNat (w'.economicSupply + burned) (virtualShares w.vault.baseDecimals) :=
        poolPrice_pay hV hfair
    _ ≤ _ := poolPrice_mono hV (Nat.le_refl _) (by omega)

/-- A step that leaves the assets alone and adds no share. -/
theorem notDiluted_of_same
    (heff : w'.vault.effectiveTotalAssets w'.clock.unixTimestamp = .ok E)
    (hd : w'.vault.baseDecimals = w.vault.baseDecimals)
    (hS : w'.economicSupply ≤ w.economicSupply) : NotDiluted w E w' := by
  refine ⟨E, heff, ?_⟩
  rw [World.priceAt, World.priceAt, hd]
  exact poolPrice_mono (virtualShares_pos _) (Nat.le_refl _) hS

theorem Effect.notDiluted {k : Kind} (h : Effect w w' k) (hk : k ≠ .report)
    (hE : w.vault.effectiveTotalAssets w.clock.unixTimestamp = .ok E) : NotDiluted w E w' := by
  cases h with
  | deposit h => exact h.notDiluted hE
  | redeem h =>
    exact notDiluted_of_same (by rw [h.clock, h.vault]; exact hE) h.baseDecimals
      h.economicSupply.le
  | cancelRedeem h =>
    exact notDiluted_of_same (by rw [h.clock, h.vault]; exact hE) h.baseDecimals
      h.economicSupply.le
  | processWithdrawals h => exact h.notDiluted hE
  | atomicRedeem h => exact h.notDiluted hE
  | report => exact (hk rfl).elim
  | quiet h =>
    exact notDiluted_of_same (by rw [h.clock, h.books.effective]; exact hE) h.baseDecimals
      h.economicSupply.le

theorem Sound.notDiluted {e : Event} (hs : Sound w) (h : OutwardStep rt w e w')
    (hk : e.kind ≠ .report)
    (hf : w.clock.unixTimestamp.toInt ≤ w'.clock.unixTimestamp.toInt)
    (hE : w.vault.effectiveTotalAssets w.clock.unixTimestamp = .ok E) : NotDiluted w E w' := by
  cases e with
  | instruction i => exact (h.effect hs.openTickets).notDiluted hk hE
  | environment env =>
    have hrule : w'.economicSupply ≤ w.economicSupply := h.supplyRule hs.openTickets
    cases h.apply_eq
    exact notDiluted_of_same hE rfl hrule
  | tick clock =>
    cases h.apply_eq
    -- later on less is locked
    have hf : w.clock.unixTimestamp.toInt ≤ clock.unixTimestamp.toInt := hf
    obtain ⟨E₀, hE₀, hsum⟩ := hs.wellFormed.exists_effective hs.anchored w.clock.unixTimestamp
    obtain rfl : E = E₀ := Except.ok.inj (hE.symm.trans hE₀)
    obtain ⟨E', hE', hsum'⟩ := hs.wellFormed.exists_effective hs.anchored clock.unixTimestamp
    have hfall := Drip.remaining_antitone (d := w.vault.drip hs.wellFormed.unlock_le) hf
    refine ⟨E', hE', ?_⟩
    exact poolPrice_mono (virtualShares_pos _) (by omega) (Nat.le_refl _)

/-! ### Whole runs -/

/-- **No operation dilutes holders** if atomic redeems call other programs only.  From any
reachable state, any such run without a report under a clock that never goes back ends at a
price no lower than it started. -/
theorem virtualPrice_le_of_run (hw : ReachableForward rt w) (hrun : Run (Step rt) w tr w')
    (hf : Forward tr) (hout : Outward tr) (hno : ∀ x ∈ tr, x.event.kind ≠ .report) :
    ∃ p p', w.virtualPrice = .ok p ∧ w'.virtualPrice = .ok p' ∧ p ≤ p' := by
  have hs := hw.sound
  obtain ⟨E, hE⟩ := hs.exists_effective w.clock.unixTimestamp
  have hend := (run_outward hrun hout).invariant (P := fun v => Sound v ∧ NotDiluted w E v)
    ⟨hs, E, hE, le_rfl⟩ ?_
  · obtain ⟨hs', E', hE', hle⟩ := hend
    exact ⟨_, _, virtualPrice_eq_ok hs.wellFormed hE, virtualPrice_eq_ok hs'.wellFormed hE', hle⟩
  · rintro x hx hstep ⟨hsx, Ex, hEx, hle⟩
    obtain ⟨E', hE', hle'⟩ := hsx.notDiluted hstep (hno x hx) (hf x hx) hEx
    exact ⟨hsx.step hstep.toStep (hf x hx), E', hE', hle.trans hle'⟩

theorem virtualPrice_le_of_run_cancel :
    ∃ p p', Sample.struck.virtualPrice = .ok p ∧
      (Sample.struck.afterAll Sample.runtime Sample.cancelEvents).virtualPrice = .ok p' ∧
      p ≤ p' :=
  virtualPrice_le_of_run Sample.struck_reachable Sample.cancelEvents_run (by decide +kernel)
    (by decide +kernel) (by decide +kernel)

/-- **An atomic redeem that calls `CancelRedeem` dilutes.**  The ticket's shares are minted
back, but the record stored still counts them as requested, so the price falls. -/
theorem nested_cancel_dilutes :
    ReachableForward Sample.runtime Sample.cancellable ∧
      Run (Step Sample.runtime) Sample.cancellable
        (traceOf Sample.runtime Sample.cancellable [Sample.ownCancel])
        (Sample.cancellable.after Sample.runtime Sample.ownCancel) ∧
      Forward (traceOf Sample.runtime Sample.cancellable [Sample.ownCancel]) ∧
      (∀ x ∈ traceOf Sample.runtime Sample.cancellable [Sample.ownCancel],
        x.event.kind = .atomicRedeem) ∧
      ∃ p p', Sample.cancellable.virtualPrice = .ok p ∧
        (Sample.cancellable.after Sample.runtime Sample.ownCancel).virtualPrice = .ok p' ∧
        p' < p := by
  refine ⟨Sample.cancellable_reachable, .single Sample.ownCancel_step, by decide +kernel,
    by decide +kernel, ?_⟩
  have hd : ∃ h h', okValue
      (Sample.cancellable.after Sample.runtime Sample.ownCancel).virtualPrice h' <
        okValue Sample.cancellable.virtualPrice h := by decide +kernel
  obtain ⟨h, h', hlt⟩ := hd
  exact ⟨_, _, eq_okValue h, eq_okValue h', hlt⟩

end Roshi
