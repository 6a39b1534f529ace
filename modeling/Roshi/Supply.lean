import Roshi.Queue

/-!
# The economic supply and `u64`

`economic_share_supply` adds the circulating shares and those in the queue, and fails
when the sum leaves `u64`.  A deposit checks the sum before it mints, the mint checks
only its own supply, so a queue of burned shares and a fresh mint can push the sum
over the limit; from then on every instruction that prices shares fails.

`economicSupply_fits_iff` says exactly when that does not happen in a run: when every
deposit mints no more than what is left up to `2 ^ 64`.
-/

namespace Roshi

open Lib

variable {rt : Runtime} {w w' : World} {tr : Trace}

/-- The sum fits in `u64`, and the code can compute it. -/
structure World.SupplyFits (w : World) : Prop where
  le_max : w.economicSupply ≤ 2 ^ 64 - 1
  computes : ∃ S, w.vault.economicShareSupply w.shareSupply = .ok S

theorem supplyFits_iff : w.SupplyFits ↔ w.economicSupply < 2 ^ 64 := by
  constructor
  · intro h
    have := h.le_max
    omega
  · intro h
    obtain ⟨S, -, hS⟩ := exists_checkedAdd (a := w.shareSupply)
      (b := w.vault.requestedWithdrawalShares) h
    exact ⟨by omega, S, Vault.economicShareSupply_eq_ok.mpr hS⟩

/-- The deposit's base value buys fewer shares than are left up to `2 ^ 64`. -/
def DepositFits (rt : Runtime) (w : World) (accounts : List AccountInfo) (args : DepositArgs) :
    Prop :=
  ∃ c base E, DepositContext.load rt w accounts = .ok c ∧
    c.resolveBaseAtoms rt w args = .ok base ∧
    w.vault.effectiveTotalAssets w.clock.unixTimestamp = .ok E ∧
    base.toNat * (w.economicSupply + virtualShares w.vault.baseDecimals) <
      (2 ^ 64 - w.economicSupply) * (E.toNat + 1)

/-- `DepositAndDeploy`, whose downstream program may burn shares. -/
def Event.deploys : Event → Bool
  | .instruction (.depositAndDeploy ..) => true
  | _ => false

/-! ### One step -/

/-- After a deposit the sum fits exactly when the deposit did. -/
theorem deposit_fits_iff {accounts : List AccountInfo} {args : DepositArgs}
    (h : tryDeposit rt w accounts args = .ok w') :
    w'.economicSupply < 2 ^ 64 ↔ DepositFits rt w accounts args := by
  obtain ⟨c, base, shares, hc, hbase, hd⟩ := tryDeposit_deposited h
  obtain ⟨E, hE, hshares⟩ := hd.priced
  have hsupply := hd.economicSupply
  have hlt : w'.economicSupply < 2 ^ 64 ↔ base.toNat *
      (w.economicSupply + virtualShares w.vault.baseDecimals) <
        (2 ^ 64 - w.economicSupply) * (E.toNat + 1) := by
    rw [← Nat.div_lt_iff_lt_mul (by omega), ← hshares]
    omega
  rw [hlt]
  constructor
  · intro hfits
    exact ⟨c, base, E, hc, hbase, hE, hfits⟩
  · rintro ⟨c', base', E', hc', hbase', hE', hfits⟩
    obtain rfl : c = c' := Except.ok.inj (hc.symm.trans hc')
    obtain rfl : base = base' := Except.ok.inj (hbase.symm.trans hbase')
    obtain rfl : E = E' := Except.ok.inj (hE.symm.trans hE')
    exact hfits

/-- No other step raises the sum. -/
theorem OutwardStep.economicSupply_le {e : Event} (ho : w.OpenTickets) (h : OutwardStep rt w e w')
    (hd : e.kind ≠ .deposit) : w'.economicSupply ≤ w.economicSupply := by
  cases e with
  | tick =>
    cases h.apply_eq
    exact le_rfl
  | environment => exact h.supplyRule ho
  | instruction i =>
    have he := h.effect ho
    have hd : i.kind ≠ .deposit := hd
    generalize i.kind = k at he hd
    cases he with
    | deposit => exact (hd rfl).elim
    | redeem h => exact h.economicSupply.le
    | cancelRedeem h => exact h.economicSupply.le
    | processWithdrawals h =>
      have := h.economicSupply
      omega
    | atomicRedeem h =>
      have := h.economicSupply
      omega
    | report h => exact h.economicSupply.le
    | quiet h => exact h.economicSupply.le

/-! ### Whole runs -/

/-- **When the sum stays in range.**  In a run from `InitializeVault` whose atomic redeems call
other programs only, the economic supply fits in `u64` in every state reached exactly when
every deposit of the run fits. -/
theorem economicSupply_fits_iff {w₀ : World} (h0 : Initial rt w₀) (hrun : Run (Step rt) w₀ tr w)
    (hout : Outward tr) (hno : ∀ x ∈ tr, x.event.deploys = false) :
    (∀ x ∈ tr, x.post.SupplyFits) ↔
      ∀ x ∈ tr, ∀ accounts args, x.event = .instruction (.deposit accounts args) →
        DepositFits rt x.pre accounts args := by
  have hrun := run_outward hrun hout
  constructor
  · rintro hfits x hx accounts args he
    obtain ⟨pre, post, rfl⟩ := List.append_of_mem hx
    obtain ⟨-, hstep, -⟩ := hrun.split
    have hexec := hstep.apply_eq
    rw [he] at hexec
    exact (deposit_fits_iff hexec).mp (supplyFits_iff.mp (hfits x hx))
  · intro hdep x hx
    rw [supplyFits_iff]
    -- the sum starts at zero and each step keeps it in range
    have hstart : w₀.economicSupply < 2 ^ 64 := by
      obtain ⟨g, accounts, args, h0⟩ := h0
      obtain ⟨-, -, -, hs, hr, -⟩ := tryInitializeVault_spec h0
      rw [World.economicSupply, hs, hr]
      decide
    refine (hrun.invariant_of_mem (P := fun v => Standing v ∧ v.economicSupply < 2 ^ 64)
      ⟨h0.standing, hstart⟩ ?_ hx).2.2
    rintro y hy hstep ⟨hsy, hlt⟩
    refine ⟨hsy.step hstep.toStep, ?_⟩
    by_cases hk : y.event.kind = .deposit
    · obtain ⟨pre, e, post⟩ := y
      have hnoy := hno _ hy
      cases e with
      | tick => cases hk
      | environment => cases hk
      | instruction i =>
        cases i with
        | deposit accounts args =>
          exact (deposit_fits_iff hstep.apply_eq).mpr (hdep _ hy accounts args rfl)
        | depositAndDeploy => cases hnoy
        | _ => cases hk
    · exact lt_of_le_of_lt (hstep.economicSupply_le hsy.openTickets hk) hlt

theorem economicSupply_fits_iff_strike :
    (∀ x ∈ traceOf Sample.runtime Sample.start Sample.strikeEvents, x.post.SupplyFits) ↔
      ∀ x ∈ traceOf Sample.runtime Sample.start Sample.strikeEvents, ∀ accounts args,
        x.event = .instruction (.deposit accounts args) →
          DepositFits Sample.runtime x.pre accounts args :=
  economicSupply_fits_iff Sample.start_initial Sample.strikeEvents_run (by decide +kernel)
    (by decide +kernel)

/-! ### The sum can leave the range -/

namespace Sample

/-- A vault whose base mint has no decimals: one base atom is `10 ^ 9` share atoms. -/
def coarse : World := okValue (initializeVault 0 1000000000000 1000) (by decide +kernel)

/-- Deposit, burn everything into a ticket, deposit again. -/
def overflowEvents : List Event :=
  [openShares coarse.ledger, deposit 10000000000, redeem 10000000000000000000,
    deposit 10000000000]

end Sample

/-- **Two deposits around a redeem overflow the sum**, and pricing fails from then on. -/
theorem economicSupply_overflows :
    Initial Sample.runtime Sample.coarse ∧
      Run (Step Sample.runtime) Sample.coarse
        (traceOf Sample.runtime Sample.coarse Sample.overflowEvents)
        (Sample.coarse.afterAll Sample.runtime Sample.overflowEvents) ∧
      ¬ (Sample.coarse.afterAll Sample.runtime Sample.overflowEvents).economicSupply ≤ 2 ^ 64 - 1 ∧
      (Sample.coarse.afterAll Sample.runtime Sample.overflowEvents).vault.economicShareSupply
        (Sample.coarse.afterAll Sample.runtime Sample.overflowEvents).shareSupply
        = .error (.custom .overflow) := by
  refine ⟨⟨_, _, _, eq_okValue _⟩, run_traceOf (by decide +kernel)
    ⟨Sample.openShares_admissible _, trivial, trivial, trivial, trivial⟩, ?_, ?_⟩
  · decide +kernel
  · decide +kernel

/-- **An atomic redeem that calls `CancelRedeem` raises the sum** by the ticket's shares, less
those it burns itself: the run has no deposit here. -/
theorem nested_cancel_raises_supply :
    Step Sample.runtime Sample.cancellable Sample.ownCancel
        (Sample.cancellable.after Sample.runtime Sample.ownCancel) ∧
      (Sample.cancellable.after Sample.runtime Sample.ownCancel).economicSupply + 1000000 =
        Sample.cancellable.economicSupply + 500000000 :=
  ⟨Sample.ownCancel_step, by decide +kernel⟩

end Roshi
