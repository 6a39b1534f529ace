import Roshi.System

/-!
# What a step does to the books

The one place where the instructions are taken apart by kind.  `Effect k w w'` says
everything a successful instruction of kind `k` does to total assets, the unlock
window, the share supply and the ticket table; `exec_effect` proves it of `exec`, and
every invariant of the system is then a case analysis over seven kinds.

The amounts are naturals.  A relaying instruction lets a foreign program run, which
may burn shares on the way; `burned` is what it burned.  An instruction that calls the
program itself has no such effect, only what `Kept` keeps of a world (`exec_kept`).
-/

namespace Roshi

open Lib

/-! ### The effects -/

/-- The parts of the world no instruction changes. -/
structure Framed (w w' : World) : Prop where
  vaultKey : w'.vaultKey = w.vaultKey
  clock : w'.clock = w.clock
  shareMint : w'.vault.shareMint = w.vault.shareMint
  baseDecimals : w'.vault.baseDecimals = w.vault.baseDecimals
  mint : w.ledger.ValidMint w.vault.shareMint → w'.ledger.ValidMint w.vault.shareMint

/-- A deposit worth `base` that minted `shares`. -/
structure Deposited (w w' : World) (base shares burned : Nat) : Prop extends Framed w w' where
  vault : w'.vault = { w.vault with totalAssets := w'.vault.totalAssets }
  total : w'.vault.totalAssets.toNat = w.vault.totalAssets.toNat + base
  supply : w'.shareSupply.toNat + burned = w.shareSupply.toNat + shares
  priced : ∃ E : U64, w.vault.effectiveTotalAssets w.clock.unixTimestamp = .ok E ∧
    shares = base * (w.economicSupply + virtualShares w.vault.baseDecimals) / (E.toNat + 1)
  tickets : w'.tickets = w.tickets

/-- A redeem that burned the shares of `t` into a new ticket at `key`. -/
structure Opened (w w' : World) (key : Pubkey) (t : WithdrawalTicket) : Prop
    extends Framed w w' where
  vault : w'.vault =
    { w.vault with requestedWithdrawalShares := w'.vault.requestedWithdrawalShares }
  requested : w'.vault.requestedWithdrawalShares.toNat =
    w.vault.requestedWithdrawalShares.toNat + t.sharesBurned.toNat
  supply : w'.shareSupply.toNat + t.sharesBurned.toNat = w.shareSupply.toNat
  fresh : w.tickets.lookup key = none
  tickets : w'.tickets = w.tickets.insert key t
  unpriced : t.assetsOwed = 0
  shares_pos : 0 < t.sharesBurned.toNat
  epoch : t.requestEpoch = w.vault.reportEpoch

/-- A cancel that closed the ticket `t` at `key` and minted its shares back. -/
structure Cancelled (w w' : World) (key : Pubkey) (t : WithdrawalTicket) : Prop
    extends Framed w w' where
  vault : w'.vault =
    { w.vault with requestedWithdrawalShares := w'.vault.requestedWithdrawalShares }
  requested : w'.vault.requestedWithdrawalShares.toNat + t.sharesBurned.toNat =
    w.vault.requestedWithdrawalShares.toNat
  supply : w'.shareSupply.toNat = w.shareSupply.toNat + t.sharesBurned.toNat
  live : w.tickets.lookup key = some t
  tickets : w'.tickets = w.tickets.erase key

/-- The addresses of a batch. -/
def keysOf (l : List TicketSettlement) : List Pubkey := (l.map TicketSettlement.row).map Prod.fst

/-- A batch `l` struck into `l'`, paid and closed. -/
structure Processed (w w' : World) (l l' : List TicketSettlement) : Prop
    extends Framed w w' where
  batch : LoadedBatch w l
  struck : ∃ v₁ settled, StruckAll w.vault v₁ w.shareSupply w.clock.unixTimestamp 0 settled l l' ∧
    w'.vault = { v₁ with pendingWithdrawalAssets := w.vault.pendingWithdrawalAssets }
  wellFormed : w'.vault.WellFormed
  supply : w'.shareSupply = w.shareSupply
  tickets : w'.tickets = w.tickets.eraseAll (keysOf l)

/-- An atomic redeem of `shares` that paid `payout`. -/
structure Unwound (w w' : World) (shares : Nat) (payout : U64) (burned : Nat) : Prop
    extends Framed w w' where
  debit : w.vault.debitAssetsAtEffective payout w.clock.unixTimestamp = .ok w'.vault
  wellFormed : w'.vault.WellFormed
  supply : w'.shareSupply.toNat + shares + burned = w.shareSupply.toNat
  priced : ∃ E : U64, w.vault.effectiveTotalAssets w.clock.unixTimestamp = .ok E ∧
    payout.toNat * (w.economicSupply + virtualShares w.vault.baseDecimals) ≤
      shares * (E.toNat + 1)
  tickets : w'.tickets = w.tickets

/-- A NAV report. -/
structure Reported (w w' : World) : Prop extends Framed w w' where
  wellFormed : w'.vault.WellFormed
  anchored : w'.vault.Anchored w.clock.unixTimestamp.toInt
  requested : w'.vault.requestedWithdrawalShares = w.vault.requestedWithdrawalShares
  pending : w'.vault.pendingWithdrawalAssets = w.vault.pendingWithdrawalAssets
  epoch : w'.vault.reportEpoch.toNat = w.vault.reportEpoch.toNat + 1
  supply : w'.shareSupply = w.shareSupply
  tickets : w'.tickets = w.tickets

/-- The fields of the record that shares are priced and queued by. -/
structure Vault.SameBooks (v v' : Vault) : Prop where
  totalAssets : v'.totalAssets = v.totalAssets
  lockedProfit : v'.lockedProfit = v.lockedProfit
  profitUnlockStartTs : v'.profitUnlockStartTs = v.profitUnlockStartTs
  profitUnlockEndTs : v'.profitUnlockEndTs = v.profitUnlockEndTs
  requestedWithdrawalShares : v'.requestedWithdrawalShares = v.requestedWithdrawalShares
  pendingWithdrawalAssets : v'.pendingWithdrawalAssets = v.pendingWithdrawalAssets
  reportEpoch : v'.reportEpoch = v.reportEpoch
  shareMint : v'.shareMint = v.shareMint
  baseDecimals : v'.baseDecimals = v.baseDecimals

theorem Vault.SameBooks.refl (v : Vault) : v.SameBooks v :=
  ⟨rfl, rfl, rfl, rfl, rfl, rfl, rfl, rfl, rfl⟩

/-- An instruction that moves neither shares nor NAV. -/
structure Unpriced (w w' : World) : Prop extends Framed w w' where
  books : w.vault.SameBooks w'.vault
  wellFormed : w'.vault.WellFormed
  supply : w'.shareSupply = w.shareSupply
  tickets : w'.tickets = w.tickets

inductive Effect (w w' : World) : Kind → Prop
  | deposit {base shares burned : Nat} (h : Deposited w w' base shares burned) :
      Effect w w' .deposit
  | redeem {key : Pubkey} {t : WithdrawalTicket} (h : Opened w w' key t) : Effect w w' .redeem
  | cancelRedeem {key : Pubkey} {t : WithdrawalTicket} (h : Cancelled w w' key t) :
      Effect w w' .cancelRedeem
  | processWithdrawals {l l' : List TicketSettlement} (h : Processed w w' l l') :
      Effect w w' .processWithdrawals
  | atomicRedeem {shares burned : Nat} {payout : U64} (h : Unwound w w' shares payout burned) :
      Effect w w' .atomicRedeem
  | report (h : Reported w w') : Effect w w' .report
  | quiet (h : Unpriced w w') : Effect w w' .quiet

/-! ### One lemma per instruction -/

variable {rt : Runtime} {w w' : World} {accounts : List AccountInfo}

/-- The exact effect of `execute_deposit`, for the callers that add nothing to it. -/
theorem executeDeposit_deposited {c : DepositContext} {args : DepositArgs} (hc : c.Loaded w)
    (h : executeDeposit rt w c args = .ok w') :
    ∃ base shares : U64, c.resolveBaseAtoms rt w args = .ok base ∧
      Deposited w w' base.toNat shares.toNat 0 := by
  obtain ⟨base, S, E, shares, total, l, l', hbase, hS, hE, hshares, htotal, hl, hl', rfl⟩ :=
    executeDeposit_spec hc h
  obtain ⟨-, -, -, hs⟩ := sharesForDeposit_eq_ok.mp hshares
  have hsupply : (l'.supply w.vault.shareMint).toNat =
      (w.ledger.supply w.vault.shareMint).toNat + shares.toNat := by
    have := (Spl.mintTo_spec hl').1 w.vault.shareMint
    rw [if_pos rfl] at this
    rw [this, Ledger.supply_congr (Spl.transfer_spec hl).1]
  have hvalid : w.ledger.ValidMint w.vault.shareMint → l'.ValidMint w.vault.shareMint :=
    fun hv => Spl.mintTo_valid hl' (Ledger.validMint_congr (Spl.transfer_spec hl).1 hv)
  exact ⟨base, shares, hbase, ⟨rfl, rfl, rfl, rfl, hvalid⟩, rfl, htotal, hsupply,
    ⟨E, hE, hS ▸ hs⟩, rfl⟩

theorem tryDeposit_deposited {args : DepositArgs} (h : tryDeposit rt w accounts args = .ok w') :
    ∃ c base shares, DepositContext.load rt w accounts = .ok c ∧
      c.resolveBaseAtoms rt w args = .ok base ∧
      Deposited w w' base.toNat (BitVec.toNat (w := 64) shares) 0 := by
  simp only [tryDeposit, bind_eq_ok] at h
  obtain ⟨_, -, c, hc, h⟩ := h
  obtain ⟨base, shares, hbase, hd⟩ := executeDeposit_deposited (DepositContext.load_spec hc) h
  exact ⟨c, base, shares, hc, hbase, hd⟩

theorem tryDepositAndDeploy_deposited {args : DepositAndDeployArgs} {relay : Relay}
    (hr : relay.LeavesRecords w.vault.shareMint)
    (h : tryDepositAndDeploy rt w accounts args relay = .ok w') :
    ∃ base shares burned, Deposited w w' base shares burned := by
  simp only [tryDepositAndDeploy, bind_eq_ok, Prod.exists] at h
  obtain ⟨_, -, _, -, c, hc, _, _, -, _, _, -, _, -, _, -, _, -, _, -, _, -, _, -, _, -, _, -, _, -,
    w₁, hw₁, h⟩ := h
  obtain ⟨base, shares, -, hd⟩ := executeDeposit_deposited (DepositContext.load_spec hc) hw₁
  obtain ⟨env, rfl, hmint⟩ := hr _ _ h
  have hsupply : w₁.shareSupply = w₁.ledger.supply w.vault.shareMint := by
    rw [World.shareSupply, hd.shareMint]
  have h1 := hd.supply
  have h2 : (w₁.under env).shareSupply = env.ledger.supply w.vault.shareMint := by
    show env.ledger.supply w₁.vault.shareMint = _
    rw [hd.shareMint]
  refine ⟨base.toNat, shares.toNat,
    (w₁.ledger.supply w.vault.shareMint).toNat - (env.ledger.supply w.vault.shareMint).toNat,
    ⟨hd.vaultKey, hd.clock, hd.shareMint, hd.baseDecimals, fun hv => hmint.valid (hd.mint hv)⟩,
    hd.vault, hd.total, ?_, hd.priced, hd.tickets⟩
  have hle := hmint.supply_le
  rw [h2]
  rw [hsupply] at h1
  omega

theorem tryRedeem_opened {args : RedeemArgs} (h : tryRedeem rt w accounts args = .ok w') :
    ∃ key t, Opened w w' key t := by
  obtain ⟨c, l, requested, hc, h0, hl, hr, rfl⟩ := tryRedeem_spec h
  have hsupply := (Spl.burn_spec hl).1 w.vault.shareMint
  rw [if_pos rfl] at hsupply
  exact ⟨c.ticket.key, c.newTicket w args, ⟨rfl, rfl, rfl, rfl, Spl.burn_valid hl⟩, rfl, hr,
    hsupply, hc.ticket_new,
    rfl, rfl, Nat.pos_of_ne_zero h0, by rw [← hc.vault_eq]; rfl⟩

theorem tryCancelRedeem_cancelled {minSharesOut : U64}
    (h : tryCancelRedeem rt w accounts minSharesOut = .ok w') : ∃ key t, Cancelled w w' key t := by
  obtain ⟨c, l, requested, hc, hl, hr, rfl⟩ := tryCancelRedeem_spec h
  have hsupply := (Spl.mintTo_spec hl).1 w.vault.shareMint
  rw [if_pos rfl] at hsupply
  exact ⟨c.ticketAccount.key, c.ticket, ⟨rfl, rfl, rfl, rfl, Spl.mintTo_valid hl⟩, rfl, hr, hsupply,
    hc.lookup, rfl⟩

theorem tryProcessWithdrawals_processed
    (hlive : ∀ k t, w.tickets.lookup k = some t → t.assetsOwed = 0)
    (h : tryProcessWithdrawals rt w accounts = .ok w') : ∃ l l', Processed w w' l l' := by
  obtain ⟨c, v₁, v', settled, batch, l, hc, hst, -, hm, hv', hpend, hwf, rfl⟩ :=
    tryProcessWithdrawals_spec hlive h
  rw [hpend] at hv'
  have hmint : v'.shareMint = w.vault.shareMint := by
    rw [hv']
    exact hst.frame.eq (f := Vault.shareMint) fun _ => rfl
  have hdec : v'.baseDecimals = w.vault.baseDecimals := by
    rw [hv']
    exact hst.frame.eq (f := Vault.baseDecimals) fun _ => rfl
  refine ⟨c.tickets, batch, ⟨rfl, rfl, hmint, hdec, Ledger.validMint_congr hm⟩, hc.batch,
    ⟨v₁, settled, hst, hv'⟩, hwf, ?_, rfl⟩
  show l.supply v'.shareMint = w.ledger.supply w.vault.shareMint
  rw [hmint, Ledger.supply_congr hm]

/-- A payment is priced below the shares' floor value. -/
theorem payout_fair {s E S a : U64} {d : U8} {payout : Nat} (h : assetsForShares s E S d = .ok a)
    (hle : payout ≤ a.toNat) :
    payout * (S.toNat + virtualShares d) ≤ s.toNat * (E.toNat + 1) := by
  obtain ⟨-, -, ha⟩ := assetsForShares_eq_ok.mp h
  calc payout * (S.toNat + virtualShares d)
      ≤ a.toNat * (S.toNat + virtualShares d) := Nat.mul_le_mul_right _ hle
    _ ≤ s.toNat * (E.toNat + 1) := by rw [ha]; exact Nat.div_mul_le_self _ _

theorem tryAtomicRedeem_unwound {args : AtomicRedeemArgs} {relay : Relay}
    (hr : relay.LeavesRecords w.vault.shareMint)
    (h : tryAtomicRedeem rt w accounts args relay = .ok w') :
    ∃ payout burned, Unwound w w' args.shares.toNat payout burned := by
  obtain ⟨c, S, E, owed, received, payout, w₁, l₂, l₃, v', hc, -, hS, hE, howed, hrun, -, hpay, hle,
    hl₂, hl₃, hv', hwf, rfl⟩ := tryAtomicRedeem_spec h
  obtain ⟨env, rfl, hkept⟩ := hr _ _ hrun
  have hmint : v'.shareMint = w.vault.shareMint ∧ v'.baseDecimals = w.vault.baseDecimals := by
    obtain ⟨r, total, -, -, -, rfl⟩ := Vault.debit_spec.mp hv'
    exact ⟨rfl, rfl⟩
  have hburn := (Spl.burn_spec hl₃).1 w.vault.shareMint
  rw [if_pos rfl, Ledger.supply_congr (Spl.transfer_spec hl₂).1] at hburn
  have hburn : (l₃.supply w.vault.shareMint).toNat + args.shares.toNat =
      (env.ledger.supply w.vault.shareMint).toNat := hburn
  have hle' := hkept.supply_le
  have hvalid : w.ledger.ValidMint w.vault.shareMint → l₃.ValidMint w.vault.shareMint := fun hv =>
    Spl.burn_valid hl₃ (Ledger.validMint_congr (Spl.transfer_spec hl₂).1 (hkept.valid hv))
  refine ⟨payout,
    (w.ledger.supply w.vault.shareMint).toNat - (env.ledger.supply w.vault.shareMint).toNat,
    ⟨rfl, rfl, hmint.1, hmint.2, hvalid⟩, hv', hwf, ?_,
    ⟨E, hE, hS ▸ payout_fair howed (by omega)⟩, rfl⟩
  show (l₃.supply v'.shareMint).toNat + _ + _ = (w.ledger.supply w.vault.shareMint).toNat
  rw [hmint.1]
  omega

theorem applyNavReport_reported {args : NavReport} {kind : ReportKind}
    (h : applyNavReport rt w accounts args kind = .ok w') : Reported w w' := by
  obtain ⟨G, S, v', -, -, -, hv', hwf, rfl⟩ := applyNavReport_spec h
  obtain ⟨B, fee, net, hwm, fees, epoch, v₁, -, -, -, hepoch, hv₁, rfl⟩ := recordReport_spec hv'
  have hanch := Vault.Anchored.report hv₁
  obtain ⟨E, -, ⟨-, gain, stop, -, -, rfl⟩ | ⟨-, rfl⟩⟩ := Vault.report_spec.mp hv₁
  -- with a drip and without one, the same fields are kept
  all_goals
    exact ⟨⟨rfl, rfl, rfl, rfl, id⟩, hwf, ⟨hanch.span_lt, hanch.start_le⟩, rfl, rfl, hepoch, rfl,
      rfl⟩

/-- A new ledger with the old mints and a new record with the old priced fields. -/
theorem unpriced_of_sameBooks {l : Ledger} {v : Vault} (hm : l.mints = w.ledger.mints)
    (hbooks : w.vault.SameBooks v) (hwf : v.WellFormed) :
    Unpriced w { w with ledger := l, vault := v } := by
  refine ⟨⟨rfl, rfl, hbooks.shareMint, hbooks.baseDecimals, Ledger.validMint_congr hm⟩, hbooks, hwf,
    ?_, rfl⟩
  show l.supply v.shareMint = w.ledger.supply w.vault.shareMint
  rw [hbooks.shareMint, Ledger.supply_congr hm]

/-- An admin update that changes no priced field. -/
theorem updateWritableVaultAsAdmin_unpriced {update : Vault → ProgramResult Vault}
    (h : updateWritableVaultAsAdmin rt w accounts update = .ok w')
    (hupdate : ∀ v v', update v = .ok v' → v.SameBooks v') : Unpriced w w' := by
  obtain ⟨v', hv', hwf, rfl⟩ := updateWritableVaultAsAdmin_spec h
  exact unpriced_of_sameBooks rfl (hupdate _ _ hv') hwf

/-- A setter: an update that always succeeds. -/
theorem setter_unpriced {f : Vault → Vault}
    (h : updateWritableVaultAsAdmin rt w accounts (fun v => .ok (f v)) = .ok w')
    (hf : ∀ v : Vault, v.SameBooks (f v)) : Unpriced w w' := by
  refine updateWritableVaultAsAdmin_unpriced h ?_
  intro v v' hv
  cases hv
  exact hf v

theorem tryWriteDownFees_unpriced {amount : U64}
    (h : tryWriteDownFees rt w accounts amount = .ok w') : Unpriced w w' := by
  simp only [tryWriteDownFees, bind_eq_ok] at h
  obtain ⟨_, -, h⟩ := h
  refine updateWritableVaultAsAdmin_unpriced h ?_
  intro v v' hv
  simp only [bind_eq_ok, Except.ok.injEq] at hv
  obtain ⟨_, -, rfl⟩ := hv
  exact { Vault.SameBooks.refl v with }

/-! ### All of them -/

/-- **Every successful instruction has the effect of its kind** if its call runs other programs
only.  A batch is struck in full only when none of the live tickets is priced already. -/
theorem exec_effect {i : Instruction} (hm : i.NeverMints w.vault.shareMint)
    (hout : i.outward = true) (hlive : i.kind = .processWithdrawals →
      ∀ k t, w.tickets.lookup k = some t → t.assetsOwed = 0)
    (h : exec rt w i = .ok w') : Effect w w' i.kind := by
  have hsame := Vault.SameBooks.refl
  cases i with
  | deposit =>
    obtain ⟨_, _, _, -, -, hd⟩ := tryDeposit_deposited h
    exact .deposit hd
  | depositAndDeploy =>
    obtain ⟨_, _, _, hd⟩ := tryDepositAndDeploy_deposited (Call.leavesRecords hout hm) h
    exact .deposit hd
  | redeem =>
    obtain ⟨_, _, ho⟩ := tryRedeem_opened h
    exact .redeem ho
  | cancelRedeem =>
    obtain ⟨_, _, hc⟩ := tryCancelRedeem_cancelled h
    exact .cancelRedeem hc
  | processWithdrawals =>
    obtain ⟨_, _, hp⟩ := tryProcessWithdrawals_processed (hlive rfl) h
    exact .processWithdrawals hp
  | atomicRedeem =>
    obtain ⟨_, _, hu⟩ := tryAtomicRedeem_unwound (Call.leavesRecords hout hm) h
    exact .atomicRedeem hu
  | reportNav => exact .report (applyNavReport_reported h)
  | recoverNav => exact .report (applyNavReport_reported h)
  | collectFees =>
    obtain ⟨_, _, _, _, l, fees, hl, -, hwf, rfl⟩ := tryCollectFees_spec h
    exact .quiet (unpriced_of_sameBooks (Spl.transfer_spec hl).1 { hsame w.vault with } hwf)
  | writeDownFees => exact .quiet (tryWriteDownFees_unpriced h)
  | investExternal =>
    obtain ⟨l, ext, hl, hwf, rfl⟩ := tryInvestExternal_spec h
    exact .quiet (unpriced_of_sameBooks hl { hsame w.vault with } hwf)
  | returnExternal =>
    obtain ⟨l, ext, hl, hwf, rfl⟩ := tryReturnExternal_spec h
    exact .quiet (unpriced_of_sameBooks hl { hsame w.vault with } hwf)
  | updateVaultConfig accounts args =>
    obtain ⟨hwf, rfl⟩ := tryUpdateVaultConfig_spec h
    exact .quiet (unpriced_of_sameBooks rfl { hsame w.vault with } hwf)
  | setPauseFlags =>
    exact .quiet (setter_unpriced h fun v => { hsame v with })
  | setVaultAccess =>
    exact .quiet (setter_unpriced h fun v => { hsame v with })
  | setStrategist =>
    exact .quiet (setter_unpriced h fun v => { hsame v with })
  | setSwapAuthority =>
    exact .quiet (setter_unpriced h fun v => { hsame v with })
  | setNavAuthority =>
    exact .quiet (setter_unpriced h fun v => { hsame v with })
  | setWithdrawalAuthority =>
    exact .quiet (setter_unpriced h fun v => { hsame v with })
  | transferVaultAuthority =>
    exact .quiet (setter_unpriced h fun v => { hsame v with })

/-! ### What nested calls keep -/

theorem Framed.refl (w : World) : Framed w w := ⟨rfl, rfl, rfl, rfl, id⟩

theorem Framed.trans {w₁ : World} (h : Framed w w₁) (h' : Framed w₁ w') : Framed w w' where
  vaultKey := h'.vaultKey.trans h.vaultKey
  clock := h'.clock.trans h.clock
  shareMint := h'.shareMint.trans h.shareMint
  baseDecimals := h'.baseDecimals.trans h.baseDecimals
  mint hv := h.shareMint ▸ h'.mint (h.shareMint.symm ▸ h.mint hv)

theorem Effect.framed {k : Kind} (h : Effect w w' k) : Framed w w' := by
  cases h with
  | deposit h => exact h.toFramed
  | redeem h => exact h.toFramed
  | cancelRedeem h => exact h.toFramed
  | processWithdrawals h => exact h.toFramed
  | atomicRedeem h => exact h.toFramed
  | report h => exact h.toFramed
  | quiet h => exact h.toFramed

/-- No live ticket is priced yet, and none is empty. -/
def World.OpenTickets (w : World) : Prop :=
  ∀ k t, w.tickets.lookup k = some t → t.assetsOwed = 0 ∧ 0 < t.sharesBurned.toNat

/-- Tickets come to be open, and stay as they are until they close. -/
theorem Effect.openTickets {k : Kind} (h : Effect w w' k) (ho : w.OpenTickets) :
    w'.OpenTickets := by
  intro key t hl
  cases h with
  | deposit h => exact ho key t (h.tickets ▸ hl)
  | @redeem k' t' h =>
    rw [h.tickets] at hl
    rcases eq_or_ne key k' with rfl | hne
    · rw [AList.lookup_insert] at hl
      cases hl
      exact ⟨h.unpriced, h.shares_pos⟩
    · rw [AList.lookup_insert_ne hne] at hl
      exact ho key t hl
  | @cancelRedeem k' t' h =>
    rw [h.tickets] at hl
    rcases eq_or_ne key k' with rfl | hne
    · rw [AList.lookup_erase] at hl
      cases hl
    · rw [AList.lookup_erase_ne hne] at hl
      exact ho key t hl
  | processWithdrawals h =>
    rw [h.tickets] at hl
    exact ho key t (Table.lookup_of_eraseAll hl).2
  | atomicRedeem h => exact ho key t (h.tickets ▸ hl)
  | report h => exact ho key t (h.tickets ▸ hl)
  | quiet h => exact ho key t (h.tickets ▸ hl)

/-- What every instruction leaves of a world with open tickets, nested calls included. -/
structure Kept (w w' : World) : Prop extends Framed w w' where
  openTickets : w'.OpenTickets

/-- What an atomic redeem does whatever it calls: the record stored is the one loaded before the
call, less the payout. -/
structure Restored (w w' : World) : Prop extends Kept w w' where
  debit : ∃ payout, w.vault.debitAssetsAtEffective payout w.clock.unixTimestamp = .ok w'.vault
  wellFormed : w'.vault.WellFormed

theorem tryAtomicRedeem_restored {args : AtomicRedeemArgs} {relay : Relay}
    (hcall : ∀ w₁, relay.run w = .ok w₁ → Kept w w₁)
    (h : tryAtomicRedeem rt w accounts args relay = .ok w') : Restored w w' := by
  obtain ⟨c, S, E, owed, received, payout, w₁, l₂, l₃, v', hc, -, -, -, -, hrun, -, -, -, hl₂, hl₃,
    hv', hwf, rfl⟩ := tryAtomicRedeem_spec h
  have hkept := hcall w₁ hrun
  have hdebit := hv'
  obtain ⟨r, total, -, -, -, rfl⟩ := Vault.debit_spec.mp hv'
  refine ⟨⟨⟨hkept.vaultKey, hkept.clock, rfl, rfl, ?_⟩, hkept.openTickets⟩, ⟨payout, hdebit⟩, hwf⟩
  intro hv
  exact Spl.burn_valid hl₃ (Ledger.validMint_congr (Spl.transfer_spec hl₂).1 (hkept.mint hv))

mutual

/-- **What every instruction keeps**, by recursion into the calls it relays. -/
theorem exec_kept : ∀ (i : Instruction) {w w' : World}, i.NeverMints w.vault.shareMint →
    w.OpenTickets → exec rt w i = .ok w' → Kept w w' := by
  intro i w w' hm ho h
  have heffect : i.outward = true → Kept w w' := by
    intro hout
    have he := exec_effect hm hout (fun _ k t hl => (ho k t hl).1) h
    exact ⟨he.framed, he.openTickets ho⟩
  cases i with
  | depositAndDeploy accounts args authorize call =>
    rw [exec_depositAndDeploy, bind_eq_ok] at h
    obtain ⟨w₁, hdeposit, hcall⟩ := h
    have he := exec_effect (i := .depositAndDeploy accounts args authorize .done) trivial rfl
      (fun _ k t hl => (ho k t hl).1) hdeposit
    have hkept := callRun_kept call (he.framed.shareMint.symm ▸ hm) (he.openTickets ho) hcall
    exact ⟨he.framed.trans hkept.toFramed, hkept.openTickets⟩
  | atomicRedeem accounts args authorize call =>
    exact (tryAtomicRedeem_restored (fun _ hrun => callRun_kept call hm ho hrun) h).toKept
  | _ => exact heffect rfl

theorem callRun_kept : ∀ (call : Call) {w w' : World}, call.NeverMints w.vault.shareMint →
    w.OpenTickets → callRun rt w call = .ok w' → Kept w w' := by
  intro call w w' hm ho h
  cases call with
  | done =>
    cases h
    exact ⟨.refl w, ho⟩
  | other run rest =>
    obtain ⟨env, hrun, h⟩ := bind_eq_ok.mp h
    have hkept := callRun_kept rest (w := w.under env) hm.2 ho h
    have henv : Framed w (w.under env) := ⟨rfl, rfl, rfl, rfl, (hm.1 _ _ hrun).valid⟩
    exact ⟨henv.trans hkept.toFramed, hkept.openTickets⟩
  | own i rest =>
    obtain ⟨w₁, hi, h⟩ := bind_eq_ok.mp h
    have hfirst := exec_kept i hm.1 ho hi
    have hkept := callRun_kept rest (hfirst.shareMint.symm ▸ hm.2) hfirst.openTickets h
    exact ⟨hfirst.toFramed.trans hkept.toFramed, hkept.openTickets⟩

end

/-! ### What a step does -/

/-- An outward step has the effect of its kind. -/
theorem OutwardStep.effect {i : Instruction} (ho : w.OpenTickets)
    (h : OutwardStep rt w (.instruction i) w') : Effect w w' i.kind :=
  exec_effect h.admissible.neverMints h.outward (fun _ k t hl => (ho k t hl).1) h.apply_eq

/-- **A step has the effect of its kind**, or is an atomic redeem that calls the program. -/
theorem Step.effect_or_restored {i : Instruction} (ho : w.OpenTickets)
    (h : Step rt w (.instruction i) w') : Effect w w' i.kind ∨ Restored w w' := by
  by_cases hout : i.outward = true
  · exact .inl (OutwardStep.effect ho ⟨h, hout⟩)
  · cases i with
    | depositAndDeploy => exact (hout h.admissible.2).elim
    | atomicRedeem accounts args authorize call =>
      refine .inr (tryAtomicRedeem_restored ?_ h.apply_eq)
      intro w₁ hrun
      exact callRun_kept call h.admissible ho hrun
    | _ => exact (hout rfl).elim

end Roshi
