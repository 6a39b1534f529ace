import Roshi.Instructions.AtomicRedeem
import Roshi.Instructions.ProcessWithdrawals
import Roshi.Instructions.Redeem
import Roshi.Relay.Route

/-!
# The two ways out

A holder leaves through the queue, by a redeem that is struck after a report, or at once, by
an atomic redeem.  The queue prices after the burn, with the shares moved into the requested
ones; the atomic exit prices before it.  The economic supply is the same at both points, so
the entitlement that bounds an atomic exit is what the queue would owe for the same shares at
the same time (`QueueOwes`), and the exit pays that at most (`atomic_exit_never_better`).
-/

namespace Roshi

open Lib

variable {rt : Runtime} {w w' : World} {accounts : List AccountInfo}

/-- `v'` prices shares as `v` does: by the same NAV, unlock window and queued shares. -/
structure Vault.PricedAs (v v' : Vault) : Prop where
  totalAssets : v'.totalAssets = v.totalAssets
  lockedProfit : v'.lockedProfit = v.lockedProfit
  profitUnlockStartTs : v'.profitUnlockStartTs = v.profitUnlockStartTs
  profitUnlockEndTs : v'.profitUnlockEndTs = v.profitUnlockEndTs
  requestedWithdrawalShares : v'.requestedWithdrawalShares = v.requestedWithdrawalShares
  baseDecimals : v'.baseDecimals = v.baseDecimals

theorem Vault.PricedAs.effective {v v' : Vault} (h : v.PricedAs v') (now : I64) :
    v'.effectiveTotalAssets now = v.effectiveTotalAssets now := by
  rw [effectiveTotalAssets, effectiveTotalAssets, remainingLockedProfit, remainingLockedProfit,
    h.totalAssets, h.lockedProfit, h.profitUnlockStartTs, h.profitUnlockEndTs]

/-! ### What the queue owes -/

/-- `owed` is what the queue fixes for `shares` redeemed now and struck at the same time,
once the epoch has passed and without a change of the NAV. -/
def QueueOwes (rt : Runtime) (w : World) (shares owed : U64) : Prop :=
  ∀ accounts args w₁, args.shares = shares → tryRedeem rt w accounts args = .ok w₁ →
    ∃ key t, w.tickets.lookup key = none ∧ w₁.tickets.lookup key = some t ∧
      t.sharesBurned = shares ∧ t.requestEpoch = w.vault.reportEpoch ∧
      ∀ v₁, w₁.vault.PricedAs v₁ → t.requestEpoch.toNat + 1 ≤ v₁.reportEpoch.toNat →
        (v₁.pendingWithdrawalAssets.toNat + owed.toNat < 2 ^ 64 →
          ∃ v', strikeTicket v₁ w₁.shareSupply t w.clock.unixTimestamp
            = .ok (v', { t with assetsOwed := owed })) ∧
        ∀ v' t', strikeTicket v₁ w₁.shareSupply t w.clock.unixTimestamp = .ok (v', t') →
          t'.assetsOwed = owed

/-- **The queue owes the entitlement.**  The burn of a redeem and the shares it requests
cancel in the economic supply. -/
theorem queueOwes_entitlement {S E shares owed : U64} (hS : S.toNat = w.economicSupply)
    (hE : w.vault.effectiveTotalAssets w.clock.unixTimestamp = .ok E)
    (howed : assetsForShares shares E S w.vault.baseDecimals = .ok owed) :
    QueueOwes rt w shares owed := by
  rintro accounts args w₁ rfl hredeem
  obtain ⟨c, l, requested, hc, -, hburn, hrequested, rfl⟩ := tryRedeem_spec hredeem
  refine ⟨c.ticket.key, c.newTicket w args, hc.ticket_new, by simp, rfl,
    congrArg Vault.reportEpoch hc.vault_eq, ?_⟩
  intro v₁ hpriced hepoch
  have hburned := (Spl.burn_spec hburn).1 w.vault.shareMint
  rw [if_pos rfl] at hburned
  have hrequested₁ : v₁.requestedWithdrawalShares = requested := hpriced.requestedWithdrawalShares
  have hdecimals : v₁.baseDecimals = w.vault.baseDecimals := hpriced.baseDecimals
  have hsupply : S.toNat = (l.supply w.vault.shareMint).toNat
      + v₁.requestedWithdrawalShares.toNat := by
    rw [hrequested₁, hS, World.economicSupply, World.shareSupply]
    omega
  have heffective : v₁.effectiveTotalAssets w.clock.unixTimestamp = .ok E :=
    (hpriced.effective _).trans hE
  refine ⟨?_, ?_⟩
  · intro hpending
    refine exists_strikeTicket_at hepoch ?_ hsupply heffective (hdecimals ▸ howed) hpending
    show args.shares.toNat ≤ _
    rw [hrequested₁]
    omega
  · intro v' t' hstrike
    obtain ⟨-, -, hstruck⟩ := strikeTicket_spec hstrike
    rw [← BitVec.toNat_inj, (hstruck.priced E heffective).1, (assetsForShares_eq_ok.mp howed).2.2,
      hdecimals, hsupply]
    rfl

/-! ### What an atomic exit does -/

/-- An atomic exit of `shares` entitled to `owed`: the unwind brought `received` into custody,
and `payout` of it was paid. -/
structure Exited (w w' : World) (relay : Relay) (c : AtomicRedeemContext)
    (shares owed received payout : U64) : Prop where
  payout_eq : payout.toNat +
    received.toNat * w.vault.controls.atomicRedeemFeeBps.toNat ⌈/⌉ 10000 = received.toNat
  received_le : received.toNat ≤ owed.toNat
  total : w'.vault.totalAssets.toNat + payout.toNat = w.vault.totalAssets.toNat
  remaining : w'.vault.remainingLockedProfit w.clock.unixTimestamp =
    w.vault.remainingLockedProfit w.clock.unixTimestamp
  shareMint_eq : w'.vault.shareMint = w.vault.shareMint
  /-- The unwind does what it does; the exit makes one transfer and one burn after it. -/
  tokens : ∃ w₁ l₂, relay.run w = .ok w₁ ∧
    (w₁.ledger.balance c.custody.key).toNat =
      (w.ledger.balance c.custody.key).toNat + received.toNat ∧
    Spl.transfer w₁.ledger c.baseTokenProgram.key c.custody.key c.recipientTokenAccount.key
      c.subAccount.key payout = .ok l₂ ∧
    Spl.burn l₂ c.tokenProgram.key c.userShareAccount.key w.vault.shareMint c.owner.key shares
      = .ok w'.ledger

theorem tryAtomicRedeem_exited {args : AtomicRedeemArgs} {relay : Relay}
    (h : tryAtomicRedeem rt w accounts args relay = .ok w') :
    ∃ c owed received payout, AtomicRedeemContext.load rt w accounts args = .ok c ∧
      Exited w w' relay c args.shares owed received payout ∧
        QueueOwes rt w args.shares owed := by
  obtain ⟨c, S, E, owed, received, payout, w₁, l₂, l₃, v', hload, -, hS, hE, howed, hrun,
    hbalance, hpayout, hle, htransfer, hburn, hdebit, -, rfl⟩ := tryAtomicRedeem_steps h
  refine ⟨c, owed, received, payout, hload, ?_, queueOwes_entitlement hS hE howed⟩
  obtain ⟨r, total, hr, -, htotal, rfl⟩ := Vault.debit_spec.mp hdebit
  exact
    { payout_eq := hpayout
      received_le := hle
      total := htotal
      remaining := (Vault.remaining_debited hr).trans hr.symm
      shareMint_eq := rfl
      tokens := ⟨w₁, l₂, hrun, hbalance, htransfer, hburn⟩ }

/-- The exit burns exactly the shares out of the supply the unwind left. -/
theorem Exited.supply {relay : Relay} {c : AtomicRedeemContext}
    {shares owed received payout : U64} {w₁ : World}
    (h : Exited w w' relay c shares owed received payout) (hrun : relay.run w = .ok w₁) :
    w'.shareSupply.toNat + shares.toNat = (w₁.ledger.supply w.vault.shareMint).toNat := by
  obtain ⟨_, l₂, hrun', -, htransfer, hburn⟩ := h.tokens
  cases hrun.symm.trans hrun'
  have hburned := (Spl.burn_spec hburn).1 w.vault.shareMint
  rw [if_pos rfl, Ledger.supply_congr (Spl.transfer_spec htransfer).1] at hburned
  rw [World.shareSupply, h.shareMint_eq]
  exact hburned

/-- **Nothing fails after the tokens moved**: a payout within the entitlement is debited, and
the record stays well formed. -/
theorem exists_settleAtomicRedeem {c : AtomicRedeemContext} {shares owed payout : U64}
    {ixData : List U8} {w₁ : World} {l₂ l₃ : Ledger} (hc : c.Loaded w)
    (howed : validateRedeemEntitlement w c shares ixData w.clock.unixTimestamp = .ok owed)
    (hle : payout.toNat ≤ owed.toNat)
    (htransfer : transferSigned w₁.ledger c.baseTokenProgram c.custody c.recipientTokenAccount
      c.subAccount payout = .ok l₂)
    (hburn : burn l₂ c.tokenProgram c.userShareAccount c.shareMint c.owner shares = .ok l₃) :
    ∃ w', settleAtomicRedeem w₁ c shares payout w.clock.unixTimestamp = .ok w' := by
  obtain ⟨S, E, -, hE, howed⟩ := validateRedeemEntitlement_spec hc howed
  have hpayout : payout.toNat ≤ E.toNat := by
    obtain ⟨hshares, -, heq⟩ := assetsForShares_eq_ok.mp howed
    calc payout.toNat ≤ owed.toNat := hle
      _ = _ := heq
      _ ≤ E.toNat := payout_le (virtualShares_pos _) hshares
  obtain ⟨v', hv'⟩ := Vault.exists_debit hE hpayout
  have hvalid : v'.validateState = .ok () :=
    Vault.validateState_eq_ok.mpr (hc.wellFormed.debit hv')
  refine ⟨{ w₁ with ledger := l₃, vault := v' }, ?_⟩
  rw [settleAtomicRedeem, htransfer, ok_bind, hburn, ok_bind, hc.vault_eq, hv', ok_bind, hvalid]
  rfl

/-- **An atomic exit is never better than the queue**, whatever its unwind does.  It pays what
the unwind brought in less the fee, at most what the queue would owe for the same shares at the
same time; the record loses exactly what was paid, the supply exactly the shares, and what is
locked stays locked.
Once the checks and the token calls have passed, nothing is left that fails. -/
theorem atomic_exit_never_better (rt : Runtime) (w : World) (accounts : List AccountInfo)
    (args : AtomicRedeemArgs) (relay : Relay) :
    (∀ w', tryAtomicRedeem rt w accounts args relay = .ok w' →
      ∃ c owed received payout, AtomicRedeemContext.load rt w accounts args = .ok c ∧
        Exited w w' relay c args.shares owed received payout ∧
        payout.toNat = received.toNat -
          received.toNat * w.vault.controls.atomicRedeemFeeBps.toNat ⌈/⌉ 10000 ∧
        payout.toNat ≤ received.toNat ∧ received.toNat ≤ owed.toNat ∧
        QueueOwes rt w args.shares owed ∧
        ∀ w₁, relay.run w = .ok w₁ → w₁.ledger.supply w.vault.shareMint = w.shareSupply →
          w'.shareSupply.toNat + args.shares.toNat = w.shareSupply.toNat) ∧
    ∀ c owed received w₁ fee payout l₂ l₃,
      AtomicRedeemContext.load rt w accounts args = .ok c →
      validateRedeemEntitlement w c args.shares args.ixData w.clock.unixTimestamp = .ok owed →
      executeUnwindCpi w c.custody c.subAccount.key relay = .ok (received, w₁) →
      received.toNat ≤ owed.toNat →
      bpsCeil received c.vault.controls.atomicRedeemFeeBps = .ok fee →
      checkedSub received fee = some payout →
      transferSigned w₁.ledger c.baseTokenProgram c.custody c.recipientTokenAccount c.subAccount
        payout = .ok l₂ →
      burn l₂ c.tokenProgram c.userShareAccount c.shareMint c.owner args.shares = .ok l₃ →
      ∃ w', settleAtomicRedeem w₁ c args.shares payout w.clock.unixTimestamp = .ok w' := by
  refine ⟨?_, ?_⟩
  · intro w' h
    obtain ⟨c, owed, received, payout, hload, hexit, hqueue⟩ := tryAtomicRedeem_exited h
    have hpayout := hexit.payout_eq
    refine ⟨c, owed, received, payout, hload, hexit, by omega, by omega, hexit.received_le, hqueue,
      ?_⟩
    intro w₁ hrun hkept
    rw [hexit.supply hrun, hkept]
  · intro c owed received w₁ fee payout l₂ l₃ hload howed _ hle _ hpayout htransfer hburn
    have hsum := checkedSub_eq_some.mp hpayout
    exact exists_settleAtomicRedeem (AtomicRedeemContext.load_spec hload) howed (by omega)
      htransfer hburn

namespace Sample

/-- The vault a strike left, a little later, with an atomic exit authorized. -/
def exitWorld : World :=
  { struck with
    clock := { slot := 2100, unixTimestamp := 1700001700 }
    actions := fun key => if key = routeKey then some (routeAction .atomicRedeem) else none }

/-- An unwind that brings 150000 into custody. -/
def unwind : Relay := .other (.ok ()) fun l =>
  .ok (l.setAccount custody (tokenAccount baseMint subAccount (l.balance custody + 150000)))

def exitAccounts : List AccountInfo :=
  [signer user, writable vaultKey, writable userShares, writable shareMint, writable userBase,
    writable custody, readonly TOKEN_PROGRAM_ID, readonly subAccount, readonly routeKey,
    readonly TOKEN_PROGRAM_ID]

def exitArgs : AtomicRedeemArgs where
  shares := 200000000
  minOutput := 0
  subAccount := 0
  ixData := toLeBytes 8 (150000 : U64)

/-- The same shares into the queue. -/
def queueAccounts : List AccountInfo :=
  [signer user, writable vaultKey, writable userShares, writable shareMint, readonly userBase,
    writable ticket, readonly SYSTEM_PROGRAM_ID, readonly TOKEN_PROGRAM_ID]

def queueArgs : RedeemArgs where
  recipientTokenAccount := userBase
  ticketIndex := 0
  shares := 200000000

end Sample

/-- An exit in the middle of a drip, and the ticket the queue strikes for its entitlement. -/
theorem atomic_exit_never_better_dripping :
    ∃ w' c owed received payout w₁ t v₁ v', AtomicRedeemContext.load Sample.routeRuntime
        Sample.exitWorld Sample.exitAccounts Sample.exitArgs = .ok c ∧
      Exited Sample.exitWorld w' Sample.unwind c 200000000 owed received payout ∧
      tryRedeem Sample.routeRuntime Sample.exitWorld Sample.queueAccounts Sample.queueArgs
        = .ok w₁ ∧
      strikeTicket v₁ w₁.shareSupply t Sample.exitWorld.clock.unixTimestamp
        = .ok (v', { t with assetsOwed := owed }) := by
  have hexit : (tryAtomicRedeem Sample.routeRuntime Sample.exitWorld Sample.exitAccounts
      Sample.exitArgs Sample.unwind).isOk = true := by decide +kernel
  obtain ⟨w₁, hredeem⟩ : ∃ w₁, tryRedeem Sample.routeRuntime Sample.exitWorld Sample.queueAccounts
      Sample.queueArgs = .ok w₁ := ⟨_, eq_okValue (by decide +kernel)⟩
  have hepoch : Sample.exitWorld.vault.reportEpoch.toNat + 1 ≤ 2 := by decide +kernel
  obtain ⟨c, owed, received, payout, hload, hexited, -, -, -, hqueue, -⟩ :=
    (atomic_exit_never_better _ _ _ _ _).1 _ (eq_okValue hexit)
  obtain ⟨key, t, -, -, -, ht, hstrike⟩ := hqueue _ _ w₁ rfl hredeem
  obtain ⟨v', hv'⟩ := (hstrike
    { w₁.vault with reportEpoch := 2, pendingWithdrawalAssets := 0 }
    ⟨rfl, rfl, rfl, rfl, rfl, rfl⟩ (ht ▸ hepoch)).1
    (by rw [show (0 : U64).toNat = 0 from rfl, Nat.zero_add]; exact owed.isLt)
  exact ⟨_, c, owed, received, payout, w₁, t, _, v', hload, hexited, hredeem, hv'⟩

end Roshi
