import Roshi.Instructions.Deposit

/-!
# Atomic redeem

`execution/atomic_redeem.rs` and its account context.  A holder unwinds one
pre-authorized position, is paid what the unwind brought into custody minus the
exit fee, and the shares are burned.  What was received is bounded by the
entitlement of the shares at the effective NAV; the record is debited by exactly
what was paid.

The record is copied when the context is loaded and stored after the unwind.  Whatever an
instruction of the program called by the unwind has stored in between is overwritten.
-/

namespace Roshi

open Lib

variable (rt : Runtime)

structure AtomicRedeemArgs where
  shares : U64
  minOutput : U64
  subAccount : U8
  ixData : List U8

structure AtomicRedeemContext where
  owner : AccountInfo
  vaultAccount : AccountInfo
  userShareAccount : AccountInfo
  shareMint : AccountInfo
  recipientTokenAccount : AccountInfo
  custody : AccountInfo
  baseTokenProgram : AccountInfo
  subAccount : AccountInfo
  tokenProgram : AccountInfo
  vault : Vault
  action : Action

def AtomicRedeemContext.load (w : World) (accounts : List AccountInfo) (args : AtomicRedeemArgs) :
    ProgramResult AtomicRedeemContext := do
  let (owner, accounts) ← nextAccount accounts
  requireWritableSigner owner
  let (vaultAccount, accounts) ← nextAccount accounts
  requireWritable vaultAccount
  let (userShareAccount, accounts) ← nextAccount accounts
  requireWritable userShareAccount
  let (shareMint, accounts) ← nextAccount accounts
  requireWritable shareMint
  let (recipientTokenAccount, accounts) ← nextAccount accounts
  requireWritable recipientTokenAccount
  let (custody, accounts) ← nextAccount accounts
  requireWritable custody
  let (baseTokenProgram, accounts) ← nextAccount accounts
  let (subAccount, accounts) ← nextAccount accounts
  let (actionAccount, accounts) ← nextAccount accounts
  let (tokenProgram, _) ← nextAccount accounts
  rejectIf (tokenProgram.key ≠ TOKEN_PROGRAM_ID) .incorrectProgramId
  let vault ← w.loadChecked rt vaultAccount
  verifyShareMint vault shareMint
  w.ledger.verifyTokenAccountMintAndOwner userShareAccount vault.shareMint owner.key
  w.ledger.verifyTokenAccountMint recipientTokenAccount vault.baseMint
  w.ledger.verifyTokenProgramFor baseTokenProgram recipientTokenAccount
  let _ ← w.verifySubAccount rt args.subAccount subAccount
  w.ledger.verifyTokenAccountMintAndOwner custody vault.baseMint subAccount.key
  w.ledger.verifyTokenProgramFor baseTokenProgram custody
  w.ledger.verifyCustodyAccount custody subAccount.key
  let action ← w.loadAction actionAccount
  action.verifyForVault rt vaultAccount.key actionAccount.key
  .ok
    { owner, vaultAccount, userShareAccount, shareMint, recipientTokenAccount, custody,
      baseTokenProgram, subAccount, tokenProgram, vault, action }

def validateRedeemEntitlement (w : World) (c : AtomicRedeemContext) (shares : U64)
    (ixData : List U8) (now : I64) : ProgramResult U64 := do
  let shareBalance ← w.ledger.tokenAmount c.userShareAccount
  rejectIf (shareBalance < shares) (.custom .insufficientShares)
  let shareSupply ← w.ledger.mintSupply c.shareMint
  let economicShareSupply ← c.vault.economicShareSupply shareSupply
  let effective ← c.vault.effectiveTotalAssets now
  let maxAssetsOwed ←
    into (assetsForRedeem shares effective economicShareSupply c.vault.baseDecimals)
  let withdrawalAmount ← decodeWithdrawalAmount ixData c.action
  rejectIf (withdrawalAmount > maxAssetsOwed) (.custom .withdrawalExceedsEntitlement)
  .ok maxAssetsOwed

/-- Run the unwind and measure what it brought into custody. -/
def executeUnwindCpi (w : World) (custody : AccountInfo) (subAccountKey : Pubkey)
    (relay : Relay) : ProgramResult (U64 × World) := do
  relay.authorize
  let pre ← w.ledger.tokenAmount custody
  let w ← relay.run w
  w.ledger.verifyCustodyAccount custody subAccountKey
  let post ← w.ledger.tokenAmount custody
  let received ← okOr (checkedSub post pre) (.custom .overflow)
  .ok (received, w)

/-- Pay and burn in the world the unwind left; the record debited is the context's copy. -/
def settleAtomicRedeem (w : World) (c : AtomicRedeemContext) (shares payout : U64) (now : I64) :
    ProgramResult World := do
  let ledger ←
    transferSigned w.ledger c.baseTokenProgram c.custody c.recipientTokenAccount c.subAccount payout
  let ledger ← burn ledger c.tokenProgram c.userShareAccount c.shareMint c.owner shares
  let vault ← c.vault.debitAssetsAtEffective payout now
  vault.validateState
  .ok { w with ledger, vault }

def tryAtomicRedeem (w : World) (accounts : List AccountInfo) (args : AtomicRedeemArgs)
    (relay : Relay) : ProgramResult World := do
  let context ← AtomicRedeemContext.load rt w accounts args
  rejectIf ((← context.vault.withdrawalsPaused) = true) (.custom .vaultPaused)
  rejectIf (args.shares = 0) (.custom .zeroOutput)
  rejectIf (context.action.scope ≠ .atomicRedeem) (.custom .unauthorizedAction)
  let now := w.clock.unixTimestamp
  context.vault.verifyReportFresh now
  let maxAssetsOwed ← validateRedeemEntitlement w context args.shares args.ixData now
  let (received, w) ← executeUnwindCpi w context.custody context.subAccount.key relay
  rejectIf (received > maxAssetsOwed) (.custom .withdrawalExceedsEntitlement)
  -- the fee stays in the pool: only the payout leaves custody and the record
  let fee ← into (bpsCeil received context.vault.controls.atomicRedeemFeeBps)
  let payout ← okOr (checkedSub received fee) (.custom .overflow)
  rejectIf (payout < args.minOutput) (.custom .slippageExceeded)
  settleAtomicRedeem w context args.shares payout now

/-! ### What an atomic redeem does -/

variable {rt} {w w₁ w' : World} {accounts : List AccountInfo}

structure AtomicRedeemContext.Loaded (w : World) (c : AtomicRedeemContext) : Prop where
  vault_eq : c.vault = w.vault
  shareMint_eq : c.shareMint.key = w.vault.shareMint
  wellFormed : w.vault.WellFormed

theorem AtomicRedeemContext.load_spec {args : AtomicRedeemArgs} {c : AtomicRedeemContext}
    (h : AtomicRedeemContext.load rt w accounts args = .ok c) : c.Loaded w := by
  revert h
  simp only [AtomicRedeemContext.load, bind_ok_imp, Prod.forall, Except.ok.injEq,
    verifyShareMint_eq_ok]
  rintro _ _ - _ - _ _ - _ - _ _ - _ - _ _ - _ - _ _ - _ - _ _ - _ - _ _ - _ _ - _ _ - _ _ - _ - v
    hv _ hm _ - _ - _ - _ - _ - _ - _ - _ - _ - rfl
  obtain ⟨rfl, -, hwf⟩ := loadChecked_eq_ok hv
  exact ⟨rfl, hm, hwf⟩

theorem validateRedeemEntitlement_spec {c : AtomicRedeemContext} {shares owed : U64}
    {ixData : List U8} {now : I64} (hc : c.Loaded w)
    (h : validateRedeemEntitlement w c shares ixData now = .ok owed) :
    ∃ (S E : U64), S.toNat = w.economicSupply ∧ w.vault.effectiveTotalAssets now = .ok E ∧
      assetsForShares shares E S w.vault.baseDecimals = .ok owed := by
  simp only [validateRedeemEntitlement, bind_eq_ok, into_eq_ok, Except.ok.injEq,
    assetsForRedeem_eq_ok, hc.vault_eq] at h
  obtain ⟨_, -, _, -, s, hs, S, hS, E, hE, owed, ⟨howed, -⟩, _, -, _, -, rfl⟩ := h
  have hs := Ledger.mintSupply_eq_ok hs
  rw [hc.shareMint_eq] at hs
  refine ⟨S, E, ?_, hE, howed⟩
  rw [Vault.economicShareSupply_eq_ok.mp hS, World.economicSupply, World.shareSupply, hs]

theorem executeUnwindCpi_spec {custody : AccountInfo} {sub : Pubkey} {r : Relay}
    {received : U64} (h : executeUnwindCpi w custody sub r = .ok (received, w₁)) :
    r.run w = .ok w₁ ∧ (w₁.ledger.balance custody.key).toNat =
      (w.ledger.balance custody.key).toNat + received.toNat := by
  simp only [executeUnwindCpi, bind_eq_ok, okOr_eq_ok, checkedSub_eq_some, Except.ok.injEq,
    Prod.mk.injEq] at h
  obtain ⟨_, -, pre, hpre, _, hrun, _, -, post, hpost, rec, hrec, rfl, rfl⟩ := h
  rw [Ledger.tokenAmount_eq_ok hpre, Ledger.tokenAmount_eq_ok hpost]
  exact ⟨hrun, by omega⟩

/-- The steps of an atomic redeem, in its own context. -/
theorem tryAtomicRedeem_steps {args : AtomicRedeemArgs} {relay : Relay}
    (h : tryAtomicRedeem rt w accounts args relay = .ok w') :
    ∃ (c : AtomicRedeemContext) (S E owed received payout : U64) (w₁ : World) (l₂ l₃ : Ledger)
      (v' : Vault),
      AtomicRedeemContext.load rt w accounts args = .ok c ∧ args.shares.toNat ≠ 0 ∧
      S.toNat = w.economicSupply ∧
      w.vault.effectiveTotalAssets w.clock.unixTimestamp = .ok E ∧
      assetsForShares args.shares E S w.vault.baseDecimals = .ok owed ∧
      relay.run w = .ok w₁ ∧
      (w₁.ledger.balance c.custody.key).toNat =
        (w.ledger.balance c.custody.key).toNat + received.toNat ∧
      payout.toNat + received.toNat * w.vault.controls.atomicRedeemFeeBps.toNat ⌈/⌉ 10000 =
        received.toNat ∧
      received.toNat ≤ owed.toNat ∧
      Spl.transfer w₁.ledger c.baseTokenProgram.key c.custody.key c.recipientTokenAccount.key
        c.subAccount.key payout = .ok l₂ ∧
      Spl.burn l₂ c.tokenProgram.key c.userShareAccount.key w.vault.shareMint c.owner.key
        args.shares = .ok l₃ ∧
      w.vault.debitAssetsAtEffective payout w.clock.unixTimestamp = .ok v' ∧ v'.WellFormed ∧
      w' = { w₁ with ledger := l₃, vault := v' } := by
  rw [tryAtomicRedeem, bind_eq_ok] at h
  obtain ⟨c, hload, h⟩ := h
  have hc := AtomicRedeemContext.load_spec hload
  simp only [settleAtomicRedeem, transferSigned, burn, bind_eq_ok, Prod.exists, okOr_eq_ok,
    checkedSub_eq_some, Except.ok.injEq, rejectIf_eq_ok, into_eq_ok, eq_zero_iff, bpsCeil_eq_ok,
    Vault.validateState_eq_ok, gt_iff_lt, BitVec.lt_def, Nat.not_lt, hc.vault_eq,
    hc.shareMint_eq] at h
  obtain ⟨_, -, _, -, _, h0, _, -, _, -, owed, howed, received, w₁, hunwind, _, hle, fee, hfee,
    payout, hpayout, _, -, l₂, ⟨_, -, hl₂⟩, l₃, ⟨_, -, hl₃⟩, v', hv', _, hwf, rfl⟩ := h
  obtain ⟨S, E, hS, hE, howed⟩ := validateRedeemEntitlement_spec hc howed
  obtain ⟨hrun, hbal⟩ := executeUnwindCpi_spec hunwind
  exact ⟨c, S, E, owed, received, payout, w₁, l₂, l₃, v', hload, h0, hS, hE, howed, hrun, hbal,
    by omega, hle, hl₂, hl₃, hv', hwf, rfl⟩

/-- **An atomic redeem** pays at most the entitlement of the shares, from what the unwind
brought in, and debits the record by what it paid. -/
theorem tryAtomicRedeem_spec {args : AtomicRedeemArgs} {relay : Relay}
    (h : tryAtomicRedeem rt w accounts args relay = .ok w') :
    ∃ (c : AtomicRedeemContext) (S E owed received payout : U64) (w₁ : World) (l₂ l₃ : Ledger)
      (v' : Vault),
      c.Loaded w ∧ args.shares.toNat ≠ 0 ∧
      S.toNat = w.economicSupply ∧
      w.vault.effectiveTotalAssets w.clock.unixTimestamp = .ok E ∧
      assetsForShares args.shares E S w.vault.baseDecimals = .ok owed ∧
      relay.run w = .ok w₁ ∧
      (w₁.ledger.balance c.custody.key).toNat =
        (w.ledger.balance c.custody.key).toNat + received.toNat ∧
      payout.toNat + received.toNat * w.vault.controls.atomicRedeemFeeBps.toNat ⌈/⌉ 10000 =
        received.toNat ∧
      received.toNat ≤ owed.toNat ∧
      Spl.transfer w₁.ledger c.baseTokenProgram.key c.custody.key c.recipientTokenAccount.key
        c.subAccount.key payout = .ok l₂ ∧
      Spl.burn l₂ c.tokenProgram.key c.userShareAccount.key w.vault.shareMint c.owner.key
        args.shares = .ok l₃ ∧
      w.vault.debitAssetsAtEffective payout w.clock.unixTimestamp = .ok v' ∧ v'.WellFormed ∧
      w' = { w₁ with ledger := l₃, vault := v' } := by
  obtain ⟨c, S, E, owed, received, payout, w₁, l₂, l₃, v', hload, hsteps⟩ :=
    tryAtomicRedeem_steps h
  exact ⟨c, S, E, owed, received, payout, w₁, l₂, l₃, v', AtomicRedeemContext.load_spec hload,
    hsteps⟩

end Roshi
