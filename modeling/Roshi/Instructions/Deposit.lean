import Roshi.Conversion
import Roshi.Oracle.Session
import Roshi.World

/-!
# Deposit

`accounts/deposit.rs`, `user/deposit.rs` and `execution/deposit_and_deploy.rs`.  A
deposit is priced in base atoms, its shares at the effective NAV, and only then do
tokens move: the deposit into the deposit sub-account's custody, the shares to an
account of the depositor's choosing.

`execute_deposit` is characterised by `executeDeposit_spec`: what the record, the
share supply and the balances are afterwards.
-/

namespace Roshi

open Lib

structure DepositArgs where
  assetMint : Pubkey
  amount : U64
  minSharesOut : U64
  accessProof : List (Bytes 32)

structure DepositContext where
  depositor : AccountInfo
  vaultAccount : AccountInfo
  source : AccountInfo
  custody : AccountInfo
  shareDest : AccountInfo
  shareMint : AccountInfo
  shareTokenProgram : AccountInfo
  assetTokenProgram : AccountInfo
  extra : List AccountInfo
  vault : Vault

variable (rt : Runtime)

namespace DepositContext

def load (w : World) (accounts : List AccountInfo) : ProgramResult DepositContext := do
  let (depositor, accounts) ← nextAccount accounts
  requireSigner depositor
  let (vaultAccount, accounts) ← nextAccount accounts
  requireWritable vaultAccount
  let (source, accounts) ← nextAccount accounts
  requireWritable source
  let (custody, accounts) ← nextAccount accounts
  requireWritable custody
  let (shareDest, accounts) ← nextAccount accounts
  requireWritable shareDest
  let (shareMint, accounts) ← nextAccount accounts
  requireWritable shareMint
  let (shareTokenProgram, accounts) ← nextAccount accounts
  rejectIf (shareTokenProgram.key ≠ TOKEN_PROGRAM_ID) .incorrectProgramId
  let (assetTokenProgram, extra) ← nextAccount accounts
  w.ledger.verifyTokenProgramFor assetTokenProgram source
  w.ledger.verifyTokenProgramFor assetTokenProgram custody
  let vault ← w.loadChecked rt vaultAccount
  verifyShareMint vault shareMint
  .ok
    { depositor, vaultAccount, source, custody, shareDest, shareMint, shareTokenProgram,
      assetTokenProgram, extra, vault }

/-- A routed asset also prices the base, from the accounts after the asset's leg. -/
def parseBaseLeg (c : DepositContext) (asset : Asset) (remaining : List AccountInfo) :
    ProgramResult (Option OracleLeg) := do
  if ← asset.routed then do
    let (leg, _) ← OracleLeg.parse c.vault.baseOracle remaining
    .ok (some leg)
  else .ok none

/-- What the leg's accounts answer now. -/
def readLeg (w : World) (leg : OracleLeg) : ProgramResult OraclePrice :=
  w.prices leg.config (leg.accounts.map AccountInfo.key) w.clock

/-- A direct feed already quotes in base, so its base leg is exactly 1. -/
def readBasePrice (w : World) (session : OracleReadSession) (baseLeg : Option OracleLeg) :
    ProgramResult OraclePrice :=
  match baseLeg with
  | some leg => do
    let (price, _) ← session.read (readLeg w) leg
    .ok price
  | none => .ok .UNIT

/-- Base atoms of a non-base deposit, through the asset's registration and oracle. -/
def resolveAssetAtoms (w : World) (c : DepositContext) (args : DepositArgs) :
    ProgramResult U64 := do
  let (assetAccount, oracleAccounts) ← nextAccount c.extra
  let asset ← w.loadAsset assetAccount
  rejectIf (assetAccount.key ≠ (assetAddress rt c.vaultAccount.key args.assetMint).1
    ∨ asset.vault ≠ c.vaultAccount.key) (.custom .invalidAssetAccount)
  rejectIf ((← asset.enabled) = false) (.custom .invalidAssetAccount)
  let custodyBalance ← w.ledger.tokenAmount c.custody
  let projected ← okOr (checkedAdd custodyBalance args.amount) (.custom .overflow)
  rejectIf (projected > asset.depositCapAtoms) (.custom .depositCapExceeded)
  let (assetLeg, remaining) ← OracleLeg.parse asset.oracle oracleAccounts
  let baseLeg ← parseBaseLeg c asset remaining
  let (assetPrice, session) ← OracleReadSession.read (readLeg w) [] assetLeg
  let basePrice ← readBasePrice w session baseLeg
  into (baseAtomsFromAssetAtoms args.amount assetPrice basePrice asset.assetDecimals
    c.vault.baseDecimals)

/-- Custody has to be the deposit sub-account's ATA; base deposits count one to one. -/
def resolveBaseAtoms (w : World) (c : DepositContext) (args : DepositArgs) :
    ProgramResult U64 := do
  let subAccount := (subAccountAddress rt c.vaultAccount.key c.vault.depositSubAccount).1
  rejectIf (c.custody.key ≠ associatedTokenAddress rt subAccount args.assetMint
    c.assetTokenProgram.key) (.custom .invalidTokenAccount)
  if args.assetMint = c.vault.baseMint then .ok args.amount
  else resolveAssetAtoms rt w c args

end DepositContext

/-! ### The deposit -/

/-- Holders may not be worth nothing: `ZeroSharePrice`. -/
def verifySharePrice (effectiveTotalAssets economicShareSupply : U64) : ProgramResult Unit :=
  if economicShareSupply = 0 then .ok ()
  else do
    let price ← into (sharePriceFromAssets effectiveTotalAssets economicShareSupply)
    rejectIf (price = 0) (.custom .zeroSharePrice)

def executeDeposit (w : World) (c : DepositContext) (args : DepositArgs) :
    ProgramResult World := do
  let vault := c.vault
  rejectIf ((← vault.depositsPaused) = true) (.custom .vaultPaused)
  rejectIf (vault.allowsDepositor rt c.depositor.key args.accessProof = false)
    (.custom .invalidAccessProof)
  let baseAtoms ← c.resolveBaseAtoms rt w args
  let totalAssets ← vault.totalAssetsAfterDeposit baseAtoms
  let shareSupply ← w.ledger.mintSupply c.shareMint
  let economicShareSupply ← vault.economicShareSupply shareSupply
  let effective ← vault.effectiveTotalAssets w.clock.unixTimestamp
  verifySharePrice effective economicShareSupply
  let shares ←
    into (sharesForDeposit baseAtoms effective economicShareSupply vault.baseDecimals)
  rejectIf (shares < args.minSharesOut) (.custom .slippageExceeded)
  let ledger ← transfer w.ledger c.assetTokenProgram c.source c.custody c.depositor args.amount
  let _ ← vault.tagSeed
  let ledger ←
    mintToSigned ledger c.shareTokenProgram c.shareMint c.shareDest c.vaultAccount shares
  -- stored without `validate_state`
  .ok { w with ledger, vault := { vault with totalAssets } }

def tryDeposit (w : World) (accounts : List AccountInfo) (args : DepositArgs) :
    ProgramResult World := do
  rejectIf (args.accessProof.length > MAX_ACCESS_PROOF_LEN) (.custom .invalidAccessProof)
  let context ← DepositContext.load rt w accounts
  executeDeposit rt w context args

/-! ### Deposit and deploy -/

/-- A pre-authorized CPI as its caller meets it: whether the route was authorized, and
what running it does.  The called program may be the vault program itself, which nothing in
the validation of a route rejects, so a call can change the record and the tickets. -/
structure Relay where
  authorize : ProgramResult Unit
  run : World → ProgramResult World

/-- A call of another program: the accounts of the vault program are out of its reach. -/
def Relay.other (authorize : ProgramResult Unit) (run : Ledger → ProgramResult Ledger) :
    Relay where
  authorize := authorize
  run w := do
    let ledger ← run w.ledger
    .ok { w with ledger }

/-- The call changes the token ledger only. -/
def Relay.TokensOnly (r : Relay) : Prop :=
  ∀ w w', r.run w = .ok w' → ∃ ledger, w' = { w with ledger }

theorem Relay.other_tokensOnly (authorize : ProgramResult Unit)
    (run : Ledger → ProgramResult Ledger) : (Relay.other authorize run).TokensOnly := by
  intro w w' h
  obtain ⟨ledger, -, h⟩ := bind_eq_ok.mp h
  cases h
  exact ⟨ledger, rfl⟩

/-- What the call leaves of a world: the record and the tickets as they were, and no new
`mint`. -/
def Relay.LeavesRecords (r : Relay) (mint : Pubkey) : Prop :=
  ∀ w w', r.run w = .ok w' → ∃ env, w' = w.under env ∧ Ledger.MintKept mint w.ledger env.ledger

structure DepositAndDeployArgs where
  amount : U64
  minSharesOut : U64
  accessProof : List (Bytes 32)
  ixData : List U8

def tryDepositAndDeploy (w : World) (accounts : List AccountInfo) (args : DepositAndDeployArgs)
    (relay : Relay) : ProgramResult World := do
  rejectIf (args.accessProof.length > MAX_ACCESS_PROOF_LEN) (.custom .invalidAccessProof)
  rejectIf (accounts.length < 8) .notEnoughAccountKeys
  let deposit ← DepositContext.load rt w (accounts.take 8)
  let (subAccount, remaining) ← nextAccount (accounts.drop 8)
  let (actionAccount, _) ← nextAccount remaining
  let _ ← w.verifySubAccount rt deposit.vault.depositSubAccount subAccount
  w.ledger.verifyTokenAccountMintAndOwner deposit.custody deposit.vault.baseMint subAccount.key
  w.ledger.verifyCustodyAccount deposit.custody subAccount.key
  let action ← w.loadAction actionAccount
  action.verifyForVault rt deposit.vaultAccount.key actionAccount.key
  rejectIf (action.scope ≠ .deploy) (.custom .unauthorizedAction)
  rejectIf ((← decodeWithdrawalAmount args.ixData action) ≠ args.amount)
    (.custom .deployAmountMismatch)
  relay.authorize
  let w' ← executeDeposit rt w deposit
    { assetMint := deposit.vault.baseMint
      amount := args.amount
      minSharesOut := args.minSharesOut
      accessProof := args.accessProof }
  -- the record is stored by now: a nested instruction finds it, and nothing is stored after
  relay.run w'

/-! ### What a deposit does -/

variable {rt} {w w' : World} {accounts : List AccountInfo}

/-- A context belongs to this world's vault. -/
structure DepositContext.Loaded (w : World) (c : DepositContext) : Prop where
  vault_eq : c.vault = w.vault
  key_eq : c.vaultAccount.key = w.vaultKey
  shareMint_eq : c.shareMint.key = w.vault.shareMint
  wellFormed : w.vault.WellFormed

theorem DepositContext.load_spec {c : DepositContext}
    (h : DepositContext.load rt w accounts = .ok c) : c.Loaded w := by
  revert h
  simp only [DepositContext.load, bind_ok_imp, Prod.forall, Except.ok.injEq, verifyShareMint_eq_ok]
  rintro _ _ - _ - _ _ - _ - _ _ - _ - _ _ - _ - _ _ - _ - _ _ - _ - _ _ - _ - _ _ - _ - _ - v hv _
    hm rfl
  obtain ⟨rfl, hkey, hwf⟩ := loadChecked_eq_ok hv
  exact ⟨rfl, hkey, hm, hwf⟩

/-- Only a positive amount has a base value. -/
theorem resolveBaseAtoms_zero {c : DepositContext} {args : DepositArgs} {base : U64}
    (h : c.resolveBaseAtoms rt w args = .ok base) (ha : args.amount.toNat = 0) :
    base.toNat = 0 := by
  simp only [DepositContext.resolveBaseAtoms, bind_eq_ok] at h
  obtain ⟨_, -, h⟩ := h
  split at h
  · cases h
    exact ha
  · simp only [DepositContext.resolveAssetAtoms, bind_eq_ok, Prod.exists, into_eq_ok] at h
    obtain ⟨_, _, -, _, -, _, -, _, -, _, -, _, -, _, -, _, -, _, _, -, _, -, _, _, -, _, -, h⟩ := h
    exact baseAtomsFromAssetAtoms_zero h ha

/-- **What a successful deposit did.**  The shares are the floor price of the base atoms
at the effective NAV and the economic supply; the record gains the base atoms; the
ledger made one transfer and one mint. -/
theorem executeDeposit_spec {c : DepositContext} {args : DepositArgs}
    (hc : c.Loaded w) (h : executeDeposit rt w c args = .ok w') :
    ∃ (baseAtoms S E shares total : U64) (l l' : Ledger),
      c.resolveBaseAtoms rt w args = .ok baseAtoms ∧
      S.toNat = w.economicSupply ∧
      w.vault.effectiveTotalAssets w.clock.unixTimestamp = .ok E ∧
      sharesForDeposit baseAtoms E S w.vault.baseDecimals = .ok shares ∧
      total.toNat = w.vault.totalAssets.toNat + baseAtoms.toNat ∧
      Spl.transfer w.ledger c.assetTokenProgram.key c.source.key c.custody.key c.depositor.key
        args.amount = .ok l ∧
      Spl.mintTo l c.shareTokenProgram.key w.vault.shareMint c.shareDest.key w.vaultKey shares
        = .ok l' ∧
      w' = { w with ledger := l', vault := { w.vault with totalAssets := total } } := by
  revert h
  simp only [executeDeposit, bind_ok_imp, into_eq_ok, Except.ok.injEq, transfer, mintToSigned,
    hc.vault_eq, hc.key_eq, hc.shareMint_eq]
  rintro _ - _ - _ - baseAtoms hbase total htotal s hs S hS E hE _ - shares hshares _ - l _ - hl _
    - l' _ - hl' rfl
  have hs := Ledger.mintSupply_eq_ok hs
  rw [hc.shareMint_eq] at hs
  have hS : S.toNat = w.economicSupply := by
    rw [Vault.economicShareSupply_eq_ok.mp hS, World.economicSupply, World.shareSupply, hs]
  exact ⟨baseAtoms, S, E, shares, total, l, l', hbase, hS, hE, hshares,
    Vault.totalAssetsAfterDeposit_eq_ok htotal, hl, hl', rfl⟩

end Roshi
