import Roshi.Access
import Roshi.Oracle.Config

/-!
# The vault account

`state/vault.rs`: the record a vault stores, its configuration checks, and the
accounting it does on itself.  Flags are stored as bytes and decoded on use; a
stored vault is accepted on the next load exactly when `validateState` accepts it.

Reported profit does not reach the share price at once: `lockedProfit` drips out
between `profitUnlockStartTs` and `profitUnlockEndTs`, and every price is read at
`effectiveTotalAssets`.
-/

namespace Roshi

open Lib

/-- `const fn flag`. -/
def flag (value : Bool) : U8 := if value then 1 else 0

/-- A stored flag byte, which has to be 0 or 1. -/
def boolFlag (f : U8) : ProgramResult Bool :=
  if f = 0 then .ok false
  else if f = 1 then .ok true
  else .error (.custom .invalidVaultState)

inductive Role where
  | admin
  | strategist
  | swapAuthority
  | navAuthority
  | withdrawalAuthority
  deriving DecidableEq, Repr

/-- Admin-configured risk controls; zero disables a control. -/
structure VaultControls where
  maxUnlockDurationSecs : U32
  maxReportAgeSecs : U32
  minReportIntervalSecs : U32
  cancelGraceSlots : U32
  maxNavGainBps : U16
  atomicRedeemFeeBps : U16
  maxSwapSlippageBps : U16
  deriving DecidableEq

/-- The gain bound is not percentage-bounded: more than +100% is meaningful. -/
def VaultControls.validate (c : VaultControls) : ProgramResult Unit := do
  into (validatePercentageBps c.atomicRedeemFeeBps)
  into (validatePercentageBps c.maxSwapSlippageBps)

structure Vault where
  baseOracle : OracleConfig
  totalAssets : U64
  depositCap : U64
  externalAssets : U64
  pendingWithdrawalAssets : U64
  feesPayable : U64
  highWatermark : U64
  reportEpoch : U64
  requestedWithdrawalShares : U64
  lastUpdateTs : I64
  lockedProfit : U64
  profitUnlockStartTs : I64
  profitUnlockEndTs : I64
  tag : Bytes 32
  admin : Pubkey
  strategist : Pubkey
  swapAuthority : Pubkey
  navAuthority : Pubkey
  withdrawalAuthority : Pubkey
  baseMint : Pubkey
  shareMint : Pubkey
  treasury : Pubkey
  lastReportHash : Bytes 32
  accessMerkleRoot : Bytes 32
  controls : VaultControls
  performanceFeeBps : U16
  withdrawalBufferBps : U16
  tagLen : U8
  baseDecimals : U8
  depositSubAccount : U8
  withdrawSubAccount : U8
  depositsPausedFlag : U8
  withdrawalsPausedFlag : U8
  managePausedFlag : U8
  privateFlag : U8
  externalEnabledFlag : U8
  bump : U8
  deriving DecidableEq

namespace Vault

def MAX_TAG_LEN : Nat := 32

/-! ### Configuration checks -/

def validateConfig (baseMint shareMint : Pubkey) (baseDecimals : U8)
    (performanceFeeBps withdrawalBufferBps : U16) : ProgramResult Unit := do
  into (validatePercentageBps performanceFeeBps)
  into (validatePercentageBps withdrawalBufferBps)
  rejectIf (baseMint = shareMint) .invalidArgument
  rejectIf (baseDecimals > SHARE_DECIMALS) (.custom .invalidDecimals)

def validateTag (tag : List U8) : ProgramResult Unit :=
  rejectIf (tag.length = 0 ∨ tag.length > MAX_TAG_LEN) (.custom .invalidVaultTag)

def packTag (tag : List U8) : ProgramResult (Bytes 32 × U8) := do
  validateTag tag
  .ok (Vector.ofFn fun i => tag.getD i.val 0, BitVec.ofNat 8 tag.length)

def unpackTag (tag : Bytes 32) (tagLen : U8) : ProgramResult (List U8) := do
  rejectIf (tagLen.toNat > MAX_TAG_LEN) (.custom .invalidVaultTag)
  let tag := tag.toList.take tagLen.toNat
  validateTag tag
  .ok tag

def tagSeed (v : Vault) : ProgramResult (List U8) := unpackTag v.tag v.tagLen

def findAddress (rt : Runtime) (tag : List U8) (baseMint : Pubkey) :
    ProgramResult (Pubkey × U8) := do
  validateTag tag
  .ok (rt.findProgramAddress [VAULT_SEED, tag, baseMint.toList] ID)

/-- `Vault::new`. -/
def new (tag : List U8) (admin strategist swapAuthority navAuthority withdrawalAuthority : Pubkey)
    (baseMint shareMint : Pubkey) (baseDecimals : U8) (baseOracle : OracleConfig)
    (depositSubAccount withdrawSubAccount : U8) (treasury : Pubkey)
    (performanceFeeBps withdrawalBufferBps : U16) (depositCap : U64) (controls : VaultControls)
    (isPrivate : Bool) (accessMerkleRoot : Bytes 32) (bump : U8) : ProgramResult Vault := do
  validateConfig baseMint shareMint baseDecimals performanceFeeBps withdrawalBufferBps
  controls.validate
  baseOracle.validate.mapError fun _ => .custom .invalidVaultState
  let (tag, tagLen) ← packTag tag
  .ok
    { baseOracle, depositCap, tag, admin, strategist, swapAuthority, navAuthority,
      withdrawalAuthority, baseMint, shareMint, treasury, accessMerkleRoot, controls,
      performanceFeeBps, withdrawalBufferBps, tagLen, baseDecimals, depositSubAccount,
      withdrawSubAccount, bump
      totalAssets := 0
      externalAssets := 0
      pendingWithdrawalAssets := 0
      feesPayable := 0
      highWatermark := 0
      reportEpoch := 0
      requestedWithdrawalShares := 0
      lastUpdateTs := 0
      lockedProfit := 0
      profitUnlockStartTs := 0
      profitUnlockEndTs := 0
      lastReportHash := Bytes.zero 32
      depositsPausedFlag := flag false
      withdrawalsPausedFlag := flag false
      managePausedFlag := flag false
      privateFlag := flag isPrivate
      externalEnabledFlag := flag false }

def authorityForRole (v : Vault) : Role → Pubkey
  | .admin => v.admin
  | .strategist => v.strategist
  | .swapAuthority => v.swapAuthority
  | .navAuthority => v.navAuthority
  | .withdrawalAuthority => v.withdrawalAuthority

def hasRole (v : Vault) (role : Role) (signer : Pubkey) : Bool := v.authorityForRole role == signer

def verifyAddress (rt : Runtime) (v : Vault) (vaultKey : Pubkey) : ProgramResult Unit := do
  let (expectedKey, expectedBump) ← findAddress rt (← v.tagSeed) v.baseMint
  rejectIf (vaultKey ≠ expectedKey ∨ v.bump ≠ expectedBump) .invalidSeeds

def depositsPaused (v : Vault) : ProgramResult Bool := boolFlag v.depositsPausedFlag

def withdrawalsPaused (v : Vault) : ProgramResult Bool := boolFlag v.withdrawalsPausedFlag

def managePaused (v : Vault) : ProgramResult Bool := boolFlag v.managePausedFlag

def isPrivate (v : Vault) : ProgramResult Bool := boolFlag v.privateFlag

def externalEnabled (v : Vault) : ProgramResult Bool := boolFlag v.externalEnabledFlag

/-- What every load checks of the stored record. -/
def validateState (v : Vault) : ProgramResult Unit := do
  let _ ← unpackTag v.tag v.tagLen
  validateConfig v.baseMint v.shareMint v.baseDecimals v.performanceFeeBps v.withdrawalBufferBps
  v.baseOracle.validate.mapError fun _ => .custom .invalidVaultState
  v.controls.validate
  rejectIf (v.lockedProfit > v.totalAssets) (.custom .invalidVaultState)
  rejectIf (v.profitUnlockStartTs > v.profitUnlockEndTs) (.custom .invalidVaultState)
  let _ ← boolFlag v.depositsPausedFlag
  let _ ← boolFlag v.withdrawalsPausedFlag
  let _ ← boolFlag v.managePausedFlag
  let _ ← boolFlag v.privateFlag
  let _ ← boolFlag v.externalEnabledFlag
  .ok ()

/-! ### Gates -/

def verifyIdleSubAccount (v : Vault) (subAccount : U8) : ProgramResult Unit :=
  rejectIf (¬ (subAccount = v.depositSubAccount ∨ subAccount = v.withdrawSubAccount))
    (.custom .invalidSubAccount)

def verifyManageEnabled (v : Vault) : ProgramResult Unit := do
  rejectIf ((← v.managePaused) = true) (.custom .vaultPaused)

def allowsDepositor (rt : Runtime) (v : Vault) (depositor : Pubkey) (proof : List (Bytes 32)) :
    Bool :=
  match v.isPrivate with
  | .ok false => true
  | .ok true => verifyAccessMerkleProof rt depositor v.accessMerkleRoot proof
  | .error _ => false

/-- The last report may not be older than the configured age; vaults that never
reported are exempt. -/
def verifyReportFresh (v : Vault) (now : I64) : ProgramResult Unit :=
  let maxAge := U32.toI64 v.controls.maxReportAgeSecs
  if v.reportEpoch = 0 ∨ maxAge = 0 then .ok ()
  else rejectIf (saturatingSubI now v.lastUpdateTs > maxAge) (.custom .staleNavReport)

def verifyReportInterval (v : Vault) (now : I64) : ProgramResult Unit :=
  let interval := U32.toI64 v.controls.minReportIntervalSecs
  if v.reportEpoch = 0 ∨ interval = 0 then .ok ()
  else rejectIf (saturatingSubI now v.lastUpdateTs < interval) (.custom .reportTooFrequent)

/-- A report may not raise net assets by more than `max_nav_gain_bps`. -/
def verifyNavGainBound (v : Vault) (netTotalAssets economicShareSupply : U64) :
    ProgramResult Unit :=
  if v.controls.maxNavGainBps = 0 ∨ economicShareSupply = 0 then .ok ()
  else do
    let newAssetsScaled ←
      okOr (checkedMul (U64.to128 netTotalAssets) (U64.to128 (U16.to64 BPS_DENOMINATOR)))
        (.custom .overflow)
    let maxAssetsScaled ←
      okOr (checkedMul (U64.to128 v.totalAssets)
        (U64.to128 (U16.to64 BPS_DENOMINATOR) + U64.to128 (U16.to64 v.controls.maxNavGainBps)))
        (.custom .overflow)
    rejectIf (newAssetsScaled > maxAssetsScaled) (.custom .navGainExceedsBound)

/-! ### Accounting -/

/-- Circulating shares plus the shares burned into open tickets. -/
def economicShareSupply (v : Vault) (activeShareSupply : U64) : ProgramResult U64 :=
  okOr (checkedAdd activeShareSupply v.requestedWithdrawalShares) (.custom .overflow)

def totalAssetsAfterDeposit (v : Vault) (baseAtoms : U64) : ProgramResult U64 := do
  let projected ← okOr (checkedAdd v.totalAssets baseAtoms) (.custom .overflow)
  rejectIf (v.depositCap ≠ 0 ∧ projected > v.depositCap) (.custom .depositCapExceeded)
  .ok projected

/-- Profit still locked at `now`: all of it up to the window, none after it. -/
def remainingLockedProfit (v : Vault) (now : I64) : ProgramResult U64 :=
  if now ≥ v.profitUnlockEndTs then .ok 0
  else if now ≤ v.profitUnlockStartTs then .ok v.lockedProfit
  else do
    let window ← okOr ((checkedSubI v.profitUnlockEndTs v.profitUnlockStartTs).bind (tryFromI 128))
      (.custom .overflow)
    let left ← okOr ((checkedSubI v.profitUnlockEndTs now).bind (tryFromI 128)) (.custom .overflow)
    let remaining ← into (mulDivFloor (U64.to128 v.lockedProfit) left window)
    into (checkedU64 remaining)

/-- The NAV every price is read at. -/
def effectiveTotalAssets (v : Vault) (now : I64) : ProgramResult U64 := do
  let remaining ← v.remainingLockedProfit now
  okOr (checkedSub v.totalAssets remaining) (.custom .invalidVaultState)

/-- Pay `amount` out of the effective assets, re-anchoring the unlock window at
`now` with what is still locked. -/
def debitAssetsAtEffective (v : Vault) (amount : U64) (now : I64) : ProgramResult Vault := do
  let remaining ← v.remainingLockedProfit now
  let effective ← okOr (checkedSub v.totalAssets remaining) (.custom .invalidVaultState)
  rejectIf (amount > effective) (.custom .invalidVaultState)
  let totalAssets ← okOr (checkedSub v.totalAssets amount) (.custom .overflow)
  .ok
    { v with
      totalAssets
      lockedProfit := remaining
      profitUnlockStartTs := if remaining > 0 then now else v.profitUnlockStartTs }

/-- Recognize a report's post-fee NAV.  A gain over the effective assets is locked in
full over the span it was earned in, clamped; a loss lands at once. -/
def applyReportedNav (v : Vault) (netTotalAssets : U64) (now : I64) : ProgramResult Vault := do
  let priorEffective ← v.effectiveTotalAssets now
  if netTotalAssets > priorEffective then do
    let gain ← okOr (checkedSub netTotalAssets priorEffective) (.custom .overflow)
    let elapsed := imax (saturatingSubI now v.lastUpdateTs) 0
    let window := imin elapsed (U32.toI64 v.controls.maxUnlockDurationSecs)
    let profitUnlockEndTs ← okOr (checkedAddI now window) (.custom .overflow)
    .ok
      { v with
        lockedProfit := if window = 0 then 0 else gain
        profitUnlockStartTs := now
        profitUnlockEndTs
        totalAssets := netTotalAssets }
  else
    .ok
      { v with
        lockedProfit := 0
        profitUnlockStartTs := now
        profitUnlockEndTs := now
        totalAssets := netTotalAssets }

end Vault

end Roshi
