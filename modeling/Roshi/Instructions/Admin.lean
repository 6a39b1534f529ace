import Roshi.World

/-!
# Fees, external custody and configuration

The instructions of the vault's own parties that do not price shares: collecting and
writing down fees, moving base to a registered external account and back, and the
admin's configuration updates.  The latter all go through
`update_writable_vault_as_admin`, so one lemma covers them
(`updateWritableVaultAsAdmin_spec`).
-/

namespace Roshi

open Lib

variable (rt : Runtime)

/-! ### Configuration -/

/-- `WritableVaultRoleContext::load`. -/
def loadWritableVaultAs (w : World) (authority vaultAccount : AccountInfo) (role : Role) :
    ProgramResult Vault := do
  requireWritable vaultAccount
  let vault ← w.loadChecked rt vaultAccount
  verifyRole vault role authority
  .ok vault

/-- `WritableVaultRoleContext::store`. -/
def storeValidated (w : World) (vault : Vault) : ProgramResult World := do
  vault.validateState
  .ok { w with vault }

def updateWritableVaultAsAdmin (w : World) (accounts : List AccountInfo)
    (update : Vault → ProgramResult Vault) : ProgramResult World := do
  let (admin, accounts) ← nextAccount accounts
  let (vaultAccount, _) ← nextAccount accounts
  let vault ← loadWritableVaultAs rt w admin vaultAccount .admin
  let vault ← update vault
  storeValidated w vault

section Setters

variable (w : World) (accounts : List AccountInfo)

def trySetPauseFlags (depositsPaused withdrawalsPaused managePaused : Bool) : ProgramResult World :=
  updateWritableVaultAsAdmin rt w accounts fun v => .ok
    { v with
      depositsPausedFlag := flag depositsPaused
      withdrawalsPausedFlag := flag withdrawalsPaused
      managePausedFlag := flag managePaused }

def trySetVaultAccess (isPrivate : Bool) (accessMerkleRoot : Bytes 32) : ProgramResult World :=
  updateWritableVaultAsAdmin rt w accounts fun v => .ok
    { v with privateFlag := flag isPrivate, accessMerkleRoot }

def trySetStrategist (strategist : Pubkey) : ProgramResult World :=
  updateWritableVaultAsAdmin rt w accounts fun v => .ok { v with strategist }

def trySetSwapAuthority (swapAuthority : Pubkey) : ProgramResult World :=
  updateWritableVaultAsAdmin rt w accounts fun v => .ok { v with swapAuthority }

def trySetNavAuthority (navAuthority : Pubkey) : ProgramResult World :=
  updateWritableVaultAsAdmin rt w accounts fun v => .ok { v with navAuthority }

def trySetWithdrawalAuthority (withdrawalAuthority : Pubkey) : ProgramResult World :=
  updateWritableVaultAsAdmin rt w accounts fun v => .ok { v with withdrawalAuthority }

def tryTransferVaultAuthority (newAuthority : Pubkey) : ProgramResult World :=
  updateWritableVaultAsAdmin rt w accounts fun v => .ok { v with admin := newAuthority }

def tryWriteDownFees (amount : U64) : ProgramResult World := do
  rejectIf (amount = 0) (.custom .invalidWriteDownAmount)
  updateWritableVaultAsAdmin rt w accounts fun v => do
    let feesPayable ← okOr (checkedSub v.feesPayable amount) (.custom .invalidWriteDownAmount)
    .ok { v with feesPayable }

end Setters

structure UpdateVaultConfigArgs where
  treasury : Pubkey
  depositSubAccount : U8
  withdrawSubAccount : U8
  baseOracle : OracleConfig
  performanceFeeBps : U16
  withdrawalBufferBps : U16
  depositCap : U64
  controls : VaultControls
  externalEnabled : Bool

/-- The record with the configurable fields replaced. -/
def Vault.withConfig (v : Vault) (args : UpdateVaultConfigArgs) : Vault :=
  { v with
    treasury := args.treasury
    depositSubAccount := args.depositSubAccount
    withdrawSubAccount := args.withdrawSubAccount
    baseOracle := args.baseOracle
    performanceFeeBps := args.performanceFeeBps
    withdrawalBufferBps := args.withdrawalBufferBps
    depositCap := args.depositCap
    controls := args.controls
    externalEnabledFlag := flag args.externalEnabled }

/-- Unlike the setters, a third account: the new treasury has to be a base token account. -/
def tryUpdateVaultConfig (w : World) (accounts : List AccountInfo) (args : UpdateVaultConfigArgs) :
    ProgramResult World := do
  let (admin, accounts) ← nextAccount accounts
  let (vaultAccount, accounts) ← nextAccount accounts
  let vault ← loadWritableVaultAs rt w admin vaultAccount .admin
  let (treasury, _) ← nextAccount accounts
  rejectIf (treasury.key ≠ args.treasury) (.custom .invalidTokenAccount)
  w.ledger.verifyTokenAccountMint treasury vault.baseMint
  storeValidated w (vault.withConfig args)

/-! ### Fees -/

def tryCollectFees (w : World) (accounts : List AccountInfo) (subAccount : U8) (amount : U64) :
    ProgramResult World := do
  rejectIf (amount = 0) (.custom .zeroOutput)
  let (admin, accounts) ← nextAccount accounts
  let (vaultAccount, accounts) ← nextAccount accounts
  let vault ← loadWritableVaultAs rt w admin vaultAccount .admin
  rejectIf (amount > vault.feesPayable) (.custom .invalidVaultState)
  vault.verifyIdleSubAccount subAccount
  let (feeSubAccount, accounts) ← nextAccount accounts
  let _ ← w.verifySubAccount rt subAccount feeSubAccount
  let (custody, accounts) ← nextAccount accounts
  requireWritable custody
  w.ledger.verifyTokenAccountMintAndOwner custody vault.baseMint feeSubAccount.key
  let (treasury, accounts) ← nextAccount accounts
  requireWritable treasury
  rejectIf (treasury.key ≠ vault.treasury) (.custom .invalidTokenAccount)
  w.ledger.verifyTokenAccountMint treasury vault.baseMint
  let (tokenProgram, _) ← nextAccount accounts
  w.ledger.verifyTokenProgramFor tokenProgram custody
  w.ledger.verifyTokenProgramFor tokenProgram treasury
  let ledger ← transferSigned w.ledger tokenProgram custody treasury feeSubAccount amount
  let feesPayable ← okOr (checkedSub vault.feesPayable amount) (.custom .overflow)
  storeValidated { w with ledger } { vault with feesPayable }

/-! ### External custody -/

def tryInvestExternal (w : World) (accounts : List AccountInfo) (subAccount : U8) (amount : U64) :
    ProgramResult World := do
  rejectIf (amount = 0) (.custom .zeroOutput)
  let (strategist, accounts) ← nextAccount accounts
  let (vaultAccount, accounts) ← nextAccount accounts
  let vault ← loadWritableVaultAs rt w strategist vaultAccount .strategist
  vault.verifyManageEnabled
  rejectIf ((← vault.externalEnabled) = false) (.custom .externalDisabled)
  vault.verifyIdleSubAccount subAccount
  let (subAccountInfo, accounts) ← nextAccount accounts
  let _ ← w.verifySubAccount rt subAccount subAccountInfo
  let (custody, accounts) ← nextAccount accounts
  requireWritable custody
  w.ledger.verifyTokenAccountMintAndOwner custody vault.baseMint subAccountInfo.key
  let (externalAccount, accounts) ← nextAccount accounts
  requireWritable externalAccount
  w.ledger.verifyTokenAccountMint externalAccount vault.baseMint
  let (registration, accounts) ← nextAccount accounts
  rejectIf (registration.key ≠
    (externalDestinationAddress rt vaultAccount.key externalAccount.key).1) .invalidSeeds
  rejectIf (w.destinations registration.key = false) (.custom .externalDestinationNotRegistered)
  let (tokenProgram, _) ← nextAccount accounts
  w.ledger.verifyTokenProgramFor tokenProgram custody
  w.ledger.verifyTokenProgramFor tokenProgram externalAccount
  let ledger ← transferSigned w.ledger tokenProgram custody externalAccount subAccountInfo amount
  let externalAssets ← okOr (checkedAdd vault.externalAssets amount) (.custom .overflow)
  storeValidated { w with ledger } { vault with externalAssets }

def tryReturnExternal (w : World) (accounts : List AccountInfo) (subAccount : U8) (amount : U64) :
    ProgramResult World := do
  rejectIf (amount = 0) (.custom .zeroOutput)
  let (strategist, accounts) ← nextAccount accounts
  let (externalAuthority, accounts) ← nextAccount accounts
  requireSigner externalAuthority
  let (vaultAccount, accounts) ← nextAccount accounts
  let vault ← loadWritableVaultAs rt w strategist vaultAccount .strategist
  vault.verifyManageEnabled
  rejectIf ((← vault.externalEnabled) = false) (.custom .externalDisabled)
  rejectIf (amount > vault.externalAssets) (.custom .invalidVaultState)
  vault.verifyIdleSubAccount subAccount
  let (subAccountInfo, accounts) ← nextAccount accounts
  let _ ← w.verifySubAccount rt subAccount subAccountInfo
  let (externalAccount, accounts) ← nextAccount accounts
  requireWritable externalAccount
  w.ledger.verifyTokenAccountMintAndOwner externalAccount vault.baseMint externalAuthority.key
  let (custody, accounts) ← nextAccount accounts
  requireWritable custody
  w.ledger.verifyTokenAccountMintAndOwner custody vault.baseMint subAccountInfo.key
  let (tokenProgram, _) ← nextAccount accounts
  w.ledger.verifyTokenProgramFor tokenProgram custody
  w.ledger.verifyTokenProgramFor tokenProgram externalAccount
  let ledger ← transfer w.ledger tokenProgram externalAccount custody externalAuthority amount
  let externalAssets ← okOr (checkedSub vault.externalAssets amount) (.custom .overflow)
  storeValidated { w with ledger } { vault with externalAssets }

/-! ### What they do -/

variable {rt} {w w' : World} {accounts : List AccountInfo}

theorem loadWritableVaultAs_eq_ok {a b : AccountInfo} {role : Role} {v : Vault}
    (h : loadWritableVaultAs rt w a b role = .ok v) : v = w.vault ∧ w.vault.WellFormed := by
  simp only [loadWritableVaultAs, bind_eq_ok, Except.ok.injEq] at h
  obtain ⟨_, -, v, hv, _, -, rfl⟩ := h
  obtain ⟨rfl, -, hwf⟩ := loadChecked_eq_ok hv
  exact ⟨rfl, hwf⟩

theorem storeValidated_eq_ok {v : Vault} :
    storeValidated w v = .ok w' ↔ v.WellFormed ∧ w' = { w with vault := v } := by
  simp only [storeValidated, bind_eq_ok, Vault.validateState_eq_ok, exists_const, Except.ok.injEq]
  exact and_congr_right fun _ => eq_comm

/-- **An admin update** replaces the record by a valid one and touches nothing else. -/
theorem updateWritableVaultAsAdmin_spec {update : Vault → ProgramResult Vault}
    (h : updateWritableVaultAsAdmin rt w accounts update = .ok w') :
    ∃ v', update w.vault = .ok v' ∧ v'.WellFormed ∧ w' = { w with vault := v' } := by
  simp only [updateWritableVaultAsAdmin, bind_eq_ok, Prod.exists, storeValidated_eq_ok] at h
  obtain ⟨_, _, -, _, _, -, v, hv, v', hv', hwf', rfl⟩ := h
  obtain ⟨rfl, -⟩ := loadWritableVaultAs_eq_ok hv
  exact ⟨v', hv', hwf', rfl⟩

theorem tryUpdateVaultConfig_spec {args : UpdateVaultConfigArgs}
    (h : tryUpdateVaultConfig rt w accounts args = .ok w') :
    (w.vault.withConfig args).WellFormed ∧ w' = { w with vault := w.vault.withConfig args } := by
  simp only [tryUpdateVaultConfig, bind_eq_ok, Prod.exists, storeValidated_eq_ok] at h
  obtain ⟨_, _, -, _, _, -, v, hv, _, _, -, _, -, _, -, hwf, rfl⟩ := h
  obtain ⟨rfl, -⟩ := loadWritableVaultAs_eq_ok hv
  exact ⟨hwf, rfl⟩

/-- **Collecting fees** pays exactly the amount taken off `fees_payable`. -/
theorem tryCollectFees_spec {subAccount : U8} {amount : U64}
    (h : tryCollectFees rt w accounts subAccount amount = .ok w') :
    ∃ (program source destination authority : Pubkey) (l : Ledger) (fees : U64),
      Spl.transfer w.ledger program source destination authority amount = .ok l ∧
      fees.toNat + amount.toNat = w.vault.feesPayable.toNat ∧
      Vault.WellFormed { w.vault with feesPayable := fees } ∧
      w' = { w with ledger := l, vault := { w.vault with feesPayable := fees } } := by
  revert h
  simp only [tryCollectFees, bind_ok_imp, Prod.forall, storeValidated_eq_ok, okOr_eq_ok,
    checkedSub_eq_some, transferSigned]
  rintro _ - _ _ - _ _ - v hv _ - _ - _ _ - _ - _ _ - _ - _ - _ _ - _ - _ - _ - _ _ - _ - _ - l _ -
    hl fees hfees ⟨hwf, rfl⟩
  obtain ⟨rfl, -⟩ := loadWritableVaultAs_eq_ok hv
  exact ⟨_, _, _, _, l, fees, hl, hfees, hwf, rfl⟩

theorem tryInvestExternal_spec {subAccount : U8} {amount : U64}
    (h : tryInvestExternal rt w accounts subAccount amount = .ok w') :
    ∃ (l : Ledger) (ext : U64), l.mints = w.ledger.mints ∧
      Vault.WellFormed { w.vault with externalAssets := ext } ∧
      w' = { w with ledger := l, vault := { w.vault with externalAssets := ext } } := by
  revert h
  simp only [tryInvestExternal, bind_ok_imp, Prod.forall, storeValidated_eq_ok, okOr_eq_ok,
    transferSigned]
  rintro _ - _ _ - _ _ - v hv _ - _ - _ - _ - _ _ - _ - _ _ - _ - _ - _ _ - _ - _ - _ _ - _ - _ - _
    _ - _ - _ - l _ - hl ext - ⟨hwf, rfl⟩
  obtain ⟨rfl, -⟩ := loadWritableVaultAs_eq_ok hv
  exact ⟨l, ext, (Spl.transfer_spec hl).1, hwf, rfl⟩

theorem tryReturnExternal_spec {subAccount : U8} {amount : U64}
    (h : tryReturnExternal rt w accounts subAccount amount = .ok w') :
    ∃ (l : Ledger) (ext : U64), l.mints = w.ledger.mints ∧
      Vault.WellFormed { w.vault with externalAssets := ext } ∧
      w' = { w with ledger := l, vault := { w.vault with externalAssets := ext } } := by
  revert h
  simp only [tryReturnExternal, bind_ok_imp, Prod.forall, storeValidated_eq_ok, okOr_eq_ok,
    transfer]
  rintro _ - _ _ - _ _ - _ - _ _ - v hv _ - _ - _ - _ - _ - _ _ - _ - _ _ - _ - _ - _ _ - _ - _ - _
    _ - _ - _ - l _ - hl ext - ⟨hwf, rfl⟩
  obtain ⟨rfl, -⟩ := loadWritableVaultAs_eq_ok hv
  exact ⟨l, ext, (Spl.transfer_spec hl).1, hwf, rfl⟩

end Roshi
