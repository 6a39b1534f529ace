import Roshi.World

/-!
# Initializing a vault

`admin/initialize_vault.rs` and its account context.  Before it runs there is no
record, no ticket and no registration of the vault; after it there is the record
`Vault::new` builds and a share mint of supply zero whose authority is the vault.
-/

namespace Roshi

open Lib

variable (rt : Runtime)

structure InitializeVaultArgs where
  tag : Bytes 32
  tagLen : U8
  admin : Pubkey
  strategist : Pubkey
  swapAuthority : Pubkey
  navAuthority : Pubkey
  withdrawalAuthority : Pubkey
  baseMint : Pubkey
  baseDecimals : U8
  baseOracle : OracleConfig
  depositSubAccount : U8
  withdrawSubAccount : U8
  treasury : Pubkey
  performanceFeeBps : U16
  withdrawalBufferBps : U16
  depositCap : U64
  controls : VaultControls
  isPrivate : Bool
  accessMerkleRoot : Bytes 32

/-- The chain before the vault exists. -/
structure Genesis where
  /-- The authority of the program config, once it is initialized. -/
  programAuthority : Option Pubkey
  /-- Accounts that exist and are not token accounts. -/
  occupied : Pubkey → Bool
  ledger : Ledger
  prices : ActiveOracleConfig → List Pubkey → Clock → ProgramResult OraclePrice
  clock : Clock

def Genesis.requireUninitializedAccount (g : Genesis) (a : AccountInfo) : ProgramResult Unit :=
  rejectIf (g.occupied a.key = true ∨ (g.ledger.programOf a.key).isSome = true)
    .accountAlreadyInitialized

/-- `ProgramConfigAuthorityContext::load`. -/
def Genesis.verifyProgramAuthority (g : Genesis) (authority programConfig : AccountInfo) :
    ProgramResult Unit := do
  rejectIf (programConfig.key ≠ (programConfigAddress rt).1) .invalidSeeds
  let expected ← okOr g.programAuthority .illegalOwner
  rejectIf (authority.key ≠ expected) .illegalOwner
  rejectIf (authority.isSigner = false) .missingRequiredSignature

/-- The share mint as created: supply zero, mint authority the vault. -/
def newShareMint (vaultKey : Pubkey) : Mint where
  program := TOKEN_PROGRAM_ID
  mintAuthority := some vaultKey
  supply := 0
  decimals := SHARE_DECIMALS
  isInitialized := true
  extensions := []

structure InitializeVaultContext where
  vault : AccountInfo
  baseMintAccount : AccountInfo
  shareMintAccount : AccountInfo
  treasury : AccountInfo
  vaultBump : U8

def InitializeVaultContext.load (g : Genesis) (accounts : List AccountInfo)
    (args : InitializeVaultArgs) : ProgramResult InitializeVaultContext := do
  let (programAuthority, accounts) ← nextAccount accounts
  let (programConfig, accounts) ← nextAccount accounts
  let (payer, accounts) ← nextAccount accounts
  requireWritableSigner payer
  let (vault, accounts) ← nextAccount accounts
  g.requireUninitializedAccount vault
  let (baseMintAccount, accounts) ← nextAccount accounts
  let (shareMintAccount, accounts) ← nextAccount accounts
  requireWritable shareMintAccount
  g.requireUninitializedAccount shareMintAccount
  let (treasury, accounts) ← nextAccount accounts
  let (systemProgram, accounts) ← nextAccount accounts
  requireSystemProgram systemProgram
  let (tokenProgram, _) ← nextAccount accounts
  rejectIf (tokenProgram.key ≠ TOKEN_PROGRAM_ID) .incorrectProgramId
  g.verifyProgramAuthority rt programAuthority programConfig
  let tag ← Vault.unpackTag args.tag args.tagLen
  let (expectedVault, vaultBump) ← Vault.findAddress rt tag args.baseMint
  rejectIf (vault.key ≠ expectedVault) .invalidSeeds
  rejectIf (shareMintAccount.key ≠ (shareMintAddress rt vault.key).1) .invalidSeeds
  .ok { vault, baseMintAccount, shareMintAccount, treasury, vaultBump }

def tryInitializeVault (g : Genesis) (accounts : List AccountInfo) (args : InitializeVaultArgs) :
    ProgramResult World := do
  let context ← InitializeVaultContext.load rt g accounts args
  let tag ← Vault.unpackTag args.tag args.tagLen
  let vault ← Vault.new tag args.admin args.strategist args.swapAuthority args.navAuthority
    args.withdrawalAuthority args.baseMint context.shareMintAccount.key args.baseDecimals
    args.baseOracle args.depositSubAccount args.withdrawSubAccount args.treasury
    args.performanceFeeBps args.withdrawalBufferBps args.depositCap args.controls args.isPrivate
    args.accessMerkleRoot context.vaultBump
  let _ ← g.ledger.verifyMint context.baseMintAccount args.baseMint args.baseDecimals none
  g.ledger.verifyTokenAccountMint context.treasury args.baseMint
  rejectIf (context.treasury.key ≠ args.treasury) (.custom .invalidTokenAccount)
  rejectIf (context.vault.isWritable = false) .cpi
  .ok
    { vaultKey := context.vault.key
      vault
      tickets := ∅
      assets := fun _ => none
      actions := fun _ => none
      destinations := fun _ => false
      ledger := g.ledger.setMint context.shareMintAccount.key (newShareMint context.vault.key)
      prices := g.prices
      clock := g.clock }

/-! ### What it stores -/

variable {rt} {w : World} {accounts : List AccountInfo}

/-- A packed tag unpacks to a tag again. -/
theorem exists_unpackTag_packTag {tag : List U8} {p : Bytes 32} {n : U8}
    (h : Vault.packTag tag = .ok (p, n)) : ∃ t, Vault.unpackTag p n = .ok t := by
  have hmax : Vault.MAX_TAG_LEN = 32 := rfl
  simp only [Vault.packTag, Vault.validateTag, bind_eq_ok, rejectIf_eq_ok, Except.ok.injEq,
    Prod.mk.injEq] at h
  obtain ⟨_, hlen, rfl, rfl⟩ := h
  have hn : (BitVec.ofNat 8 tag.length).toNat = tag.length := by
    rw [BitVec.toNat_ofNat, Nat.mod_eq_of_lt (by omega)]
  simp only [Vault.unpackTag, Vault.validateTag, bind_eq_ok, rejectIf_eq_ok, Except.ok.injEq,
    exists_const, hn, List.length_take, Vector.length_toList]
  exact ⟨_, by omega, by omega, rfl⟩

/-- **`Vault::new` builds a valid record** with empty books. -/
theorem new_spec {tag : List U8} {a s sw n wd bm sm : Pubkey} {d : U8} {o : OracleConfig}
    {ds ws : U8} {tr : Pubkey} {p q : U16} {cap : U64} {c : VaultControls} {pr : Bool}
    {root : Bytes 32} {bump : U8} {v : Vault}
    (h : Vault.new tag a s sw n wd bm sm d o ds ws tr p q cap c pr root bump = .ok v) :
    v.WellFormed ∧ v.shareMint = sm ∧ v.totalAssets = 0 ∧ v.pendingWithdrawalAssets = 0 ∧
      v.requestedWithdrawalShares = 0 ∧ v.feesPayable = 0 ∧ v.lockedProfit = 0 ∧
      v.profitUnlockStartTs = 0 ∧ v.profitUnlockEndTs = 0 := by
  simp only [Vault.new, bind_eq_ok, mapError_eq_ok, Prod.exists, Vault.validateConfig_eq_ok,
    Vault.controls_validate_eq_ok, Except.ok.injEq] at h
  obtain ⟨_, ⟨h1, h2, h3, h4⟩, _, ⟨h5, h6⟩, _, ho, t, len, ht, rfl⟩ := h
  have hflag := Vault.exists_boolFlag_flag
  refine ⟨⟨exists_unpackTag_packTag ht, h1, h2, h3, h4, ho, h5, h6, Nat.le_refl _, Int.le_refl _,
    hflag false, hflag false, hflag false, hflag pr, hflag false⟩, rfl, rfl, rfl, rfl, rfl, rfl, rfl,
    rfl⟩

/-- **The first state**: a valid record with empty books, no tickets, no shares. -/
theorem tryInitializeVault_spec {g : Genesis} {args : InitializeVaultArgs}
    (h : tryInitializeVault rt g accounts args = .ok w) :
    w.vault.WellFormed ∧ w.vault.Anchored w.clock.unixTimestamp.toInt ∧ w.tickets = ∅ ∧
      w.shareSupply = 0 ∧ w.vault.requestedWithdrawalShares = 0 ∧
      w.vault.pendingWithdrawalAssets = 0 ∧ w.vault.feesPayable = 0 ∧ w.vault.totalAssets = 0 ∧
      w.ledger.ValidMint w.vault.shareMint := by
  simp only [tryInitializeVault, bind_eq_ok, Except.ok.injEq] at h
  obtain ⟨c, -, _, -, v, hv, _, -, _, -, _, -, _, -, rfl⟩ := h
  obtain ⟨hwf, hm, ht, hp, hr, hf, hl, hs, he⟩ := new_spec hv
  refine ⟨hwf, ⟨?_, ?_⟩, rfl, ?_, hr, hp, hf, ht, ?_⟩
  · show v.profitUnlockEndTs.toInt - v.profitUnlockStartTs.toInt < 2 ^ 32
    rw [hs, he]
    decide
  · show 0 < v.lockedProfit.toNat → _
    rw [hl]
    exact fun h => (Nat.lt_irrefl 0 h).elim
  · show (g.ledger.setMint _ _).supply v.shareMint = 0
    rw [Ledger.supply_setMint, if_pos hm]
    rfl
  · show (g.ledger.setMint _ _).ValidMint v.shareMint
    rw [hm]
    exact ⟨newShareMint c.vault.key, by simp [Ledger.setMint], rfl, rfl⟩

end Roshi
