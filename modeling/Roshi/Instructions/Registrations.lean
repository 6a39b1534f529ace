import Roshi.Signers

/-!
# Assets and external destinations

`accounts/asset.rs`, `accounts/external_destination.rs` and the four admin instructions over
them.  The admin registers the non-base assets a vault takes deposits in, and the token
accounts `InvestExternal` may pay to; a registration lives at an address derived from the
vault and what it registers.

An asset's update keeps what identifies it and stores nothing that would not load again
(`tryUpdateAsset_spec`).
-/

namespace Roshi

open Lib

variable (rt : Runtime)

/-! ### Assets -/

/-- `Asset::new`. -/
def Asset.new (vault assetMint : Pubkey) (oracle : OracleConfig) (assetDecimals : U8)
    (enabled routed : Bool) (depositCapAtoms : U64) (bump : U8) : ProgramResult Asset := do
  oracle.validate.mapError fun _ => .custom .invalidAssetAccount
  .ok
    { vault, assetMint, oracle, depositCapAtoms, assetDecimals, bump
      enabledFlag := flag enabled
      routedFlag := flag routed }

/-- Write `asset` at `key`; assets are never closed. -/
def World.setAsset (w : World) (key : Pubkey) (asset : Asset) : World :=
  { w with assets := fun k => if k = key then some asset else w.assets k }

structure InitializeAssetArgs where
  assetMint : Pubkey
  oracle : OracleConfig
  assetDecimals : U8
  enabled : Bool
  routed : Bool
  depositCapAtoms : U64

structure InitializeAssetContext where
  asset : AccountInfo
  vaultKey : Pubkey
  assetBump : U8

def InitializeAssetContext.load (w : World) (accounts : List AccountInfo)
    (args : InitializeAssetArgs) : ProgramResult InitializeAssetContext := do
  let (admin, accounts) ← nextAccount accounts
  requireWritableSigner admin
  let (vaultAccount, accounts) ← nextAccount accounts
  let (assetMintAccount, accounts) ← nextAccount accounts
  let (asset, accounts) ← nextAccount accounts
  w.requireUninitializedAccount asset
  let (systemProgram, _) ← nextAccount accounts
  requireSystemProgram systemProgram
  let vault ← loadVaultAs rt w admin vaultAccount .admin
  -- the base mint is not a non-base deposit asset
  rejectIf (args.assetMint = vault.baseMint) .invalidArgument
  rejectIf (assetMintAccount.key ≠ args.assetMint) (.custom .invalidMintAccount)
  let _ ← w.ledger.verifyMint assetMintAccount args.assetMint args.assetDecimals none
  let (expectedAsset, assetBump) := assetAddress rt vaultAccount.key args.assetMint
  rejectIf (asset.key ≠ expectedAsset) .invalidSeeds
  .ok { asset, vaultKey := vaultAccount.key, assetBump }

def tryInitializeAsset (w : World) (accounts : List AccountInfo) (args : InitializeAssetArgs) :
    ProgramResult World := do
  let context ← InitializeAssetContext.load rt w accounts args
  let asset ← Asset.new context.vaultKey args.assetMint args.oracle args.assetDecimals args.enabled
    args.routed args.depositCapAtoms context.assetBump
  -- the account has to be writable for its creation to succeed
  rejectIf (context.asset.isWritable = false) .cpi
  .ok (w.setAsset context.asset.key asset)

/-- The stored address and bump have to be those derived for the recorded mint; the recorded
vault is not compared. -/
def updateWritableAssetAsAdmin (w : World) (accounts : List AccountInfo)
    (update : Asset → ProgramResult Asset) : ProgramResult World := do
  let (admin, accounts) ← nextAccount accounts
  let (vaultAccount, accounts) ← nextAccount accounts
  let (assetAccount, _) ← nextAccount accounts
  requireWritable assetAccount
  let _ ← loadVaultAs rt w admin vaultAccount .admin
  let asset ← w.loadAsset assetAccount
  let (expectedAsset, expectedBump) := assetAddress rt vaultAccount.key asset.assetMint
  rejectIf (assetAccount.key ≠ expectedAsset ∨ asset.bump ≠ expectedBump) .invalidSeeds
  let asset ← update asset
  asset.validateState
  .ok (w.setAsset assetAccount.key asset)

structure UpdateAssetArgs where
  oracle : OracleConfig
  enabled : Bool
  routed : Bool
  depositCapAtoms : U64

/-- The asset with its mutable settings replaced. -/
def Asset.withSettings (a : Asset) (args : UpdateAssetArgs) : Asset :=
  { a with
    oracle := args.oracle
    enabledFlag := flag args.enabled
    routedFlag := flag args.routed
    depositCapAtoms := args.depositCapAtoms }

def tryUpdateAsset (w : World) (accounts : List AccountInfo) (args : UpdateAssetArgs) :
    ProgramResult World :=
  updateWritableAssetAsAdmin rt w accounts fun asset => .ok (asset.withSettings args)

/-! ### External destinations -/

structure ExternalDestination where
  vault : Pubkey
  tokenAccount : Pubkey
  bump : U8
  deriving DecidableEq

/-- The records behind the addresses `World.destinations` says are registered. -/
abbrev Registrations := Pubkey → Option ExternalDestination

/-- Write a registration at `key`, or close the account there. -/
def Registrations.set (r : Registrations) (key : Pubkey) (d : Option ExternalDestination) :
    Registrations :=
  fun k => if k = key then d else r k

structure RegisterExternalDestinationContext where
  externalDestination : AccountInfo
  vaultKey : Pubkey
  tokenAccount : Pubkey
  bump : U8

def RegisterExternalDestinationContext.load (w : World) (accounts : List AccountInfo) :
    ProgramResult RegisterExternalDestinationContext := do
  let (admin, accounts) ← nextAccount accounts
  requireWritableSigner admin
  let (vaultAccount, accounts) ← nextAccount accounts
  let (destination, accounts) ← nextAccount accounts
  let (externalDestination, accounts) ← nextAccount accounts
  w.requireUninitializedAccount externalDestination
  let (systemProgram, _) ← nextAccount accounts
  requireSystemProgram systemProgram
  let vault ← loadVaultAs rt w admin vaultAccount .admin
  -- only base ever moves out, so a destination is a base token account
  w.ledger.verifyTokenAccountMint destination vault.baseMint
  let (expectedKey, bump) := externalDestinationAddress rt vaultAccount.key destination.key
  rejectIf (externalDestination.key ≠ expectedKey) .invalidSeeds
  .ok { externalDestination, vaultKey := vaultAccount.key, tokenAccount := destination.key, bump }

def tryRegisterExternalDestination (w : World) (r : Registrations) (accounts : List AccountInfo) :
    ProgramResult Registrations := do
  let context ← RegisterExternalDestinationContext.load rt w accounts
  rejectIf (context.externalDestination.isWritable = false) .cpi
  .ok (r.set context.externalDestination.key (some
    { vault := context.vaultKey, tokenAccount := context.tokenAccount, bump := context.bump }))

/-- `close_external_destination_as_admin`. -/
def tryRevokeExternalDestination (w : World) (r : Registrations) (accounts : List AccountInfo) :
    ProgramResult Registrations := do
  let (admin, accounts) ← nextAccount accounts
  requireWritableSigner admin
  let (vaultAccount, accounts) ← nextAccount accounts
  let (destinationAccount, _) ← nextAccount accounts
  requireWritable destinationAccount
  let _ ← loadVaultAs rt w admin vaultAccount .admin
  let destination ← okOr (r destinationAccount.key)
    (w.loadError destinationAccount.key .invalidExternalDestinationAccount)
  let (expectedKey, expectedBump) :=
    externalDestinationAddress rt vaultAccount.key destination.tokenAccount
  rejectIf (destinationAccount.key ≠ expectedKey ∨ destination.bump ≠ expectedBump) .invalidSeeds
  .ok (r.set destinationAccount.key none)

/-! ### What they do -/

variable {rt} {w w' : World} {r r' : Registrations} {accounts : List AccountInfo}

@[simp] theorem setAsset_assets (w : World) (key k : Pubkey) (a : Asset) :
    (w.setAsset key a).assets k = if k = key then some a else w.assets k := rfl

theorem Asset.assetBoolFlag_flag (b : Bool) : Asset.assetBoolFlag (flag b) = .ok b := by
  cases b <;> rfl

/-- What `validate_state` asks of an asset whose flags were written as flags. -/
theorem Asset.validateState_of_flags {a : Asset} {enabled routed : Bool}
    (he : a.enabledFlag = flag enabled) (hr : a.routedFlag = flag routed)
    (ho : a.oracle.validate = .ok ()) : a.validateState = .ok () := by
  rw [Asset.validateState, he, hr, ho, Asset.assetBoolFlag_flag, Asset.assetBoolFlag_flag]
  rfl

/-- A new asset of the vault at `key`: admin-signed, not the base mint, at the derived address
with the mint's own decimals, and loadable. -/
structure AssetRegistered (rt : Runtime) (w : World) (accounts : List AccountInfo)
    (args : InitializeAssetArgs) (key : Pubkey) (a : Asset) : Prop where
  signed : SignedBy accounts w.vault.admin
  fresh : w.Vacant key
  vault : a.vault = w.vaultKey
  assetMint : a.assetMint = args.assetMint
  not_base : args.assetMint ≠ w.vault.baseMint
  address : assetAddress rt w.vaultKey args.assetMint = (key, a.bump)
  decimals : ∃ m, w.ledger.mints args.assetMint = some m ∧ m.decimals = a.assetDecimals
  valid : a.validateState = .ok ()

theorem Ledger.verifyMint_decimals {l : Ledger} {a : AccountInfo} {mint : Pubkey} {d : U8}
    {authority : Option Pubkey} {m : Mint} (h : l.verifyMint a mint d authority = .ok m) :
    a.key = mint ∧ l.mints mint = some m ∧ m.decimals = d := by
  simp only [Ledger.verifyMint, bind_eq_ok, rejectIf_eq_ok, okOr_eq_ok, Except.ok.injEq, not_or,
    not_not] at h
  obtain ⟨_, rfl, _, hm, _, -, _, -, _, ⟨-, hd⟩, _, -, rfl⟩ := h
  exact ⟨rfl, hm, hd⟩

theorem tryInitializeAsset_spec {args : InitializeAssetArgs}
    (h : tryInitializeAsset rt w accounts args = .ok w') :
    ∃ key a, AssetRegistered rt w accounts args key a ∧ w' = w.setAsset key a := by
  simp only [tryInitializeAsset, InitializeAssetContext.load, bind_eq_ok, Prod.exists,
    Except.ok.injEq, nextAccount_eq_ok, requireWritableSigner_eq_ok, rejectIf_eq_ok,
    Asset.new, mapError_eq_ok] at h
  obtain ⟨_, ⟨admin, _, rfl, _, -, vaultAccount, _, rfl, mintAccount, _, rfl, asset, _, rfl, _,
    hnew, _, _, rfl, _, -, v, hv, _, hbase, _, -, m, hm, _, haddress, rfl⟩, a, ⟨_, ho, rfl⟩, _, -,
    rfl⟩ := h
  obtain ⟨rfl, hvault, -, -⟩ := loadVaultAs_eq_ok hv
  obtain ⟨-, hmint, hdec⟩ := Ledger.verifyMint_decimals hm
  refine ⟨asset.key, _, ⟨signedBy_of_loadVaultAs hv,
    requireUninitializedAccount_eq_ok hnew, hvault, rfl, hbase, ?_, ⟨m, hmint, hdec⟩,
    Asset.validateState_of_flags rfl rfl ho⟩, rfl⟩
  rw [hvault] at haddress ⊢
  exact Prod.ext (not_not.mp haddress).symm rfl

/-- **An update** keeps the vault, the mint, the decimals and the bump of a stored asset, and
stores nothing that would not load. -/
theorem tryUpdateAsset_spec {args : UpdateAssetArgs}
    (h : tryUpdateAsset rt w accounts args = .ok w') :
    ∃ key a, SignedBy accounts w.vault.admin ∧ w.assets key = some a ∧
      (a.withSettings args).validateState = .ok () ∧
      w' = w.setAsset key (a.withSettings args) := by
  simp only [tryUpdateAsset, updateWritableAssetAsAdmin, bind_eq_ok, Prod.exists, Except.ok.injEq,
    nextAccount_eq_ok, loadAsset_eq_ok, exists_eq_left'] at h
  obtain ⟨admin, _, rfl, vaultAccount, _, rfl, account, _, rfl, _, -, v, hv, a, ⟨ha, -⟩, _, -, _,
    hvalid, rfl⟩ := h
  exact ⟨account.key, a, signedBy_of_loadVaultAs hv, ha, hvalid, rfl⟩

/-- A new registration of `d` at `key`: admin-signed, of a base token account, at the derived
address. -/
structure DestinationRegistered (rt : Runtime) (w : World) (accounts : List AccountInfo)
    (key : Pubkey) (d : ExternalDestination) : Prop where
  signed : SignedBy accounts w.vault.admin
  fresh : w.Vacant key
  vault : d.vault = w.vaultKey
  address : externalDestinationAddress rt w.vaultKey d.tokenAccount = (key, d.bump)
  mint : ∃ a, w.ledger.accounts d.tokenAccount = some a ∧ a.mint = w.vault.baseMint

theorem Ledger.verifyTokenAccountMint_eq_ok {l : Ledger} {i : AccountInfo} {mint : Pubkey}
    {u : Unit} (h : l.verifyTokenAccountMint i mint = .ok u) :
    ∃ a, l.accounts i.key = some a ∧ a.mint = mint := by
  simp only [Ledger.verifyTokenAccountMint, Ledger.tokenAccount, bind_eq_ok, okOr_eq_ok,
    rejectIf_eq_ok, Except.ok.injEq, not_not] at h
  obtain ⟨a, ⟨_, ha, _, -, rfl⟩, hm⟩ := h
  exact ⟨_, ha, hm⟩

theorem tryRegisterExternalDestination_spec
    (h : tryRegisterExternalDestination rt w r accounts = .ok r') :
    ∃ key d, DestinationRegistered rt w accounts key d ∧ r' = r.set key (some d) := by
  simp only [tryRegisterExternalDestination, RegisterExternalDestinationContext.load, bind_eq_ok,
    Prod.exists, Except.ok.injEq, nextAccount_eq_ok, rejectIf_eq_ok] at h
  obtain ⟨_, ⟨admin, _, rfl, _, -, vaultAccount, _, rfl, destination, _, rfl, registration, _, rfl,
    _, hnew, _, _, rfl, _, -, v, hv, _, hmint, _, haddress, rfl⟩, _, -, rfl⟩ := h
  obtain ⟨rfl, hvault, -, -⟩ := loadVaultAs_eq_ok hv
  refine ⟨registration.key, _, ⟨signedBy_of_loadVaultAs hv,
    requireUninitializedAccount_eq_ok hnew, hvault, ?_,
    Ledger.verifyTokenAccountMint_eq_ok hmint⟩, rfl⟩
  rw [hvault] at haddress ⊢
  exact Prod.ext (not_not.mp haddress).symm rfl

theorem tryRevokeExternalDestination_spec
    (h : tryRevokeExternalDestination rt w r accounts = .ok r') :
    ∃ key d, SignedBy accounts w.vault.admin ∧ r key = some d ∧ r' = r.set key none := by
  simp only [tryRevokeExternalDestination, bind_eq_ok, Prod.exists, Except.ok.injEq,
    nextAccount_eq_ok, okOr_eq_ok] at h
  obtain ⟨admin, _, rfl, _, -, vaultAccount, _, rfl, account, _, rfl, _, -, v, hv, d, hd, _, -,
    rfl⟩ := h
  exact ⟨account.key, d, signedBy_of_loadVaultAs hv, hd, rfl⟩

end Roshi
