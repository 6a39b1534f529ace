import Roshi.Lib.Table
import Roshi.State.Records
import Roshi.State.VaultSpec
import Roshi.Token

/-!
# One vault and what its instructions can see

`World` is the part of the chain an instruction of one vault reads and writes: the
vault record at its address, the withdrawal tickets, the registrations an admin
has made, the token ledger, what the oracles currently answer, and the clock.
Any other account is not a vault of this world, so loading one as the vault fails.

The loaders are those of `state/mod.rs` and `accounts/shared.rs`.  Lamports are
not modelled: creating a ticket account and closing one always find their rent.
-/

namespace Roshi

open Lib

structure World where
  vaultKey : Pubkey
  vault : Vault
  tickets : Table Pubkey WithdrawalTicket
  assets : Pubkey → Option Asset
  actions : Pubkey → Option Action
  /-- Registered destinations of `invest_external`, by registration address. -/
  destinations : Pubkey → Bool
  ledger : Ledger
  /-- What reading a leg from these accounts returns at this clock. -/
  prices : ActiveOracleConfig → List Pubkey → Clock → ProgramResult OraclePrice
  clock : Clock

/-- The part of a world that other programs, and the program's instructions over actions,
assets and registrations, can change. -/
structure Environment where
  assets : Pubkey → Option Asset
  actions : Pubkey → Option Action
  destinations : Pubkey → Bool
  ledger : Ledger
  prices : ActiveOracleConfig → List Pubkey → Clock → ProgramResult OraclePrice

namespace World

def environment (w : World) : Environment where
  assets := w.assets
  actions := w.actions
  destinations := w.destinations
  ledger := w.ledger
  prices := w.prices

/-- The record and its tickets in another environment. -/
def under (w : World) (env : Environment) : World :=
  { w with
    assets := env.assets
    actions := env.actions
    destinations := env.destinations
    ledger := env.ledger
    prices := env.prices }

/-! ### Quantities -/

/-- Circulating shares. -/
def shareSupply (w : World) : U64 := w.ledger.supply w.vault.shareMint

/-- Circulating shares plus those burned into open tickets, as a number. -/
def economicSupply (w : World) : Nat :=
  w.shareSupply.toNat + w.vault.requestedWithdrawalShares.toNat

/-- The shares burned into all live tickets. -/
def ticketShares (w : World) : Nat := Table.total (fun t => t.sharesBurned.toNat) w.tickets

/-! ### Loading accounts -/

/-- An account that exists: owned by the program or by a token program. -/
def initialized (w : World) (key : Pubkey) : Bool :=
  key == w.vaultKey || (w.tickets.lookup key).isSome || (w.assets key).isSome ||
    (w.actions key).isSome || w.destinations key || (w.ledger.programOf key).isSome

/-- The error of loading a record that is not there: another record of the program has
the wrong tag, anything else the wrong owner. -/
def loadError (w : World) (key : Pubkey) (wrongTag : RoshiError) : ProgramError :=
  if key == w.vaultKey || (w.tickets.lookup key).isSome || (w.assets key).isSome ||
    (w.actions key).isSome || w.destinations key then .custom wrongTag
  else .illegalOwner

def requireUninitializedAccount (w : World) (a : AccountInfo) : ProgramResult Unit :=
  rejectIf (w.initialized a.key = true) .accountAlreadyInitialized

/-- `vault::load_checked`. -/
def loadChecked (rt : Runtime) (w : World) (a : AccountInfo) : ProgramResult Vault := do
  rejectIf (a.key ≠ w.vaultKey) (w.loadError a.key .invalidVaultAccount)
  w.vault.validateState
  w.vault.verifyAddress rt a.key
  .ok w.vault

def loadTicket (w : World) (a : AccountInfo) : ProgramResult WithdrawalTicket :=
  okOr (w.tickets.lookup a.key) (w.loadError a.key .invalidWithdrawalTicketAccount)

def loadAsset (w : World) (a : AccountInfo) : ProgramResult Asset := do
  let asset ← okOr (w.assets a.key) (w.loadError a.key .invalidAssetAccount)
  asset.validateState
  .ok asset

def loadAction (w : World) (a : AccountInfo) : ProgramResult Action :=
  okOr (w.actions a.key) (w.loadError a.key .invalidActionAccount)

/-- `VaultSubAccount::verify_account`: the PDA for `index`, holding no data. -/
def verifySubAccount (rt : Runtime) (w : World) (index : U8) (a : AccountInfo) :
    ProgramResult U8 := do
  let (expected, bump) := subAccountAddress rt w.vaultKey index
  rejectIf (a.key ≠ expected) .invalidSeeds
  rejectIf (w.initialized a.key = true) .illegalOwner
  .ok bump

end World

/-! ### Checks on the vault's parties -/

def verifyShareMint (v : Vault) (a : AccountInfo) : ProgramResult Unit :=
  rejectIf (a.key ≠ v.shareMint) (.custom .invalidMintAccount)

def verifyRole (v : Vault) (role : Role) (signer : AccountInfo) : ProgramResult Unit := do
  rejectIf (signer.isSigner = false) .missingRequiredSignature
  rejectIf (v.hasRole role signer.key = false) .illegalOwner

theorem loadChecked_eq_ok {rt : Runtime} {w : World} {a : AccountInfo} {v : Vault}
    (h : w.loadChecked rt a = .ok v) :
    v = w.vault ∧ a.key = w.vaultKey ∧ w.vault.WellFormed := by
  simp only [World.loadChecked, bind_eq_ok, rejectIf_eq_ok, Except.ok.injEq, not_not,
    Vault.validateState_eq_ok] at h
  obtain ⟨-, hkey, -, hwf, -, -, rfl⟩ := h
  exact ⟨rfl, hkey, hwf⟩

theorem loadAsset_eq_ok {w : World} {i : AccountInfo} {a : Asset} :
    w.loadAsset i = .ok a ↔ w.assets i.key = some a ∧ a.validateState = .ok () := by
  simp only [World.loadAsset, bind_eq_ok, okOr_eq_ok, Except.ok.injEq]
  constructor
  · rintro ⟨b, hb, _, hv, rfl⟩
    exact ⟨hb, hv⟩
  · rintro ⟨ha, hv⟩
    exact ⟨a, ha, (), hv, rfl⟩

theorem verifyShareMint_eq_ok {v : Vault} {a : AccountInfo} {u : Unit} :
    verifyShareMint v a = .ok u ↔ a.key = v.shareMint := by
  simp [verifyShareMint]

end Roshi
