import Roshi.Instructions.InitializeVault
import Roshi.Signers

/-!
# The program config

`state/program_config.rs`, `accounts/program_config.rs` and the two instructions over it.
One record holds the authority that may create vaults.  Its address takes no argument, so
whoever came first could seize it; the program's own key has to sign its creation.

Everything that reads the record goes through `verify_authority`
(`ProgramConfig.verifyAuthority_eq_ok`), creating a vault included
(`Genesis.verifyProgramAuthority_eq`).
-/

namespace Roshi

open Lib

variable (rt : Runtime)

structure ProgramConfig where
  authority : Pubkey
  deriving DecidableEq

namespace ProgramConfig

/-- `verify_authority`, over the record at the config's address, if there is one. -/
def verifyAuthority (config : Option ProgramConfig) (configAccount signer : AccountInfo) :
    ProgramResult ProgramConfig := do
  rejectIf (configAccount.key ≠ (programConfigAddress rt).1) .invalidSeeds
  let stored ← okOr config .illegalOwner
  rejectIf (signer.key ≠ stored.authority) .illegalOwner
  rejectIf (signer.isSigner = false) .missingRequiredSignature
  .ok stored

end ProgramConfig

/-- `occupied` are the accounts that exist, the config apart. -/
def tryInitializeProgram (config : Option ProgramConfig) (occupied : Pubkey → Bool)
    (accounts : List AccountInfo) (authority : Pubkey) : ProgramResult ProgramConfig := do
  let (payer, accounts) ← nextAccount accounts
  requireWritableSigner payer
  let (program, accounts) ← nextAccount accounts
  rejectIf (program.key ≠ ID) .incorrectProgramId
  rejectIf (program.isSigner = false) .missingRequiredSignature
  let (programConfig, accounts) ← nextAccount accounts
  rejectIf (occupied programConfig.key = true ∨
    (config.isSome = true ∧ programConfig.key = (programConfigAddress rt).1))
    .accountAlreadyInitialized
  let (systemProgram, _) ← nextAccount accounts
  requireSystemProgram systemProgram
  rejectIf (programConfig.key ≠ (programConfigAddress rt).1) .invalidSeeds
  -- the account has to be writable for its creation to succeed
  rejectIf (programConfig.isWritable = false) .cpi
  .ok { authority }

def tryTransferProgramAuthority (config : Option ProgramConfig) (accounts : List AccountInfo)
    (newAuthority : Pubkey) : ProgramResult ProgramConfig := do
  let (authority, accounts) ← nextAccount accounts
  let (configAccount, _) ← nextAccount accounts
  requireWritable configAccount
  let stored ← ProgramConfig.verifyAuthority rt config configAccount authority
  .ok { stored with authority := newAuthority }

/-! ### What they do -/

variable {rt} {config : Option ProgramConfig} {accounts : List AccountInfo} {c : ProgramConfig}

theorem ProgramConfig.verifyAuthority_eq_ok {a signer : AccountInfo} :
    ProgramConfig.verifyAuthority rt config a signer = .ok c ↔
      a.key = (programConfigAddress rt).1 ∧ config = some c ∧ signer.key = c.authority ∧
        signer.isSigner = true := by
  simp only [ProgramConfig.verifyAuthority, bind_eq_ok, rejectIf_eq_ok, okOr_eq_ok,
    Except.ok.injEq, exists_const, not_not, Bool.not_eq_false]
  constructor
  · rintro ⟨haddress, _, hconfig, hkey, hsigner, rfl⟩
    exact ⟨haddress, hconfig, hkey, hsigner⟩
  · rintro ⟨haddress, hconfig, hkey, hsigner⟩
    exact ⟨haddress, c, hconfig, hkey, hsigner, rfl⟩

/-- Creating a vault asks the same of the program authority. -/
theorem Genesis.verifyProgramAuthority_eq {g : Genesis} {a signer : AccountInfo}
    (hg : g.programAuthority = config.map ProgramConfig.authority) :
    g.verifyProgramAuthority rt signer a =
      (ProgramConfig.verifyAuthority rt config a signer).map fun _ => () := by
  simp only [Genesis.verifyProgramAuthority, ProgramConfig.verifyAuthority, hg, map_bind_eq,
    map_ok]
  cases config with
  | none => rfl
  | some stored =>
    simp only [Option.map_some, okOr_some, ok_bind]
    cases rejectIf (a.key ≠ (programConfigAddress rt).1) (ProgramError.invalidSeeds) with
    | error e => rfl
    | ok _ =>
      cases rejectIf (signer.key ≠ stored.authority) ProgramError.illegalOwner with
      | error e => rfl
      | ok _ => cases rejectIf (signer.isSigner = false) ProgramError.missingRequiredSignature <;> rfl

/-- **The config is created once**, and the program's own key signs. -/
theorem tryInitializeProgram_spec {occupied : Pubkey → Bool} {authority : Pubkey}
    (h : tryInitializeProgram rt config occupied accounts authority = .ok c) :
    config = none ∧ SignedBy accounts ID ∧ c = { authority } := by
  simp only [tryInitializeProgram, bind_eq_ok, Prod.exists, Except.ok.injEq, nextAccount_eq_ok,
    rejectIf_eq_ok, not_or, not_and, not_not, Bool.not_eq_false] at h
  obtain ⟨payer, _, rfl, _, -, program, _, rfl, _, hid, _, hsigner, account, _, rfl, _,
    ⟨-, hnew⟩, _, _, rfl, _, -, _, haddress, _, -, rfl⟩ := h
  refine ⟨?_, hid ▸ (SignedBy.head hsigner).cons, rfl⟩
  cases config with
  | none => rfl
  | some stored => exact absurd haddress (hnew rfl)

theorem tryTransferProgramAuthority_spec {newAuthority : Pubkey}
    (h : tryTransferProgramAuthority rt config accounts newAuthority = .ok c) :
    ∃ stored, config = some stored ∧ SignedBy accounts stored.authority ∧
      c = { authority := newAuthority } := by
  simp only [tryTransferProgramAuthority, bind_eq_ok, Prod.exists, Except.ok.injEq,
    nextAccount_eq_ok, ProgramConfig.verifyAuthority_eq_ok] at h
  obtain ⟨signer, _, rfl, account, _, rfl, _, -, stored, ⟨-, hconfig, hkey, hsigner⟩, rfl⟩ := h
  exact ⟨stored, hconfig, hkey ▸ SignedBy.head hsigner, rfl⟩

end Roshi
