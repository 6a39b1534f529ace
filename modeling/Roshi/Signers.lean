import Roshi.Instructions.Actions
import Roshi.Instructions.Admin

/-!
# Who signed

Every privileged instruction starts from a loader that asks for a role: the key holding it is
among the accounts, and has signed.  `SignedBy` says so of an account list, and each loader
has one lemma that reads it off.
-/

namespace Roshi

open Lib

/-- `key` is passed as a signer. -/
def SignedBy (accounts : List AccountInfo) (key : Pubkey) : Prop :=
  ∃ a ∈ accounts, a.key = key ∧ a.isSigner = true

instance (accounts : List AccountInfo) (key : Pubkey) : Decidable (SignedBy accounts key) :=
  inferInstanceAs (Decidable (∃ a ∈ accounts, _))

variable {rt : Runtime} {w w' : World} {accounts rest : List AccountInfo} {a b : AccountInfo}
  {key : Pubkey} {role : Role} {v : Vault}

theorem SignedBy.head (h : a.isSigner = true) : SignedBy (a :: rest) a.key :=
  ⟨a, List.mem_cons_self, rfl, h⟩

theorem SignedBy.cons (h : SignedBy rest key) : SignedBy (a :: rest) key := by
  obtain ⟨b, hb, hkey, hs⟩ := h
  exact ⟨b, List.mem_cons_of_mem _ hb, hkey, hs⟩

/-! ### The loaders -/

theorem nextAccount_eq_ok : nextAccount accounts = .ok (a, rest) ↔ accounts = a :: rest := by
  cases accounts with
  | nil => simp [nextAccount]
  | cons b l => simp [nextAccount]

theorem requireSigner_eq_ok {u : Unit} : requireSigner a = .ok u ↔ a.isSigner = true := by
  simp [requireSigner]

theorem requireWritableSigner_eq_ok {u : Unit} :
    requireWritableSigner a = .ok u ↔ a.isSigner = true ∧ a.isWritable = true := by
  simp [requireWritableSigner, requireSigner, requireWritable]

theorem verifyRole_eq_ok {u : Unit} :
    verifyRole v role a = .ok u ↔ a.isSigner = true ∧ v.authorityForRole role = a.key := by
  simp [verifyRole, Vault.hasRole]

theorem signedBy_of_verifyRole {u : Unit} (h : verifyRole v role a = .ok u) :
    SignedBy (a :: rest) (v.authorityForRole role) := by
  obtain ⟨hs, hkey⟩ := verifyRole_eq_ok.mp h
  exact hkey ▸ SignedBy.head hs

/-- A loader that asks for a role leaves the role's key as a signer. -/
theorem loadVaultAs_eq_ok (h : loadVaultAs rt w a b role = .ok v) :
    v = w.vault ∧ b.key = w.vaultKey ∧ a.isSigner = true ∧
      a.key = w.vault.authorityForRole role := by
  simp only [loadVaultAs, bind_eq_ok, Except.ok.injEq, verifyRole_eq_ok] at h
  obtain ⟨_, hv, _, ⟨hs, hkey⟩, rfl⟩ := h
  obtain ⟨rfl, hvault, -⟩ := loadChecked_eq_ok hv
  exact ⟨rfl, hvault, hs, hkey.symm⟩

theorem loadWritableVaultAs_signed (h : loadWritableVaultAs rt w a b role = .ok v) :
    a.isSigner = true ∧ a.key = w.vault.authorityForRole role := by
  simp only [loadWritableVaultAs, bind_eq_ok, Except.ok.injEq, verifyRole_eq_ok] at h
  obtain ⟨_, -, _, hv, _, ⟨hs, hkey⟩, rfl⟩ := h
  obtain ⟨rfl, -, -⟩ := loadChecked_eq_ok hv
  exact ⟨hs, hkey.symm⟩

/-- What `load_vault_as` finds at the head of the list. -/
theorem signedBy_of_loadVaultAs (h : loadVaultAs rt w a b role = .ok v) :
    SignedBy (a :: rest) (w.vault.authorityForRole role) := by
  obtain ⟨-, -, hs, hkey⟩ := loadVaultAs_eq_ok h
  exact hkey ▸ SignedBy.head hs

/-! ### Accounts that do not exist yet -/

/-- No record of the vault is at `key`. -/
structure World.Vacant (w : World) (key : Pubkey) : Prop where
  vault : key ≠ w.vaultKey
  ticket : w.tickets.lookup key = none
  asset : w.assets key = none
  action : w.actions key = none
  destination : w.destinations key = false

theorem requireUninitializedAccount_eq_ok {u : Unit} (h : w.requireUninitializedAccount a = .ok u) :
    w.Vacant a.key := by
  simp only [World.requireUninitializedAccount, rejectIf_eq_ok, World.initialized,
    Bool.or_eq_true, not_or, Bool.not_eq_true, Option.isSome_eq_false_iff,
    Option.isNone_iff_eq_none, beq_eq_false_iff_ne] at h
  obtain ⟨⟨⟨⟨⟨hvault, hticket⟩, hasset⟩, haction⟩, hdestination⟩, -⟩ := h
  exact ⟨hvault, hticket, hasset, haction, hdestination⟩

end Roshi
