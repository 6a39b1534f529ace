import Roshi.Relay.Cpi
import Roshi.Signers
import Roshi.Wire.Wincode

/-!
# Share metadata

`metaplex.rs` and `admin/set_share_metadata.rs`: the display name of the share mint, kept by
the Metaplex Token Metadata program.  The call is the one place where the vault lends its own
signature, which is also the mint authority's, to a program that is not a token program, so
what it signs is fixed: the vault and the share mint are read-only in it, and its data spell
one name, one symbol and one link (`shareMetadata_data_inj`).
-/

namespace Roshi

open Lib

/-- Metaplex Token Metadata. -/
def TOKEN_METADATA_PROGRAM_ID : Pubkey :=
  #v[11, 112, 101, 177, 227, 209, 124, 69, 56, 157, 82, 127, 107, 4, 195, 205, 88, 184, 108, 115,
    26, 160, 253, 181, 73, 182, 209, 188, 3, 248, 41, 70]

/-- `b"metadata"`. -/
def METADATA_SEED : List U8 := [109, 101, 116, 97, 100, 97, 116, 97]

def CREATE_METADATA_ACCOUNT_V3 : U8 := 33

def UPDATE_METADATA_ACCOUNT_V2 : U8 := 15

variable (rt : Runtime)

def findMetadataAddress (mint : Pubkey) : Pubkey × U8 :=
  rt.findProgramAddress [METADATA_SEED, TOKEN_METADATA_PROGRAM_ID.toList, mint.toList]
    TOKEN_METADATA_PROGRAM_ID

/-! ### The data -/

structure SetShareMetadataArgs where
  name : String
  symbol : String
  uri : String

/-- A string in Borsh: its length, as a `u32`, and its bytes. -/
def borshStr (s : String) : List U8 :=
  toLeBytes 4 (BitVec.ofNat 32 (strBytes s).length) ++ strBytes s

/-- No seller fee, and no creators, collection or uses. -/
def writeDataV2 (args : SetShareMetadataArgs) : List U8 :=
  [args.name, args.symbol, args.uri].flatMap borshStr ++ toLeBytes 2 (0 : U16) ++ [0, 0, 0]

/-- The last two bytes: mutable, and no collection details. -/
def createMetadataV3Data (args : SetShareMetadataArgs) : List U8 :=
  [CREATE_METADATA_ACCOUNT_V3] ++ writeDataV2 args ++ [1, 0]

/-- New data, and none of the three other things an update can change. -/
def updateMetadataV2Data (args : SetShareMetadataArgs) : List U8 :=
  [UPDATE_METADATA_ACCOUNT_V2, 1] ++ writeDataV2 args ++ [0, 0, 0]

/-! ### The instruction -/

/-- The metadata account is created by the first call and updated by every later one. -/
def shareMetadataInstruction (isNew : Bool) (admin vault shareMint metadata : Pubkey)
    (args : SetShareMetadataArgs) : RawInstruction :=
  if isNew then
    { programId := TOKEN_METADATA_PROGRAM_ID
      accounts :=
        [⟨metadata, false, true⟩, ⟨shareMint, false, false⟩,
          -- the mint authority, the payer and the update authority
          ⟨vault, true, false⟩, ⟨admin, true, true⟩, ⟨vault, true, false⟩,
          ⟨SYSTEM_PROGRAM_ID, false, false⟩]
      data := createMetadataV3Data args }
  else
    { programId := TOKEN_METADATA_PROGRAM_ID
      accounts := [⟨metadata, false, true⟩, ⟨vault, true, false⟩]
      data := updateMetadataV2Data args }

structure ShareMetadataContext where
  admin : AccountInfo
  vaultAccount : AccountInfo
  shareMint : AccountInfo
  metadata : AccountInfo
  tokenMetadataProgram : AccountInfo
  systemProgram : AccountInfo
  vault : Vault

def ShareMetadataContext.load (w : World) (accounts : List AccountInfo) :
    ProgramResult ShareMetadataContext := do
  let (admin, accounts) ← nextAccount accounts
  requireSigner admin
  let (vaultAccount, accounts) ← nextAccount accounts
  let vault ← loadVaultAs rt w admin vaultAccount .admin
  let (shareMint, accounts) ← nextAccount accounts
  verifyShareMint vault shareMint
  let (metadata, accounts) ← nextAccount accounts
  requireWritable metadata
  rejectIf (metadata.key ≠ (findMetadataAddress rt shareMint.key).1) .invalidSeeds
  let (tokenMetadataProgram, accounts) ← nextAccount accounts
  rejectIf (tokenMetadataProgram.key ≠ TOKEN_METADATA_PROGRAM_ID) .incorrectProgramId
  let (systemProgram, _) ← nextAccount accounts
  requireSystemProgram systemProgram
  .ok { admin, vaultAccount, shareMint, metadata, tokenMetadataProgram, systemProgram, vault }

namespace ShareMetadataContext

variable (c : ShareMetadataContext)

def instruction (chain : Chain) (args : SetShareMetadataArgs) : RawInstruction :=
  shareMetadataInstruction (chain c.metadata.key).data.isEmpty c.admin.key c.vaultAccount.key
    c.shareMint.key c.metadata.key args

def accountInfos (chain : Chain) : List AccountInfo :=
  if (chain c.metadata.key).data.isEmpty then
    [c.metadata, c.shareMint, c.vaultAccount, c.admin, c.systemProgram, c.tokenMetadataProgram]
  else [c.metadata, c.vaultAccount, c.tokenMetadataProgram]

end ShareMetadataContext

def trySetShareMetadata (host : Host) (records : Chain → World) (chain : Chain)
    (accounts : List AccountInfo) (args : SetShareMetadataArgs) : ProgramResult Chain := do
  let c ← ShareMetadataContext.load rt (records chain) accounts
  let tag ← c.vault.tagSeed
  host.invoke (c.instruction chain args) (c.accountInfos chain)
    [VAULT_SEED, tag, c.vault.baseMint.toList, [c.vault.bump]] chain

/-! ### What the data say -/

/-- Strings no longer than their length field can say. -/
abbrev BorshStr := { s : String // (strBytes s).length < 2 ^ 32 }

/-- The length field says where a string ends. -/
theorem prefixCode_borshStr : PrefixCode fun s : BorshStr => borshStr s.val := by
  rintro ⟨s, hs⟩ ⟨s', hs'⟩ t t' he
  have he : toLeBytes 4 (BitVec.ofNat 32 (strBytes s).length) ++ (strBytes s ++ t) =
      toLeBytes 4 (BitVec.ofNat 32 (strBytes s').length) ++ (strBytes s' ++ t') := by
    rw [← List.append_assoc, ← List.append_assoc]
    exact he
  obtain ⟨hfield, hrest⟩ := List.append_inj he (by simp [toLeBytes])
  have hlen : (strBytes s).length = (strBytes s').length := by
    have hback := congrArg leNat hfield
    simp only [toLeBytes, BitVec.toNat_ofNat, Nat.mod_eq_of_lt hs, Nat.mod_eq_of_lt hs'] at hback
    rwa [leNat_leBytes (by omega), leNat_leBytes (by omega)] at hback
  exact Subtype.ext (strBytes_injective (List.append_inj hrest hlen).1)

/-- Every string of the arguments fits its length field. -/
structure SetShareMetadataArgs.Fits (args : SetShareMetadataArgs) : Prop where
  name : (strBytes args.name).length < 2 ^ 32
  symbol : (strBytes args.symbol).length < 2 ^ 32
  uri : (strBytes args.uri).length < 2 ^ 32

/-- `write_data_v2` is read back whatever follows it. -/
theorem writeDataV2_inj {a b : SetShareMetadataArgs} (ha : a.Fits) (hb : b.Fits)
    {t t' : List U8} (he : writeDataV2 a ++ t = writeDataV2 b ++ t') : a = b ∧ t = t' := by
  simp only [writeDataV2, List.flatMap_cons, List.flatMap_nil, List.append_nil,
    List.append_assoc] at he
  obtain ⟨hname, he⟩ :=
    prefixCode_borshStr.append_inj (a := ⟨a.name, ha.name⟩) (b := ⟨b.name, hb.name⟩) he
  obtain ⟨hsymbol, he⟩ :=
    prefixCode_borshStr.append_inj (a := ⟨a.symbol, ha.symbol⟩) (b := ⟨b.symbol, hb.symbol⟩) he
  obtain ⟨huri, he⟩ :=
    prefixCode_borshStr.append_inj (a := ⟨a.uri, ha.uri⟩) (b := ⟨b.uri, hb.uri⟩) he
  refine ⟨?_, List.append_cancel_left (List.append_cancel_left he)⟩
  obtain ⟨n, s, u⟩ := a
  obtain ⟨n', s', u'⟩ := b
  cases hname
  cases hsymbol
  cases huri
  rfl

/-- **The data name one kind of call and one set of strings.** -/
theorem shareMetadata_data_inj {isNew isNew' : Bool} {admin admin' vault vault' mint mint' : Pubkey}
    {metadata metadata' : Pubkey} {a b : SetShareMetadataArgs} (ha : a.Fits) (hb : b.Fits)
    (he : (shareMetadataInstruction isNew admin vault mint metadata a).data =
      (shareMetadataInstruction isNew' admin' vault' mint' metadata' b).data) :
    isNew = isNew' ∧ a = b := by
  cases isNew <;> cases isNew'
  · simp only [shareMetadataInstruction, Bool.false_eq_true, if_false, updateMetadataV2Data,
      List.append_assoc] at he
    exact ⟨rfl, (writeDataV2_inj ha hb (List.append_cancel_left he)).1⟩
  · cases List.head_eq_of_cons_eq he
  · cases List.head_eq_of_cons_eq he
  · simp only [shareMetadataInstruction, if_true, createMetadataV3Data, List.append_assoc] at he
    exact ⟨rfl, (writeDataV2_inj ha hb (List.append_cancel_left he)).1⟩

/-! ### What the call can touch -/

/-- An invoked program writes no account its instruction does not list as writable. -/
def Host.WritesListed (host : Host) : Prop :=
  ∀ instruction infos seeds before after, host.invoke instruction infos seeds before = .ok after →
    ∀ key, (∀ m ∈ instruction.accounts, m.pubkey = key → m.isWritable = false) →
      after key = before key

theorem shareMetadata_writable {isNew : Bool} {admin vault mint metadata key : Pubkey}
    {args : SetShareMetadataArgs} (hmeta : key ≠ metadata) (hadmin : key ≠ admin) :
    ∀ m ∈ (shareMetadataInstruction isNew admin vault mint metadata args).accounts,
      m.pubkey = key → m.isWritable = false := by
  intro m hm hkey
  cases isNew with
  | false =>
    simp only [shareMetadataInstruction, Bool.false_eq_true, if_false, List.mem_cons,
      List.not_mem_nil, or_false] at hm
    rcases hm with rfl | rfl
    · exact absurd hkey.symm hmeta
    · rfl
  | true =>
    simp only [shareMetadataInstruction, if_true, List.mem_cons, List.not_mem_nil,
      or_false] at hm
    rcases hm with rfl | rfl | rfl | rfl | rfl | rfl
    · exact absurd hkey.symm hmeta
    · rfl
    · rfl
    · exact absurd hkey.symm hadmin
    · rfl
    · rfl

variable {rt} {host : Host} {records : Chain → World} {before after : Chain}
  {accounts : List AccountInfo} {args : SetShareMetadataArgs}

/-- The admin signs, and the call is the one the arguments spell. -/
theorem trySetShareMetadata_spec
    (h : trySetShareMetadata rt host records before accounts args = .ok after) :
    ∃ c : ShareMetadataContext, SignedBy accounts (records before).vault.admin ∧
      c.admin.key = (records before).vault.admin ∧
      c.vaultAccount.key = (records before).vaultKey ∧
      c.shareMint.key = (records before).vault.shareMint ∧
      c.metadata.key = (findMetadataAddress rt (records before).vault.shareMint).1 ∧
      ∃ seeds, host.invoke (c.instruction before args) (c.accountInfos before) seeds before =
        .ok after := by
  simp only [trySetShareMetadata, ShareMetadataContext.load, bind_eq_ok, Prod.exists,
    Except.ok.injEq, nextAccount_eq_ok, rejectIf_eq_ok, not_not] at h
  obtain ⟨_, ⟨admin, _, rfl, _, -, vaultAccount, _, rfl, v, hv, mint, _, rfl, _, hmint, metadata, _,
    rfl, _, -, _, haddress, program, _, rfl, _, -, system, tail, rfl, _, -, rfl⟩, tag, -, hinvoke⟩ := h
  have hsigned : SignedBy
      (admin :: vaultAccount :: mint :: metadata :: program :: system :: tail) _ :=
    signedBy_of_loadVaultAs hv
  obtain ⟨rfl, hvault, -, hadmin⟩ := loadVaultAs_eq_ok hv
  rw [verifyShareMint_eq_ok] at hmint
  exact ⟨_, hsigned, hadmin, hvault, hmint, hmint ▸ haddress, _, hinvoke⟩

/-- **Display only.**  Setting the metadata takes the admin's signature, and changes at most
the metadata account and the admin's own; the records and the share mint are elsewhere. -/
theorem shareMetadata_frame (hhost : host.WritesListed)
    (h : trySetShareMetadata rt host records before accounts args = .ok after) :
    SignedBy accounts (records before).vault.admin ∧
      ∀ key, key ≠ (findMetadataAddress rt (records before).vault.shareMint).1 →
        key ≠ (records before).vault.admin → after key = before key := by
  obtain ⟨c, hsigned, hadmin, -, -, hmeta, seeds, hinvoke⟩ := trySetShareMetadata_spec h
  refine ⟨hsigned, ?_⟩
  intro key hne hne'
  exact hhost _ _ _ _ _ hinvoke key (shareMetadata_writable (hmeta ▸ hne) (hadmin ▸ hne'))

end Roshi
