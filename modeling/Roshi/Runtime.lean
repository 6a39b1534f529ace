import Roshi.Basic

/-!
# What the chain provides

Program ids, the account metadata an instruction receives, and `Runtime`: the two
functions of the Solana runtime the program calls and this development does not
open, address derivation and SHA-256.  Every definition that derives an address
takes the runtime as a parameter, and no result assumes anything of it.
-/

namespace Roshi

open Lib

/-- The program id. -/
def ID : Pubkey :=
  #v[6, 90, 240, 177, 218, 150, 106, 217, 233, 137, 234, 135, 93, 244, 238, 214, 100, 17, 78,
    110, 88, 191, 111, 135, 238, 109, 236, 146, 174, 26, 147, 212]

/-- Classic SPL Token. -/
def TOKEN_PROGRAM_ID : Pubkey :=
  #v[6, 221, 246, 225, 215, 101, 161, 147, 217, 203, 225, 70, 206, 235, 121, 172, 28, 180, 133,
    237, 95, 91, 55, 145, 58, 140, 245, 133, 126, 255, 0, 169]

/-- Token-2022. -/
def TOKEN_2022_PROGRAM_ID : Pubkey :=
  #v[6, 221, 246, 225, 238, 117, 143, 222, 24, 66, 93, 188, 228, 108, 205, 218, 182, 26, 252, 77,
    131, 185, 13, 39, 254, 189, 249, 40, 216, 161, 139, 252]

/-- The associated-token-account program. -/
def ASSOCIATED_TOKEN_PROGRAM_ID : Pubkey :=
  #v[140, 151, 37, 143, 78, 36, 137, 241, 187, 61, 16, 41, 20, 142, 13, 131, 11, 90, 19, 153,
    218, 255, 16, 132, 4, 142, 123, 216, 219, 233, 248, 89]

/-- The incinerator, whose token accounts anyone may burn from. -/
def INCINERATOR_ID : Pubkey :=
  #v[0, 51, 144, 114, 141, 52, 17, 96, 121, 189, 201, 17, 191, 255, 0, 219, 212, 77, 46, 205,
    204, 247, 156, 166, 225, 0, 56, 225, 0, 0, 0, 0]

/-- The system program, `[0; 32]`. -/
def SYSTEM_PROGRAM_ID : Pubkey := Bytes.zero 32

/-- The runtime functions the program calls. -/
structure Runtime where
  /-- `Pubkey::find_program_address`: the address and its bump. -/
  findProgramAddress : List (List U8) → Pubkey → Pubkey × U8
  /-- `solana_sha256_hasher::hashv`. -/
  hashv : List (List U8) → Bytes 32

structure Clock where
  slot : U64
  unixTimestamp : I64
  deriving DecidableEq

/-- What an instruction is told about one of its accounts; the contents are looked
up by key. -/
structure AccountInfo where
  key : Pubkey
  isSigner : Bool
  isWritable : Bool
  deriving DecidableEq

/-- What is stored at an address. -/
structure RawAccount where
  /-- The program that owns the account. -/
  owner : Pubkey
  executable : Bool
  data : List U8

/-- Every account by its address. -/
abbrev Chain := Pubkey → RawAccount

/-! ### Reading an account list -/

/-- `next_account`: the head of the iterator and the rest. -/
def nextAccount : List AccountInfo → ProgramResult (AccountInfo × List AccountInfo)
  | [] => .error .notEnoughAccountKeys
  | a :: rest => .ok (a, rest)

def requireSigner (a : AccountInfo) : ProgramResult Unit :=
  rejectIf (a.isSigner = false) .missingRequiredSignature

def requireWritable (a : AccountInfo) : ProgramResult Unit :=
  rejectIf (a.isWritable = false) .invalidAccountData

def requireWritableSigner (a : AccountInfo) : ProgramResult Unit := do
  requireSigner a
  requireWritable a

def requireSystemProgram (a : AccountInfo) : ProgramResult Unit :=
  rejectIf (a.key ≠ SYSTEM_PROGRAM_ID) .incorrectProgramId

/-! ### Addresses -/

/-- `b"vault"`. -/
def VAULT_SEED : List U8 := [118, 97, 117, 108, 116]

/-- `b"share_mint"`. -/
def SHARE_MINT_SEED : List U8 := [115, 104, 97, 114, 101, 95, 109, 105, 110, 116]

/-- `b"sub_account"`. -/
def SUB_ACCOUNT_SEED : List U8 := [115, 117, 98, 95, 97, 99, 99, 111, 117, 110, 116]

/-- `b"ticket"`. -/
def TICKET_SEED : List U8 := [116, 105, 99, 107, 101, 116]

/-- `b"asset"`. -/
def ASSET_SEED : List U8 := [97, 115, 115, 101, 116]

/-- `b"action"`. -/
def ACTION_SEED : List U8 := [97, 99, 116, 105, 111, 110]

/-- `b"external_destination"`. -/
def EXTERNAL_DESTINATION_SEED : List U8 :=
  [101, 120, 116, 101, 114, 110, 97, 108, 95, 100, 101, 115, 116, 105, 110, 97, 116, 105, 111,
    110]

/-- `b"program_config"`. -/
def PROGRAM_CONFIG_SEED : List U8 :=
  [112, 114, 111, 103, 114, 97, 109, 95, 99, 111, 110, 102, 105,
    103]

section Addresses

variable (rt : Runtime)

/-- `VaultSubAccount::find_address`. -/
def subAccountAddress (vault : Pubkey) (index : U8) : Pubkey × U8 :=
  rt.findProgramAddress [SUB_ACCOUNT_SEED, vault.toList, [index]] ID

/-- `WithdrawalTicket::find_address`. -/
def ticketAddress (vault owner : Pubkey) (ticketIndex : U8) : Pubkey × U8 :=
  rt.findProgramAddress [TICKET_SEED, vault.toList, owner.toList, [ticketIndex]] ID

/-- `Asset::find_address`. -/
def assetAddress (vault assetMint : Pubkey) : Pubkey × U8 :=
  rt.findProgramAddress [ASSET_SEED, vault.toList, assetMint.toList] ID

/-- `Action::find_address`. -/
def actionAddress (vault : Pubkey) (actionHash : Bytes 32) : Pubkey × U8 :=
  rt.findProgramAddress [ACTION_SEED, vault.toList, actionHash.toList] ID

/-- `ExternalDestination::find_address`. -/
def externalDestinationAddress (vault tokenAccount : Pubkey) : Pubkey × U8 :=
  rt.findProgramAddress [EXTERNAL_DESTINATION_SEED, vault.toList, tokenAccount.toList] ID

/-- `find_share_mint_address`. -/
def shareMintAddress (vault : Pubkey) : Pubkey × U8 :=
  rt.findProgramAddress [SHARE_MINT_SEED, vault.toList] ID

/-- `ProgramConfig::find_address`. -/
def programConfigAddress : Pubkey × U8 := rt.findProgramAddress [PROGRAM_CONFIG_SEED] ID

def associatedTokenAddress (wallet mint tokenProgram : Pubkey) : Pubkey :=
  (rt.findProgramAddress [wallet.toList, tokenProgram.toList, mint.toList]
    ASSOCIATED_TOKEN_PROGRAM_ID).1

end Addresses

end Roshi
