import Roshi.Action
import Roshi.State.Vault

/-!
# Tickets, assets and actions

The smaller accounts the program owns: a withdrawal ticket, the registration of a
non-base deposit asset, and an authorized action.
-/

namespace Roshi

open Lib

/-! ### Withdrawal tickets -/

def REDEEM_CANCEL_DELAY_SLOTS : U64 := 150

def WITHDRAWAL_STRIKE_DELAY_EPOCHS : U64 := 1

structure WithdrawalTicket where
  vault : Pubkey
  owner : Pubkey
  recipientTokenAccount : Pubkey
  sharesBurned : U64
  assetsOwed : U64
  requestEpoch : U64
  requestSlot : U64
  ticketIndex : U8
  bump : U8
  deriving DecidableEq

/-! ### Assets -/

structure Asset where
  vault : Pubkey
  assetMint : Pubkey
  oracle : OracleConfig
  depositCapAtoms : U64
  assetDecimals : U8
  enabledFlag : U8
  routedFlag : U8
  bump : U8
  deriving DecidableEq

namespace Asset

/-- `asset.rs`'s own `bool_flag`, with its own error. -/
def assetBoolFlag (f : U8) : ProgramResult Bool :=
  if f = 0 then .ok false
  else if f = 1 then .ok true
  else .error (.custom .invalidAssetAccount)

def enabled (a : Asset) : ProgramResult Bool := assetBoolFlag a.enabledFlag

def routed (a : Asset) : ProgramResult Bool := assetBoolFlag a.routedFlag

def validateState (a : Asset) : ProgramResult Unit := do
  a.oracle.validate.mapError fun _ => .custom .invalidAssetAccount
  let _ ← assetBoolFlag a.enabledFlag
  let _ ← assetBoolFlag a.routedFlag
  .ok ()

end Asset

/-! ### Actions -/

/-- An admin-authorized downstream call.  The flash fee is a committed fraction. -/
structure Action where
  vault : Pubkey
  actionHash : Bytes 32
  ops : Ops
  feeNum : U64
  feeDen : U64
  scope : ActionScope
  amountOffset : U16
  bump : U8
  deriving DecidableEq

namespace Action

def verifyForVault (rt : Runtime) (a : Action) (vault actionKey : Pubkey) : ProgramResult Unit := do
  rejectIf (a.vault ≠ vault) (.custom .unauthorizedAction)
  let (expectedKey, expectedBump) := actionAddress rt vault a.actionHash
  rejectIf (actionKey ≠ expectedKey ∨ a.bump ≠ expectedBump) .invalidSeeds

end Action

def actionHashErrorToProgramError : ActionHashError → ProgramError
  | .invalidOp => .custom .invalidOp
  | .tooManyOps => .custom .invalidOp
  | .instructionSliceOutOfBounds => .custom .instructionSliceOutOfBounds
  | .accountIndexOutOfBounds => .custom .accountIndexOutOfBounds
  | .invalidInstructionData => .invalidInstructionData
  | .missingSibling => .custom .requiredSiblingMissing

/-- Read the route amount at its admin-configured byte offset. -/
def decodeWithdrawalAmount (ixData : List U8) (action : Action) : ProgramResult U64 := do
  let start := action.amountOffset.toNat
  rejectIf (ixData.length < start + 8) (.custom .instructionSliceOutOfBounds)
  .ok (BitVec.ofNat 64 (leNat ((ixData.drop start).take 8)))

end Roshi
