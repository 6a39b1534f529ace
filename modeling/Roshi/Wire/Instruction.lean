import Roshi.Instructions.Registrations
import Roshi.Instructions.InitializeVault
import Roshi.Instructions.Redeem
import Roshi.Instructions.ReportNav
import Roshi.Relay.ShareMetadata
import Roshi.Relay.Swap
import Roshi.Wire.Wincode

/-!
# Instruction data

`instructions/mod.rs` and `instructions/args.rs`: an instruction is one tag byte and its
arguments.  `decode` looks the tag up and reads the arguments to the end of the data;
`serialize` writes them.  Each is the other's inverse, and no instruction's bytes start another's
(`RoshiInstruction.decode_canonical`).
-/

namespace Roshi

open Lib

/-- The arguments of `AtomicRedeem` with those that select its CPI. -/
structure UnwindArgs extends AtomicRedeemArgs where
  accountsStart : U8
  accountFlags : PackedAccountFlags

/-- The unread bytes of an oracle config and of the controls. -/
structure ConfigPadding where
  oracle : Bytes 7
  controls : Bytes 2

inductive RoshiInstruction where
  | initializeProgram (authority : Pubkey)
  | initializeVault (args : InitializeVaultArgs) (padding : ConfigPadding)
  | authorizeAction (args : AuthorizeActionArgs)
  | revokeAction (actionHash : Bytes 32)
  | manage (args : ManageArgs)
  | manageBatch (actions : List ManageArgs)
  | atomicRedeem (args : UnwindArgs)
  | swap (args : SwapArgs)
  | reportNav (args : NavReport)
  | recoverNav (args : NavReport)
  | deposit (args : DepositArgs)
  | depositAndDeploy (args : DeployArgs)
  | redeem (args : RedeemArgs)
  | cancelRedeem (minSharesOut : U64)
  | processWithdrawals
  | updateVaultConfig (args : UpdateVaultConfigArgs) (padding : ConfigPadding)
  | initializeAsset (args : InitializeAssetArgs) (padding : Bytes 7)
  | updateAsset (args : UpdateAssetArgs) (padding : Bytes 7)
  | investExternal (subAccount : U8) (amount : U64)
  | returnExternal (subAccount : U8) (amount : U64)
  | setPauseFlags (depositsPaused withdrawalsPaused managePaused : Bool)
  | setVaultAccess (isPrivate : Bool) (accessMerkleRoot : Bytes 32)
  | transferProgramAuthority (newAuthority : Pubkey)
  | transferVaultAuthority (newAuthority : Pubkey)
  | setStrategist (strategist : Pubkey)
  | setSwapAuthority (swapAuthority : Pubkey)
  | setNavAuthority (navAuthority : Pubkey)
  | setWithdrawalAuthority (withdrawalAuthority : Pubkey)
  | collectFees (subAccount : U8) (amount : U64)
  | writeDownFees (amount : U64)
  | registerExternalDestination
  | revokeExternalDestination
  | setShareMetadata (args : SetShareMetadataArgs)
  | assertDelegateCleared
  | adminSetFlashFeeRate (args : FlashFeeRateArgs)
  | strategistLowerFlashFeeRate (args : FlashFeeRateArgs)

/-! ### Arguments -/

namespace Wincode

variable (wc : Wincode)

def initializeVaultArgs : Codec U8 (InitializeVaultArgs × ConfigPadding) :=
  ((bytes 32).prod (u8.prod ((bytes 32).prod ((bytes 32).prod ((bytes 32).prod ((bytes 32).prod
    ((bytes 32).prod ((bytes 32).prod (u8.prod (oracleConfig.prod (u8.prod (u8.prod ((bytes 32).prod
    (wc.u16.prod (wc.u16.prod (wc.u64.prod (wc.vaultControls.prod (wc.bool.prod
    (bytes 32))))))))))))))))))).equiv
    { toFun := fun (a, padding) =>
        (a.tag, a.tagLen, a.admin, a.strategist, a.swapAuthority, a.navAuthority,
          a.withdrawalAuthority, a.baseMint, a.baseDecimals, (a.baseOracle, padding.oracle),
          a.depositSubAccount, a.withdrawSubAccount, a.treasury, a.performanceFeeBps,
          a.withdrawalBufferBps, a.depositCap, (a.controls, padding.controls), a.isPrivate,
          a.accessMerkleRoot)
      invFun := fun (tag, tagLen, admin, strategist, swapAuthority, navAuthority,
          withdrawalAuthority, baseMint, baseDecimals, (baseOracle, oracle), depositSubAccount,
          withdrawSubAccount, treasury, performanceFeeBps, withdrawalBufferBps, depositCap,
          (controls, rest), isPrivate, accessMerkleRoot) =>
        ({ tag, tagLen, admin, strategist, swapAuthority, navAuthority, withdrawalAuthority,
           baseMint, baseDecimals, baseOracle, depositSubAccount, withdrawSubAccount, treasury,
           performanceFeeBps, withdrawalBufferBps, depositCap, controls, isPrivate,
           accessMerkleRoot }, ⟨oracle, rest⟩)
      left_inv := fun _ => rfl
      right_inv := fun _ => rfl }

def authorizeActionArgs : Codec U8 AuthorizeActionArgs :=
  ((bytes 32).prod (actionScope.prod (ops.prod (wc.u16.prod (wc.u64.prod wc.u64))))).equiv
    { toFun := fun a => (a.actionHash, a.scope, a.ops, a.amountOffset, a.feeNum, a.feeDen)
      invFun := fun (actionHash, scope, ops, amountOffset, feeNum, feeDen) =>
        { actionHash, scope, ops, amountOffset, feeNum, feeDen }
      left_inv := fun _ => rfl
      right_inv := fun _ => rfl }

def manageArgs : Codec U8 ManageArgs :=
  (u8.prod (u8.prod (wc.packedAccountFlags.prod (wc.vec u8)))).equiv
    { toFun := fun a => (a.subAccount, a.accountsStart, a.accountFlags, a.ixData)
      invFun := fun (subAccount, accountsStart, accountFlags, ixData) =>
        { subAccount, accountsStart, accountFlags, ixData }
      left_inv := fun _ => rfl
      right_inv := fun _ => rfl }

def depositAndDeployArgs : Codec U8 DeployArgs :=
  (wc.u64.prod (wc.u64.prod ((wc.vec (bytes 32)).prod (u8.prod (wc.packedAccountFlags.prod
    (wc.vec u8)))))).equiv
    { toFun := fun a =>
        (a.amount, a.minSharesOut, a.accessProof, a.accountsStart, a.accountFlags, a.ixData)
      invFun := fun (amount, minSharesOut, accessProof, accountsStart, accountFlags, ixData) =>
        { amount, minSharesOut, accessProof, accountsStart, accountFlags, ixData }
      left_inv := fun _ => rfl
      right_inv := fun _ => rfl }

def atomicRedeemArgs : Codec U8 UnwindArgs :=
  (wc.u64.prod (wc.u64.prod (u8.prod (u8.prod (wc.packedAccountFlags.prod (wc.vec u8)))))).equiv
    { toFun := fun a =>
        (a.shares, a.minOutput, a.subAccount, a.accountsStart, a.accountFlags, a.ixData)
      invFun := fun (shares, minOutput, subAccount, accountsStart, accountFlags, ixData) =>
        { shares, minOutput, subAccount, accountsStart, accountFlags, ixData }
      left_inv := fun _ => rfl
      right_inv := fun _ => rfl }

def swapArgs : Codec U8 SwapArgs :=
  (wc.u64.prod (wc.u64.prod (u8.prod (u8.prod (wc.packedAccountFlags.prod (wc.vec u8)))))).equiv
    { toFun := fun a =>
        (a.minOut, a.maxIn, a.subAccount, a.accountsStart, a.accountFlags, a.ixData)
      invFun := fun (minOut, maxIn, subAccount, accountsStart, accountFlags, ixData) =>
        { minOut, maxIn, subAccount, accountsStart, accountFlags, ixData }
      left_inv := fun _ => rfl
      right_inv := fun _ => rfl }

def depositArgs : Codec U8 DepositArgs :=
  ((bytes 32).prod (wc.u64.prod (wc.u64.prod (wc.vec (bytes 32))))).equiv
    { toFun := fun a => (a.assetMint, a.amount, a.minSharesOut, a.accessProof)
      invFun := fun (assetMint, amount, minSharesOut, accessProof) =>
        { assetMint, amount, minSharesOut, accessProof }
      left_inv := fun _ => rfl
      right_inv := fun _ => rfl }

def redeemArgs : Codec U8 RedeemArgs :=
  ((bytes 32).prod (u8.prod wc.u64)).equiv
    { toFun := fun a => (a.recipientTokenAccount, a.ticketIndex, a.shares)
      invFun := fun (recipientTokenAccount, ticketIndex, shares) =>
        { recipientTokenAccount, ticketIndex, shares }
      left_inv := fun _ => rfl
      right_inv := fun _ => rfl }

/-- `ReportNavArgs` and `RecoverNavArgs`. -/
def navReport : Codec U8 NavReport :=
  (wc.u64.prod (bytes 32)).equiv
    ⟨fun a => (a.externalValue, a.reportHash), fun t => ⟨t.1, t.2⟩, fun _ => rfl, fun _ => rfl⟩

def updateVaultConfigArgs : Codec U8 (UpdateVaultConfigArgs × ConfigPadding) :=
  ((bytes 32).prod (u8.prod (u8.prod (oracleConfig.prod (wc.u16.prod (wc.u16.prod (wc.u64.prod
    (wc.vaultControls.prod wc.bool)))))))).equiv
    { toFun := fun (a, padding) =>
        (a.treasury, a.depositSubAccount, a.withdrawSubAccount, (a.baseOracle, padding.oracle),
          a.performanceFeeBps, a.withdrawalBufferBps, a.depositCap, (a.controls, padding.controls),
          a.externalEnabled)
      invFun := fun (treasury, depositSubAccount, withdrawSubAccount, (baseOracle, oracle),
          performanceFeeBps, withdrawalBufferBps, depositCap, (controls, rest), externalEnabled) =>
        ({ treasury, depositSubAccount, withdrawSubAccount, baseOracle, performanceFeeBps,
           withdrawalBufferBps, depositCap, controls, externalEnabled }, ⟨oracle, rest⟩)
      left_inv := fun _ => rfl
      right_inv := fun _ => rfl }

def initializeAssetArgs : Codec U8 (InitializeAssetArgs × Bytes 7) :=
  ((bytes 32).prod (oracleConfig.prod (u8.prod (wc.bool.prod (wc.bool.prod wc.u64))))).equiv
    { toFun := fun (a, padding) =>
        (a.assetMint, (a.oracle, padding), a.assetDecimals, a.enabled, a.routed, a.depositCapAtoms)
      invFun := fun (assetMint, (oracle, padding), assetDecimals, enabled, routed,
          depositCapAtoms) =>
        ({ assetMint, oracle, assetDecimals, enabled, routed, depositCapAtoms }, padding)
      left_inv := fun _ => rfl
      right_inv := fun _ => rfl }

def updateAssetArgs : Codec U8 (UpdateAssetArgs × Bytes 7) :=
  (oracleConfig.prod (wc.bool.prod (wc.bool.prod wc.u64))).equiv
    { toFun := fun (a, padding) => ((a.oracle, padding), a.enabled, a.routed, a.depositCapAtoms)
      invFun := fun ((oracle, padding), enabled, routed, depositCapAtoms) =>
        ({ oracle, enabled, routed, depositCapAtoms }, padding)
      left_inv := fun _ => rfl
      right_inv := fun _ => rfl }

def flashFeeRateArgs : Codec U8 FlashFeeRateArgs :=
  (wc.u64.prod wc.u64).equiv
    ⟨fun a => (a.feeNum, a.feeDen), fun t => ⟨t.1, t.2⟩, fun _ => rfl, fun _ => rfl⟩

def setShareMetadataArgs : Codec U8 SetShareMetadataArgs :=
  (wc.string.prod (wc.string.prod wc.string)).equiv
    ⟨fun a => (a.name, a.symbol, a.uri), fun t => ⟨t.1, t.2.1, t.2.2⟩, fun _ => rfl, fun _ => rfl⟩

/-- `decode_payload`: the arguments, and nothing behind them. -/
def decodePayload {α : Type} (c : Codec U8 α) (payload : List U8) (f : α → RoshiInstruction) :
    Option RoshiInstruction :=
  (c.decodeExact payload).map f

end Wincode

/-! ### Instructions -/

namespace RoshiInstruction

open Wincode

def tag : RoshiInstruction → U8
  | initializeProgram _ => 0
  | initializeVault _ _ => 1
  | authorizeAction _ => 2
  | revokeAction _ => 3
  | manage _ => 4
  | manageBatch _ => 5
  | reportNav _ => 6
  | deposit _ => 7
  | redeem _ => 8
  | cancelRedeem _ => 9
  | processWithdrawals => 10
  | updateVaultConfig _ _ => 11
  | initializeAsset _ _ => 12
  | updateAsset _ _ => 13
  | setPauseFlags _ _ _ => 14
  | setVaultAccess _ _ => 15
  | transferProgramAuthority _ => 16
  | transferVaultAuthority _ => 17
  | setStrategist _ => 18
  | setNavAuthority _ => 19
  | setWithdrawalAuthority _ => 20
  | collectFees _ _ => 21
  | investExternal _ _ => 22
  | returnExternal _ _ => 23
  | setSwapAuthority _ => 24
  | atomicRedeem _ => 25
  | swap _ => 26
  | writeDownFees _ => 27
  | registerExternalDestination => 28
  | revokeExternalDestination => 29
  | setShareMetadata _ => 30
  | assertDelegateCleared => 31
  | adminSetFlashFeeRate _ => 32
  | strategistLowerFlashFeeRate _ => 33
  | recoverNav _ => 34
  | depositAndDeploy _ => 35

variable (wc : Wincode)

def decode : List U8 → Option RoshiInstruction
  | [] => none
  | tag :: payload =>
    match tag.toNat with
    | 0 => decodePayload (bytes 32) payload initializeProgram
    | 1 => decodePayload wc.initializeVaultArgs payload fun p => initializeVault p.1 p.2
    | 2 => decodePayload wc.authorizeActionArgs payload authorizeAction
    | 3 => decodePayload (bytes 32) payload revokeAction
    | 4 => decodePayload wc.manageArgs payload manage
    | 5 => decodePayload (wc.vec wc.manageArgs) payload manageBatch
    | 6 => decodePayload wc.navReport payload reportNav
    | 7 => decodePayload wc.depositArgs payload deposit
    | 8 => decodePayload wc.redeemArgs payload redeem
    | 9 => decodePayload wc.u64 payload cancelRedeem
    | 10 => decodePayload .unit payload fun _ => processWithdrawals
    | 11 => decodePayload wc.updateVaultConfigArgs payload fun p => updateVaultConfig p.1 p.2
    | 12 => decodePayload wc.initializeAssetArgs payload fun p => initializeAsset p.1 p.2
    | 13 => decodePayload wc.updateAssetArgs payload fun p => updateAsset p.1 p.2
    | 22 => decodePayload (u8.prod wc.u64) payload fun p => investExternal p.1 p.2
    | 23 => decodePayload (u8.prod wc.u64) payload fun p => returnExternal p.1 p.2
    | 14 => decodePayload (wc.bool.prod (wc.bool.prod wc.bool)) payload
        fun p => setPauseFlags p.1 p.2.1 p.2.2
    | 15 => decodePayload (wc.bool.prod (bytes 32)) payload fun p => setVaultAccess p.1 p.2
    | 16 => decodePayload (bytes 32) payload transferProgramAuthority
    | 17 => decodePayload (bytes 32) payload transferVaultAuthority
    | 18 => decodePayload (bytes 32) payload setStrategist
    | 24 => decodePayload (bytes 32) payload setSwapAuthority
    | 19 => decodePayload (bytes 32) payload setNavAuthority
    | 20 => decodePayload (bytes 32) payload setWithdrawalAuthority
    | 21 => decodePayload (u8.prod wc.u64) payload fun p => collectFees p.1 p.2
    | 25 => decodePayload wc.atomicRedeemArgs payload atomicRedeem
    | 26 => decodePayload wc.swapArgs payload swap
    | 27 => decodePayload wc.u64 payload writeDownFees
    | 28 => decodePayload .unit payload fun _ => registerExternalDestination
    | 29 => decodePayload .unit payload fun _ => revokeExternalDestination
    | 30 => decodePayload wc.setShareMetadataArgs payload setShareMetadata
    | 31 => decodePayload .unit payload fun _ => assertDelegateCleared
    | 32 => decodePayload wc.flashFeeRateArgs payload adminSetFlashFeeRate
    | 33 => decodePayload wc.flashFeeRateArgs payload strategistLowerFlashFeeRate
    | 34 => decodePayload wc.navReport payload recoverNav
    | 35 => decodePayload wc.depositAndDeployArgs payload depositAndDeploy
    | _ => none

/-- The arguments alone. -/
def serializeArgs : RoshiInstruction → Option (List U8)
  | initializeProgram authority => (bytes 32).encode authority
  | initializeVault args padding => wc.initializeVaultArgs.encode (args, padding)
  | authorizeAction args => wc.authorizeActionArgs.encode args
  | revokeAction actionHash => (bytes 32).encode actionHash
  | manage args => wc.manageArgs.encode args
  | manageBatch actions => (wc.vec wc.manageArgs).encode actions
  | reportNav args => wc.navReport.encode args
  | deposit args => wc.depositArgs.encode args
  | depositAndDeploy args => wc.depositAndDeployArgs.encode args
  | redeem args => wc.redeemArgs.encode args
  | cancelRedeem minSharesOut => wc.u64.encode minSharesOut
  | processWithdrawals => Codec.unit.encode ()
  | updateVaultConfig args padding => wc.updateVaultConfigArgs.encode (args, padding)
  | initializeAsset args padding => wc.initializeAssetArgs.encode (args, padding)
  | updateAsset args padding => wc.updateAssetArgs.encode (args, padding)
  | investExternal subAccount amount => (u8.prod wc.u64).encode (subAccount, amount)
  | returnExternal subAccount amount => (u8.prod wc.u64).encode (subAccount, amount)
  | setPauseFlags d x m => (wc.bool.prod (wc.bool.prod wc.bool)).encode (d, x, m)
  | setVaultAccess isPrivate root => (wc.bool.prod (bytes 32)).encode (isPrivate, root)
  | transferProgramAuthority newAuthority => (bytes 32).encode newAuthority
  | transferVaultAuthority newAuthority => (bytes 32).encode newAuthority
  | setStrategist key => (bytes 32).encode key
  | setSwapAuthority key => (bytes 32).encode key
  | setNavAuthority key => (bytes 32).encode key
  | setWithdrawalAuthority key => (bytes 32).encode key
  | collectFees subAccount amount => (u8.prod wc.u64).encode (subAccount, amount)
  | atomicRedeem args => wc.atomicRedeemArgs.encode args
  | swap args => wc.swapArgs.encode args
  | writeDownFees amount => wc.u64.encode amount
  | registerExternalDestination => Codec.unit.encode ()
  | revokeExternalDestination => Codec.unit.encode ()
  | setShareMetadata args => wc.setShareMetadataArgs.encode args
  | assertDelegateCleared => Codec.unit.encode ()
  | adminSetFlashFeeRate args => wc.flashFeeRateArgs.encode args
  | strategistLowerFlashFeeRate args => wc.flashFeeRateArgs.encode args
  | recoverNav args => wc.navReport.encode args

def serialize (i : RoshiInstruction) : Option (List U8) :=
  (i.serializeArgs wc).map (i.tag :: ·)

/-! ### Round trips -/

variable {wc}

theorem decodePayload_eq_some {α : Type} {c : Codec U8 α} {payload : List U8}
    {f : α → RoshiInstruction} {i : RoshiInstruction} :
    decodePayload c payload f = some i ↔ ∃ a, c.encode a = some payload ∧ f a = i := by
  simp only [decodePayload, Option.map_eq_some_iff, Codec.decodeExact_eq_some]

theorem serialize_eq_some {i : RoshiInstruction} {data : List U8} :
    i.serialize wc = some data ↔ ∃ payload, i.serializeArgs wc = some payload ∧
      i.tag :: payload = data := by
  rw [serialize, Option.map_eq_some_iff]

/-- The arm of each instruction is the one its tag selects. -/
theorem decode_serialize {i : RoshiInstruction} {data : List U8}
    (h : i.serialize wc = some data) : decode wc data = some i := by
  obtain ⟨payload, hargs, rfl⟩ := serialize_eq_some.mp h
  cases i <;> exact decodePayload_eq_some.mpr ⟨_, hargs, rfl⟩

/-- And no other tag has an arm. -/
theorem serialize_decode {i : RoshiInstruction} {data : List U8}
    (h : decode wc data = some i) : i.serialize wc = some data := by
  cases data with
  | nil => cases h
  | cons t payload =>
    rw [decode] at h
    split at h
    case h_37 => cases h
    all_goals
      rename_i htag
      obtain ⟨a, hargs, rfl⟩ := decodePayload_eq_some.mp h
      exact serialize_eq_some.mpr ⟨payload, hargs, congrArg (· :: payload)
        (BitVec.eq_of_toNat_eq htag.symm)⟩

theorem decodePayload_append {α : Type} {c : Codec U8 α} {payload t : List U8}
    {f : α → RoshiInstruction} {i j : RoshiInstruction} (h : decodePayload c payload f = some i)
    (h' : decodePayload c (payload ++ t) f = some j) : i = j ∧ t = [] := by
  obtain ⟨a, ha, rfl⟩ := decodePayload_eq_some.mp h
  obtain ⟨b, hb, rfl⟩ := decodePayload_eq_some.mp h'
  have happ : payload ++ t = payload ++ t ++ [] := (List.append_nil _).symm
  obtain ⟨rfl, rfl⟩ := c.eq_of_append ha hb happ
  exact ⟨rfl, rfl⟩

/-- No instruction's data continue another's. -/
theorem decode_append {data t : List U8} {i j : RoshiInstruction} (h : decode wc data = some i)
    (h' : decode wc (data ++ t) = some j) : i = j ∧ t = [] := by
  cases data with
  | nil => cases h
  | cons tag payload =>
    rw [List.cons_append] at h'
    rw [decode] at h h'
    split at h
    case h_37 => cases h
    all_goals
      rename_i htag
      simp only [htag] at h'
      exact decodePayload_append h h'

/-- **Instruction data are canonical.**  What decodes is exactly what is serialized, and with
any byte behind it, it decodes no longer. -/
theorem decode_canonical (wc : Wincode) :
    (∀ data i, decode wc data = some i ↔ i.serialize wc = some data) ∧
      ∀ data t i j, decode wc data = some i → decode wc (data ++ t) = some j → i = j ∧ t = [] :=
  ⟨fun _ _ => ⟨serialize_decode, decode_serialize⟩, fun _ _ _ _ => decode_append⟩

example : decode Sample.wincode [22, 3, 1, 1, 0, 0, 0, 0, 0, 0] = some (investExternal 3 257) := by
  rfl

end RoshiInstruction

end Roshi
