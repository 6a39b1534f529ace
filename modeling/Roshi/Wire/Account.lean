import Roshi.Instructions.ProgramConfig
import Roshi.Instructions.Registrations
import Roshi.Wire.Wincode

/-!
# Account data

`state/mod.rs`: what the program stores is one tag byte and a record.  Tag 0 is nobody's, so an
account fresh from the system program loads as nothing; every other record loads as itself and
as nothing else (`account_typed`).  A record is stored over the front of its account and the
rest stays, so loading reads past nothing it did not write (`storeInto_loadAs`).

The rest of the development keeps the records in tables instead.  `World.Shows` says that the
tables are what the accounts hold; then the loaders there are the loads here, and writing a
record is the update of its table.
-/

namespace Roshi

open Lib

/-- The unread bytes of a vault. -/
structure VaultPadding where
  oracle : Bytes 7
  controls : Bytes 2
  tail : Bytes 2

/-- The unread bytes of an asset. -/
structure AssetPadding where
  oracle : Bytes 7
  tail : Bytes 4

inductive Account where
  | vault (vault : Vault) (padding : VaultPadding)
  | action (action : Action)
  | withdrawalTicket (ticket : WithdrawalTicket) (padding : Bytes 6)
  | asset (asset : Asset) (padding : AssetPadding)
  | externalDestination (destination : ExternalDestination)
  | programConfig (config : ProgramConfig)

/-! ### Records -/

namespace Wincode

variable (wc : Wincode)

def vault : Codec U8 (Vault × VaultPadding) :=
  (oracleConfig.prod (wc.u64.prod (wc.u64.prod (wc.u64.prod (wc.u64.prod (wc.u64.prod (wc.u64.prod
    (wc.u64.prod (wc.u64.prod (wc.i64.prod (wc.u64.prod (wc.i64.prod (wc.i64.prod
    ((bytes 32).prod ((bytes 32).prod ((bytes 32).prod ((bytes 32).prod ((bytes 32).prod
    ((bytes 32).prod ((bytes 32).prod ((bytes 32).prod ((bytes 32).prod ((bytes 32).prod
    ((bytes 32).prod (wc.vaultControls.prod (wc.u16.prod (wc.u16.prod (u8.prod (u8.prod (u8.prod
    (u8.prod (u8.prod (u8.prod (u8.prod (u8.prod (u8.prod (u8.prod
    (bytes 2)))))))))))))))))))))))))))))))))))))).equiv
    { toFun := fun (v, padding) =>
        ((v.baseOracle, padding.oracle), v.totalAssets, v.depositCap, v.externalAssets,
          v.pendingWithdrawalAssets, v.feesPayable, v.highWatermark, v.reportEpoch,
          v.requestedWithdrawalShares, v.lastUpdateTs, v.lockedProfit, v.profitUnlockStartTs,
          v.profitUnlockEndTs, v.tag, v.admin, v.strategist, v.swapAuthority, v.navAuthority,
          v.withdrawalAuthority, v.baseMint, v.shareMint, v.treasury, v.lastReportHash,
          v.accessMerkleRoot, (v.controls, padding.controls), v.performanceFeeBps,
          v.withdrawalBufferBps, v.tagLen, v.baseDecimals, v.depositSubAccount,
          v.withdrawSubAccount, v.depositsPausedFlag, v.withdrawalsPausedFlag, v.managePausedFlag,
          v.privateFlag, v.externalEnabledFlag, v.bump, padding.tail)
      invFun := fun ((baseOracle, oracle), totalAssets, depositCap, externalAssets,
          pendingWithdrawalAssets, feesPayable, highWatermark, reportEpoch,
          requestedWithdrawalShares, lastUpdateTs, lockedProfit, profitUnlockStartTs,
          profitUnlockEndTs, tag, admin, strategist, swapAuthority, navAuthority,
          withdrawalAuthority, baseMint, shareMint, treasury, lastReportHash, accessMerkleRoot,
          (controls, rest), performanceFeeBps, withdrawalBufferBps, tagLen, baseDecimals,
          depositSubAccount, withdrawSubAccount, depositsPausedFlag, withdrawalsPausedFlag,
          managePausedFlag, privateFlag, externalEnabledFlag, bump, tail) =>
        ({ baseOracle, totalAssets, depositCap, externalAssets, pendingWithdrawalAssets,
           feesPayable, highWatermark, reportEpoch, requestedWithdrawalShares, lastUpdateTs,
           lockedProfit, profitUnlockStartTs, profitUnlockEndTs, tag, admin, strategist,
           swapAuthority, navAuthority, withdrawalAuthority, baseMint, shareMint, treasury,
           lastReportHash, accessMerkleRoot, controls, performanceFeeBps, withdrawalBufferBps,
           tagLen, baseDecimals, depositSubAccount, withdrawSubAccount, depositsPausedFlag,
           withdrawalsPausedFlag, managePausedFlag, privateFlag, externalEnabledFlag, bump },
          ⟨oracle, rest, tail⟩)
      left_inv := fun _ => rfl
      right_inv := fun _ => rfl }

def action : Codec U8 Action :=
  ((bytes 32).prod ((bytes 32).prod (ops.prod (wc.u64.prod (wc.u64.prod (actionScope.prod
    (wc.u16.prod u8))))))).equiv
    { toFun := fun a =>
        (a.vault, a.actionHash, a.ops, a.feeNum, a.feeDen, a.scope, a.amountOffset, a.bump)
      invFun := fun (vault, actionHash, ops, feeNum, feeDen, scope, amountOffset, bump) =>
        { vault, actionHash, ops, feeNum, feeDen, scope, amountOffset, bump }
      left_inv := fun _ => rfl
      right_inv := fun _ => rfl }

def withdrawalTicket : Codec U8 (WithdrawalTicket × Bytes 6) :=
  ((bytes 32).prod ((bytes 32).prod ((bytes 32).prod (wc.u64.prod (wc.u64.prod (wc.u64.prod
    (wc.u64.prod (u8.prod (u8.prod (bytes 6)))))))))).equiv
    { toFun := fun (t, padding) =>
        (t.vault, t.owner, t.recipientTokenAccount, t.sharesBurned, t.assetsOwed, t.requestEpoch,
          t.requestSlot, t.ticketIndex, t.bump, padding)
      invFun := fun (vault, owner, recipientTokenAccount, sharesBurned, assetsOwed, requestEpoch,
          requestSlot, ticketIndex, bump, padding) =>
        ({ vault, owner, recipientTokenAccount, sharesBurned, assetsOwed, requestEpoch,
           requestSlot, ticketIndex, bump }, padding)
      left_inv := fun _ => rfl
      right_inv := fun _ => rfl }

def asset : Codec U8 (Asset × AssetPadding) :=
  ((bytes 32).prod ((bytes 32).prod (oracleConfig.prod (wc.u64.prod (u8.prod (u8.prod (u8.prod
    (u8.prod (bytes 4))))))))).equiv
    { toFun := fun (a, padding) =>
        (a.vault, a.assetMint, (a.oracle, padding.oracle), a.depositCapAtoms, a.assetDecimals,
          a.enabledFlag, a.routedFlag, a.bump, padding.tail)
      invFun := fun (vault, assetMint, (oracle, rest), depositCapAtoms, assetDecimals, enabledFlag,
          routedFlag, bump, tail) =>
        ({ vault, assetMint, oracle, depositCapAtoms, assetDecimals, enabledFlag, routedFlag,
           bump }, ⟨rest, tail⟩)
      left_inv := fun _ => rfl
      right_inv := fun _ => rfl }

def externalDestination : Codec U8 ExternalDestination :=
  ((bytes 32).prod ((bytes 32).prod u8)).equiv
    ⟨fun d => (d.vault, d.tokenAccount, d.bump), fun t => ⟨t.1, t.2.1, t.2.2⟩, fun _ => rfl,
      fun _ => rfl⟩

def programConfig : Codec U8 ProgramConfig :=
  (bytes 32).equiv ⟨fun c => c.authority, fun k => ⟨k⟩, fun _ => rfl, fun _ => rfl⟩

/-- A record off the front of the data; what stands behind it is not looked at. -/
def readRecord {α : Type} (c : Codec U8 α) (payload : List U8) (f : α → Account) :
    Option Account :=
  (c.decode payload).map fun r => f r.1

end Wincode

/-! ### Accounts -/

namespace Account

open Wincode

def tag : Account → U8
  | vault _ _ => 1
  | action _ => 2
  | withdrawalTicket _ _ => 3
  | asset _ _ => 4
  | externalDestination _ => 5
  | programConfig _ => 6

variable (wc : Wincode)

def deserialize : List U8 → Option Account
  | [] => none
  | tag :: payload =>
    match tag.toNat with
    | 1 => readRecord wc.vault payload fun p => vault p.1 p.2
    | 2 => readRecord wc.action payload action
    | 3 => readRecord wc.withdrawalTicket payload fun p => withdrawalTicket p.1 p.2
    | 4 => readRecord wc.asset payload fun p => asset p.1 p.2
    | 5 => readRecord Wincode.externalDestination payload externalDestination
    | 6 => readRecord Wincode.programConfig payload programConfig
    | _ => none

def serializeRecord : Account → Option (List U8)
  | vault v padding => wc.vault.encode (v, padding)
  | action a => wc.action.encode a
  | withdrawalTicket t padding => wc.withdrawalTicket.encode (t, padding)
  | asset a padding => wc.asset.encode (a, padding)
  | externalDestination d => Wincode.externalDestination.encode d
  | programConfig c => Wincode.programConfig.encode c

def serialize (a : Account) : Option (List U8) := (a.serializeRecord wc).map (a.tag :: ·)

def load (a : RawAccount) : ProgramResult Account := do
  rejectIf (a.owner ≠ ID) .illegalOwner
  okOr (deserialize wc a.data) .invalidAccountData

/-- `impl AccountData for`: the variant of a type, the error on any other, and its own checks. -/
structure Data (α : Type) where
  fromAccount : Account → Option α
  error : RoshiError
  validate : α → ProgramResult Unit

def loadAs {α : Type} (d : Data α) (a : RawAccount) : ProgramResult α := do
  let account ← load wc a
  let value ← okOr (d.fromAccount account) (.custom d.error)
  d.validate value
  .ok value

namespace Data

def vault : Data Vault where
  fromAccount
    | .vault v _ => some v
    | _ => none
  error := .invalidVaultAccount
  validate := Vault.validateState

def action : Data Action where
  fromAccount
    | .action a => some a
    | _ => none
  error := .invalidActionAccount
  validate _ := .ok ()

def withdrawalTicket : Data WithdrawalTicket where
  fromAccount
    | .withdrawalTicket t _ => some t
    | _ => none
  error := .invalidWithdrawalTicketAccount
  validate _ := .ok ()

def asset : Data Asset where
  fromAccount
    | .asset a _ => some a
    | _ => none
  error := .invalidAssetAccount
  validate := Asset.validateState

def externalDestination : Data ExternalDestination where
  fromAccount
    | .externalDestination d => some d
    | _ => none
  error := .invalidExternalDestinationAccount
  validate _ := .ok ()

def programConfig : Data ProgramConfig where
  fromAccount
    | .programConfig c => some c
    | _ => none
  error := .invalidProgramConfigAccount
  validate _ := .ok ()

end Data

/-- Serialize over the front of an account's data, which has to have room. -/
def storeInto (a : Account) (data : List U8) : ProgramResult (List U8) := do
  let serialized ← okOr (a.serialize wc) .invalidAccountData
  rejectIf (serialized.length > data.length) .invalidAccountData
  .ok (serialized ++ data.drop serialized.length)

/-- `Vault::from_account_data`, the reader of the clients. -/
def vaultFromAccountData : List U8 → ProgramResult Vault
  | [] => .error (.custom .invalidVaultAccount)
  | tag :: rest => do
    rejectIf (tag ≠ 1) (.custom .invalidVaultAccount)
    let (v, _) ← okOr ((wc.vault.decode rest).map Prod.fst) (.custom .invalidVaultAccount)
    v.validateState
    .ok v

/-! ### Round trips -/

variable {wc}

theorem readRecord_eq_some {α : Type} {c : Codec U8 α} {payload : List U8} {f : α → Account}
    {a : Account} : readRecord c payload f = some a ↔
      ∃ r w rest, c.encode r = some w ∧ payload = w ++ rest ∧ f r = a := by
  simp only [readRecord, Option.map_eq_some_iff, Prod.exists, Codec.decode_eq_some]
  constructor
  · rintro ⟨r, rest, ⟨w, hw, rfl⟩, rfl⟩
    exact ⟨r, w, rest, hw, rfl, rfl⟩
  · rintro ⟨r, w, rest, hw, rfl, rfl⟩
    exact ⟨r, rest, ⟨w, hw, rfl⟩, rfl⟩

theorem readRecord_append {α : Type} {c : Codec U8 α} {f : α → Account} {r : α} {w : List U8}
    (hw : c.encode r = some w) (rest : List U8) : readRecord c (w ++ rest) f = some (f r) :=
  readRecord_eq_some.mpr ⟨r, w, rest, hw, rfl, rfl⟩

theorem serialize_eq_some {a : Account} {w : List U8} :
    a.serialize wc = some w ↔ ∃ payload, a.serializeRecord wc = some payload ∧
      a.tag :: payload = w := by
  rw [serialize, Option.map_eq_some_iff]

/-- **A record is read where it was written**, and nothing else is read as one. -/
theorem deserialize_eq_some {data : List U8} {a : Account} :
    deserialize wc data = some a ↔ ∃ w rest, a.serialize wc = some w ∧ data = w ++ rest := by
  constructor
  · intro h
    cases data with
    | nil => cases h
    | cons t payload =>
      rw [deserialize] at h
      split at h
      case h_7 => cases h
      all_goals
        rename_i htag
        obtain ⟨r, w, rest, hw, rfl, rfl⟩ := readRecord_eq_some.mp h
        refine ⟨t :: w, rest, serialize_eq_some.mpr ⟨w, hw, ?_⟩, rfl⟩
        exact congrArg (· :: w) (BitVec.eq_of_toNat_eq htag.symm)
  · rintro ⟨_, rest, hs, rfl⟩
    obtain ⟨w, hw, rfl⟩ := serialize_eq_some.mp hs
    cases a with
    | vault => exact readRecord_append (f := fun p => vault p.1 p.2) hw rest
    | action => exact readRecord_append hw rest
    | withdrawalTicket => exact readRecord_append (f := fun p => withdrawalTicket p.1 p.2) hw rest
    | asset => exact readRecord_append (f := fun p => asset p.1 p.2) hw rest
    | externalDestination => exact readRecord_append hw rest
    | programConfig => exact readRecord_append hw rest

theorem loadAs_eq_ok {α : Type} {d : Data α} {a : RawAccount} {x : α} :
    loadAs wc d a = .ok x ↔ a.owner = ID ∧ ∃ account, deserialize wc a.data = some account ∧
      d.fromAccount account = some x ∧ d.validate x = .ok () := by
  simp only [loadAs, load, bind_eq_ok, rejectIf_eq_ok, okOr_eq_ok, Except.ok.injEq, exists_const,
    not_not]
  constructor
  · rintro ⟨account, ⟨howner, hread⟩, y, hy, _, hvalid, rfl⟩
    exact ⟨howner, account, hread, hy, hvalid⟩
  · rintro ⟨howner, account, hread, hx, hvalid⟩
    exact ⟨account, ⟨howner, hread⟩, x, hx, (), hvalid, rfl⟩

theorem storeInto_eq_ok {a : Account} {data data' : List U8} :
    storeInto wc a data = .ok data' ↔ ∃ w, a.serialize wc = some w ∧ w.length ≤ data.length ∧
      data' = w ++ data.drop w.length := by
  simp only [storeInto, bind_eq_ok, okOr_eq_ok, rejectIf_eq_ok, Except.ok.injEq, exists_const,
    not_lt, gt_iff_lt]
  constructor
  · rintro ⟨w, hw, hle, rfl⟩
    exact ⟨w, hw, hle, rfl⟩
  · rintro ⟨w, hw, hle, rfl⟩
    exact ⟨w, hw, hle, rfl⟩

/-- Six kinds of records, six tags. -/
theorem deserialize_head {data : List U8} {a : Account} (h : deserialize wc data = some a) :
    data.head? = some a.tag := by
  obtain ⟨_, rest, hs, rfl⟩ := deserialize_eq_some.mp h
  obtain ⟨w, -, rfl⟩ := serialize_eq_some.mp hs
  rfl

/-- **What is stored is what loads**, as its own type, in an account that keeps its size and
every byte behind the record. -/
theorem storeInto_loadAs {a : Account} {raw : RawAccount} {data : List U8} (howner : raw.owner = ID)
    (h : storeInto wc a raw.data = .ok data) :
    data.length = raw.data.length ∧
      (∀ w, a.serialize wc = some w → data.drop w.length = raw.data.drop w.length) ∧
      ∀ {α : Type} (d : Data α) (x : α), loadAs wc d { raw with data } = .ok x ↔
        d.fromAccount a = some x ∧ d.validate x = .ok () := by
  obtain ⟨w, hw, hle, rfl⟩ := storeInto_eq_ok.mp h
  refine ⟨?_, ?_, ?_⟩
  · rw [List.length_append, List.length_drop]
    omega
  · intro w' hw'
    obtain rfl : w = w' := Option.some.inj (hw.symm.trans hw')
    rw [List.drop_left]
  · intro α d x
    have hread : deserialize wc (w ++ raw.data.drop w.length) = some a :=
      deserialize_eq_some.mpr ⟨w, _, hw, rfl⟩
    rw [loadAs_eq_ok]
    constructor
    · rintro ⟨-, account, haccount, hx⟩
      obtain rfl : a = account := Option.some.inj (hread.symm.trans haccount)
      exact hx
    · intro hx
      exact ⟨howner, a, hread, hx⟩

/-- No account loads as two types, and none with a first byte of zero, as a new account
has, loads at all. -/
theorem account_typed (wc : Wincode) (raw : RawAccount) :
    ((∃ v, loadAs wc .vault raw = .ok v) → raw.data.head? = some 1) ∧
    ((∃ a, loadAs wc .action raw = .ok a) → raw.data.head? = some 2) ∧
    ((∃ t, loadAs wc .withdrawalTicket raw = .ok t) → raw.data.head? = some 3) ∧
    ((∃ a, loadAs wc .asset raw = .ok a) → raw.data.head? = some 4) ∧
    ((∃ d, loadAs wc .externalDestination raw = .ok d) → raw.data.head? = some 5) ∧
    ((∃ c, loadAs wc .programConfig raw = .ok c) → raw.data.head? = some 6) ∧
    (raw.data.head? = some 0 → ∀ a, load wc raw ≠ .ok a) := by
  refine ⟨?_, ?_, ?_, ?_, ?_, ?_, ?_⟩
  -- the tag of what was read is that of the only variant the type takes
  iterate 6
    rintro ⟨x, hx⟩
    obtain ⟨-, account, hread, hfrom, -⟩ := loadAs_eq_ok.mp hx
    rw [deserialize_head hread]
    cases account <;> first | rfl | cases hfrom
  intro hzero a h
  simp only [load, bind_eq_ok, okOr_eq_ok] at h
  obtain ⟨_, -, hread⟩ := h
  rw [deserialize_head hread] at hzero
  cases a <;> cases hzero

theorem deserialize_vault {rest : List U8} {account : Account} :
    deserialize wc (1 :: rest) = some account ↔
      ∃ r, wc.vault.decode rest = some r ∧ vault r.1.1 r.1.2 = account := by
  have harm : deserialize wc (1 :: rest) = readRecord wc.vault rest fun p => vault p.1 p.2 := rfl
  rw [harm, readRecord, Option.map_eq_some_iff]

/-- The clients' reader accepts what the program loads as a vault, and reads the same. -/
theorem vaultFromAccountData_eq_ok {raw : RawAccount} {v : Vault} (howner : raw.owner = ID) :
    vaultFromAccountData wc raw.data = .ok v ↔ loadAs wc .vault raw = .ok v := by
  rw [loadAs_eq_ok]
  cases hdata : raw.data with
  | nil =>
    constructor
    · intro h
      cases h
    · rintro ⟨-, _, h, -⟩
      cases h
  | cons tag rest =>
    simp only [vaultFromAccountData, bind_eq_ok, rejectIf_eq_ok, okOr_eq_ok, not_not,
      Option.map_eq_some_iff, Except.ok.injEq, exists_const, howner, true_and]
    constructor
    · rintro ⟨rfl, p, ⟨r, hread, rfl⟩, _, hvalid, rfl⟩
      exact ⟨_, deserialize_vault.mpr ⟨r, hread, rfl⟩, rfl, hvalid⟩
    · rintro ⟨account, hread, hfrom, hvalid⟩
      have hhead := deserialize_head hread
      cases account with
      | vault u padding =>
        cases hfrom
        cases hhead
        obtain ⟨r, hdecode, heq⟩ := deserialize_vault.mp hread
        obtain ⟨rfl, rfl⟩ := Account.vault.inj heq
        exact ⟨rfl, r.1, ⟨r, hdecode, rfl⟩, (), hvalid, rfl⟩
      | _ => cases hfrom

end Account

end Roshi
