import Roshi.World

/-!
# Actions and their flash-fee rate

`accounts/action.rs` and `admin/flash_fee_rate.rs`.  The admin authorizes and revokes
actions and may set the committed fee rate to anything; the strategist may only move it
to a rate that compares strictly lower, by cross-multiplication.

Both rate updates go through `update_action_flash_fee`, so one lemma says what they do
(`updateActionFlashFee_spec`): one stored action keeps everything but its rate.
-/

namespace Roshi

open Lib

variable (rt : Runtime)

/-! ### The action table -/

/-- Write `action` at `key`, or close the account there. -/
def World.setAction (w : World) (key : Pubkey) (action : Option Action) : World :=
  { w with actions := fun k => if k = key then action else w.actions k }

/-- `VaultRoleContext::load`. -/
def loadVaultAs (w : World) (authority vaultAccount : AccountInfo) (role : Role) :
    ProgramResult Vault := do
  let vault ← w.loadChecked rt vaultAccount
  verifyRole vault role authority
  .ok vault

/-- `validate_ops`: within the limit, and every op in use canonical. -/
def validateOps (ops : Ops) : ProgramResult Unit := do
  let _ ← ops.decode.mapError actionHashErrorToProgramError
  .ok ()

/-! ### Authorizing and revoking -/

structure AuthorizeActionArgs where
  actionHash : Bytes 32
  scope : ActionScope
  ops : Ops
  amountOffset : U16
  feeNum : U64
  feeDen : U64

/-- The account of the new action and its bump. -/
def loadAuthorizeAction (w : World) (accounts : List AccountInfo) (actionHash : Bytes 32) :
    ProgramResult (AccountInfo × U8) := do
  let (admin, accounts) ← nextAccount accounts
  requireWritableSigner admin
  let (vaultAccount, accounts) ← nextAccount accounts
  let (action, accounts) ← nextAccount accounts
  w.requireUninitializedAccount action
  let (systemProgram, _) ← nextAccount accounts
  requireSystemProgram systemProgram
  let _ ← loadVaultAs rt w admin vaultAccount .admin
  let (expectedKey, bump) := actionAddress rt vaultAccount.key actionHash
  rejectIf (action.key ≠ expectedKey) .invalidSeeds
  .ok (action, bump)

/-- A public relay action has to bind something of its call. -/
def verifyRelayOps (scope : ActionScope) (ops : Ops) : ProgramResult Unit :=
  if scope = .atomicRedeem ∨ scope = .deploy then do
    let empty ← ops.isEmpty.mapError fun _ => .custom .invalidOp
    rejectIf (empty = true)
      (.custom (if scope = .deploy then .emptyDeployOps else .emptyAtomicRedeemOps))
  else .ok ()

/-- The rate is stored as given. -/
def tryAuthorizeAction (w : World) (accounts : List AccountInfo) (args : AuthorizeActionArgs) :
    ProgramResult World := do
  let (action, bump) ← loadAuthorizeAction rt w accounts args.actionHash
  validateOps args.ops
  verifyRelayOps args.scope args.ops
  rejectIf (action.isWritable = false) .cpi
  .ok (w.setAction action.key (some
    { vault := w.vaultKey
      actionHash := args.actionHash
      ops := args.ops
      feeNum := args.feeNum
      feeDen := args.feeDen
      scope := args.scope
      amountOffset := args.amountOffset
      bump }))

def tryRevokeAction (w : World) (accounts : List AccountInfo) (actionHash : Bytes 32) :
    ProgramResult World := do
  let (admin, accounts) ← nextAccount accounts
  requireWritableSigner admin
  let (vaultAccount, accounts) ← nextAccount accounts
  let (action, _) ← nextAccount accounts
  requireWritable action
  let _ ← loadVaultAs rt w admin vaultAccount .admin
  rejectIf (action.key ≠ (actionAddress rt vaultAccount.key actionHash).1) .invalidSeeds
  let stored ← w.loadAction action
  rejectIf (stored.vault ≠ vaultAccount.key) (.custom .unauthorizedAction)
  .ok (w.setAction action.key none)

/-! ### The flash-fee rate -/

def updateActionFlashFee (w : World) (accounts : List AccountInfo) (role : Role)
    (update : Action → ProgramResult (U64 × U64)) : ProgramResult World := do
  let (authority, accounts) ← nextAccount accounts
  let (vaultAccount, accounts) ← nextAccount accounts
  let (actionAccount, _) ← nextAccount accounts
  requireWritable actionAccount
  let _ ← loadVaultAs rt w authority vaultAccount role
  let action ← w.loadAction actionAccount
  action.verifyForVault rt vaultAccount.key actionAccount.key
  let (feeNum, feeDen) ← update action
  .ok (w.setAction actionAccount.key (some { action with feeNum, feeDen }))

/-- `new_num / new_den < cur_num / cur_den` by cross-multiplication; a zero numerator is a
zero rate whatever the denominator. -/
def rateStrictlyLower (newNum newDen curNum curDen : U64) : Bool :=
  if newNum = 0 then curNum ≠ 0
  else if curNum = 0 then false
  else U64.to128 newNum * U64.to128 curDen < U64.to128 curNum * U64.to128 newDen

structure FlashFeeRateArgs where
  feeNum : U64
  feeDen : U64

def tryAdminSetFlashFeeRate (w : World) (accounts : List AccountInfo) (args : FlashFeeRateArgs) :
    ProgramResult World :=
  updateActionFlashFee rt w accounts .admin fun _ => .ok (args.feeNum, args.feeDen)

def tryStrategistLowerFlashFeeRate (w : World) (accounts : List AccountInfo)
    (args : FlashFeeRateArgs) : ProgramResult World :=
  updateActionFlashFee rt w accounts .strategist fun action => do
    rejectIf (rateStrictlyLower args.feeNum args.feeDen action.feeNum action.feeDen = false)
      (.custom .flashFeeRateNotLower)
    .ok (args.feeNum, args.feeDen)

/-! ### What they do -/

variable {rt} {w w' : World} {accounts : List AccountInfo}

@[simp] theorem setAction_actions (w : World) (key k : Pubkey) (a : Option Action) :
    (w.setAction key a).actions k = if k = key then a else w.actions k := rfl

theorem loadAction_eq_ok {i : AccountInfo} {a : Action} :
    w.loadAction i = .ok a ↔ w.actions i.key = some a := by
  rw [World.loadAction, okOr_eq_ok]

/-- A product of two `u64`s compares as numbers do. -/
theorem mul_to128_lt {a b c d : U64} :
    U64.to128 a * U64.to128 b < U64.to128 c * U64.to128 d ↔
      a.toNat * b.toNat < c.toNat * d.toNat := by
  rw [BitVec.lt_def, BitVec.toNat_mul, BitVec.toNat_mul, U64.toNat_to128, U64.toNat_to128,
    U64.toNat_to128, U64.toNat_to128, Nat.mod_eq_of_lt (U64.mul_lt a b),
    Nat.mod_eq_of_lt (U64.mul_lt c d)]

/-- The comparison, over the naturals. -/
theorem rateStrictlyLower_iff {newNum newDen curNum curDen : U64} :
    rateStrictlyLower newNum newDen curNum curDen = true ↔
      curNum.toNat ≠ 0 ∧
        (newNum.toNat = 0 ∨ newNum.toNat * curDen.toNat < curNum.toNat * newDen.toNat) := by
  rw [rateStrictlyLower]
  by_cases hnew : newNum = 0
  · rw [if_pos hnew, decide_eq_true_eq, ne_eq, eq_zero_iff]
    simp [eq_zero_iff.mp hnew]
  · rw [if_neg hnew]
    rw [eq_zero_iff] at hnew
    by_cases hcur : curNum = 0
    · rw [if_pos hcur]
      simp [eq_zero_iff.mp hcur]
    · rw [if_neg hcur, decide_eq_true_eq, mul_to128_lt]
      rw [eq_zero_iff] at hcur
      simp [hnew, hcur]

/-- **A rate update** replaces the rate of one stored action, and nothing else. -/
theorem updateActionFlashFee_spec {role : Role} {update : Action → ProgramResult (U64 × U64)}
    (h : updateActionFlashFee rt w accounts role update = .ok w') :
    ∃ key action feeNum feeDen, w.actions key = some action ∧
      update action = .ok (feeNum, feeDen) ∧
      w' = w.setAction key (some { action with feeNum, feeDen }) := by
  simp only [updateActionFlashFee, bind_eq_ok, Prod.exists, loadAction_eq_ok,
    Except.ok.injEq] at h
  obtain ⟨_, _, -, _, _, -, account, _, -, _, -, _, -, action, haction, _, -, num, den, hup,
    rfl⟩ := h
  exact ⟨account.key, action, num, den, haction, hup, rfl⟩

/-- The strategist's update, with what it compared. -/
theorem tryStrategistLowerFlashFeeRate_spec {args : FlashFeeRateArgs}
    (h : tryStrategistLowerFlashFeeRate rt w accounts args = .ok w') :
    ∃ key action, w.actions key = some action ∧
      rateStrictlyLower args.feeNum args.feeDen action.feeNum action.feeDen = true ∧
      w' = w.setAction key (some { action with feeNum := args.feeNum, feeDen := args.feeDen }) := by
  obtain ⟨key, action, num, den, haction, hup, rfl⟩ := updateActionFlashFee_spec h
  simp only [bind_eq_ok, rejectIf_eq_ok, Except.ok.injEq, Prod.mk.injEq, exists_const,
    Bool.not_eq_false] at hup
  obtain ⟨hlower, rfl, rfl⟩ := hup
  exact ⟨key, action, haction, hlower, rfl⟩

/-- The admin's two ways of storing a rate take any rate. -/
theorem tryAdminSetFlashFeeRate_spec {args : FlashFeeRateArgs}
    (h : tryAdminSetFlashFeeRate rt w accounts args = .ok w') :
    ∃ key action, w.actions key = some action ∧
      w' = w.setAction key (some { action with feeNum := args.feeNum, feeDen := args.feeDen }) := by
  obtain ⟨key, action, num, den, haction, hup, rfl⟩ := updateActionFlashFee_spec h
  cases hup
  exact ⟨key, action, haction, rfl⟩

theorem tryAuthorizeAction_spec {args : AuthorizeActionArgs}
    (h : tryAuthorizeAction rt w accounts args = .ok w') :
    ∃ key bump, w' = w.setAction key (some
      { vault := w.vaultKey, actionHash := args.actionHash, ops := args.ops
        feeNum := args.feeNum, feeDen := args.feeDen, scope := args.scope
        amountOffset := args.amountOffset, bump }) := by
  simp only [tryAuthorizeAction, bind_eq_ok, Prod.exists, Except.ok.injEq] at h
  obtain ⟨action, bump, -, _, -, _, -, _, -, rfl⟩ := h
  exact ⟨action.key, bump, rfl⟩

theorem tryRevokeAction_spec {actionHash : Bytes 32}
    (h : tryRevokeAction rt w accounts actionHash = .ok w') :
    ∃ key, w' = w.setAction key none := by
  simp only [tryRevokeAction, bind_eq_ok, Prod.exists, Except.ok.injEq] at h
  obtain ⟨_, _, -, _, -, _, _, -, action, _, -, _, -, _, -, _, -, _, -, _, -, rfl⟩ := h
  exact ⟨action.key, rfl⟩

end Roshi
