import Roshi.Relay.Route

/-!
# Managing positions

`execution/manage.rs`, `execution/manage_batch.rs` and the settlement in
`execution/shared.rs`: the strategist relays authorized CPIs signed by a sub-account.

A `Manager` leg scans the writable custodies before the call and checks them again after
it.  Whatever the downstream program did, the call had no privilege its accounts lacked
but the sub-account's signature, and every custody it could write is the sub-account's
own again, with no delegate and no close authority (`relays_keep_custody`).

The program's own records are read from the chain by `records`, so that a leg sees what
earlier legs did to them.
-/

namespace Roshi

open Lib

variable (rt : Runtime) (host : Host) (records : Chain → World)

/-! ### Settlement -/

def SPL_APPROVE_TAG : U8 := 4

namespace AuthorizedCpi

variable (cpi : AuthorizedCpi)

def verifyIsApprove : ProgramResult Unit := do
  rejectIf (isTokenProgram cpi.instruction.programId = false) (.custom .invalidTokenAccount)
  rejectIf (cpi.instruction.data.head? ≠ some SPL_APPROVE_TAG) .invalidInstructionData

/-- The approve's source is its first account. -/
def approveSource : ProgramResult AccountInfo := okOr cpi.accountInfos.head? .notEnoughAccountKeys

def verifyFlashDelegate (chain : Chain) (expectedAmount : U64) : ProgramResult Unit := do
  let source ← cpi.approveSource
  (chain source.key).verifyFlashDelegate cpi.subAccountKey expectedAmount

end AuthorizedCpi

/-- The sibling ops of a flash approval: where each amount starts, and which account is
tied. -/
structure SiblingOps where
  instructions : List (I8 × Nat)
  accounts : List (I8 × Nat)

def collectSiblingOp (found : SiblingOps) (stored : StoredOp) : ProgramResult SiblingOps := do
  match ← decodeOp stored with
  | .ingestSiblingInstruction relativeIndex offset len =>
    .ok { found with
      instructions := found.instructions ++ [(relativeIndex, offset.toNat + len.toNat)] }
  | .ingestSiblingAccount relativeIndex index =>
    .ok { found with accounts := found.accounts ++ [(relativeIndex, index.toNat)] }
  | _ => .ok found

/-- What the loop over the siblings has seen: the borrowed amount, and the backstop. -/
structure FlashSeen where
  flashAmount : Option U64
  clearedCheckSeen : Bool

/-- One sibling: its tied account is the source; the program's own is the backstop, the
other one the borrow. -/
def bindSibling (t : Transaction) (source : Pubkey) (accountOps : List (I8 × Nat))
    (seen : FlashSeen) (op : I8 × Nat) : ProgramResult FlashSeen := do
  let (relativeIndex, amountOffset) := op
  let (_, accountIndex) ← okOr (accountOps.find? fun a => a.1 = relativeIndex)
    (.custom .invalidOp)
  let instruction ← (t.getInstructionRelative relativeIndex.toInt).mapError fun _ =>
    .custom .requiredSiblingMissing
  let tied ← okOr instruction.accounts[accountIndex]? (.custom .accountIndexOutOfBounds)
  rejectIf (tied.pubkey ≠ source) (.custom .flashDestinationMismatch)
  if instruction.programId = ID then do
    rejectIf (seen.clearedCheckSeen = true) (.custom .invalidOp)
    .ok { seen with clearedCheckSeen := true }
  else do
    rejectIf (seen.flashAmount.isSome = true) (.custom .invalidOp)
    let bytes ← okOr (getRange instruction.data amountOffset (amountOffset + 8))
      (.custom .instructionSliceOutOfBounds)
    .ok { seen with flashAmount := some (BitVec.ofNat 64 (leNat bytes)) }

def bindFlashSiblings (t : Transaction) (ops : Ops) (cpiAccounts : List AccountInfo)
    (source : Pubkey) : ProgramResult U64 := do
  let found ← (← iterOps ops).foldlM collectSiblingOp ⟨[], []⟩
  rejectIf (found.instructions.length ≠ 2 ∨ found.accounts.length ≠ 2) (.custom .invalidOp)
  let sysvar ← instructionsSysvar t cpiAccounts
  let seen ← found.instructions.foldlM (bindSibling sysvar source found.accounts) ⟨none, false⟩
  match seen.flashAmount, seen.clearedCheckSeen with
  | some amount, true => .ok amount
  | _, _ => .error (.custom .requiredSiblingMissing)

def settleAuthorizedCpi (cpi : AuthorizedCpi) (action : Action) (cpiAccounts : List AccountInfo)
    (chain : Chain) : ProgramResult Chain :=
  match action.scope with
  | .manager => relayScanned host cpi chain
  | .flashApprove => do
    cpi.verifyIsApprove
    let source ← cpi.approveSource
    let flashAmount ← bindFlashSiblings host.transaction action.ops cpiAccounts source.key
    let fee ← into (roundWithMin1 flashAmount action.feeNum action.feeDen)
    let expected ← okOr (checkedAdd flashAmount fee) (.custom .overflow)
    let custody ← cpi.scanSubaccountCustody chain
    let chain ← invokeAuthorizedCpi host cpi chain
    cpi.reverifySubaccountCustodyExcept chain custody (some source.key)
    cpi.verifyFlashDelegate chain expected
    .ok chain
  | .swap => .error (.custom .unauthorizedAction)
  | .atomicRedeem => .error (.custom .unauthorizedAction)
  | .deploy => .error (.custom .unauthorizedAction)

/-! ### The instructions -/

structure ManageArgs where
  subAccount : U8
  accountsStart : U8
  accountFlags : PackedAccountFlags
  ixData : List U8

/-- `VaultSubAccount::verify_account`. -/
def verifySubAccountBytes (chain : Chain) (vaultKey : Pubkey) (index : U8) (a : AccountInfo) :
    ProgramResult U8 := do
  let (expected, bump) := subAccountAddress rt vaultKey index
  rejectIf (a.key ≠ expected) .invalidSeeds
  rejectIf ((chain a.key).owner ≠ SYSTEM_PROGRAM_ID) .illegalOwner
  rejectIf ((chain a.key).data ≠ [] ∨ (chain a.key).executable = true) .invalidAccountData
  .ok bump

/-- Only the strategist relays, and only these two scopes. -/
def verifyActionExecutor (vault : Vault) (executor : AccountInfo) (scope : ActionScope) :
    ProgramResult Unit :=
  match scope with
  | .manager => verifyRole vault .strategist executor
  | .flashApprove => verifyRole vault .strategist executor
  | .swap => .error (.custom .unauthorizedAction)
  | .atomicRedeem => .error (.custom .unauthorizedAction)
  | .deploy => .error (.custom .unauthorizedAction)

def validateManageAccounts (chain : Chain) (executor vaultAcc subAccountAcc actionAcc : AccountInfo)
    (subAccountIndex : U8) : ProgramResult ValidatedManageAccounts := do
  let w := records chain
  let vault ← w.loadChecked rt vaultAcc
  let subAccountBump ← verifySubAccountBytes rt chain vaultAcc.key subAccountIndex subAccountAcc
  let action ← w.loadAction actionAcc
  action.verifyForVault rt vaultAcc.key actionAcc.key
  verifyActionExecutor vault executor action.scope
  vault.verifyManageEnabled
  .ok
    { action
      vaultKey := vaultAcc.key
      subAccountKey := subAccountAcc.key
      subAccountIndex
      subAccountBump }

/-- The accounts every leg of one instruction shares. -/
structure ManageShared where
  executor : AccountInfo
  vault : AccountInfo
  cpiAccounts : List AccountInfo

/-- A leg: its sub-account and action accounts, and its arguments. -/
structure ManageLeg where
  subAccount : AccountInfo
  action : AccountInfo
  args : ManageArgs

def ManageLeg.validate (shared : ManageShared) (leg : ManageLeg) (chain : Chain) :
    ProgramResult ValidatedManageAccounts :=
  validateManageAccounts rt records chain shared.executor shared.vault leg.subAccount leg.action
    leg.args.subAccount

def ManageLeg.authorize (shared : ManageShared) (leg : ManageLeg) (chain : Chain)
    (validated : ValidatedManageAccounts) : ProgramResult AuthorizedCpi :=
  validateAuthorizedCpi rt host chain shared.cpiAccounts validated leg.args.accountsStart
    leg.args.accountFlags leg.args.ixData

/-- Validate, authorize, settle. -/
def runLeg (shared : ManageShared) (chain : Chain) (leg : ManageLeg) : ProgramResult Chain := do
  let validated ← leg.validate rt records shared chain
  let cpi ← leg.authorize rt host shared chain validated
  settleAuthorizedCpi host cpi validated.action shared.cpiAccounts chain

/-- `ManageContext::load`. -/
def loadManage (accounts : List AccountInfo) (args : ManageArgs) :
    ProgramResult (ManageShared × ManageLeg) := do
  let (executor, accounts) ← nextAccount accounts
  let (vault, accounts) ← nextAccount accounts
  let (subAccount, accounts) ← nextAccount accounts
  let (action, cpiAccounts) ← nextAccount accounts
  .ok ({ executor, vault, cpiAccounts }, { subAccount, action, args })

def tryManage (chain : Chain) (accounts : List AccountInfo) (args : ManageArgs) :
    ProgramResult Chain := do
  let (shared, leg) ← loadManage accounts args
  runLeg rt host records shared chain leg

/-- One `(sub-account, action)` pair per leg, then the shared CPI section. -/
def loadLegs : List ManageArgs → List AccountInfo →
    ProgramResult (List ManageLeg × List AccountInfo)
  | [], accounts => .ok ([], accounts)
  | args :: actions, accounts => do
    let (subAccount, accounts) ← nextAccount accounts
    let (action, accounts) ← nextAccount accounts
    let (legs, cpiAccounts) ← loadLegs actions accounts
    .ok ({ subAccount, action, args } :: legs, cpiAccounts)

/-- `ManageBatchContext::load`. -/
def loadManageBatch (accounts : List AccountInfo) (actions : List ManageArgs) :
    ProgramResult (ManageShared × List ManageLeg) := do
  let (executor, accounts) ← nextAccount accounts
  let (vault, accounts) ← nextAccount accounts
  let (legs, cpiAccounts) ← loadLegs actions accounts
  .ok ({ executor, vault, cpiAccounts }, legs)

def tryManageBatch (chain : Chain) (accounts : List AccountInfo) (actions : List ManageArgs) :
    ProgramResult Chain := do
  let (shared, legs) ← loadManageBatch accounts actions
  legs.foldlM (runLeg rt host records shared) chain

/-! ### What a relay leaves behind -/

/-- A call of `cpi` from `before` to `after`: the metas are those of the supplied accounts
and take no privilege from them but the sub-account's signature, and every custody the
call could write was clean and is clean. -/
structure SafeRelay (host : Host) (cpiAccounts : List AccountInfo) (accountsStart : U8)
    (cpi : AuthorizedCpi) (before after : Chain) : Prop where
  invoked : invokeAuthorizedCpi host cpi before = .ok after
  metas : ∀ (i : Nat) (m : AccountMeta), cpi.instruction.accounts[i]? = some m →
    ∃ info, cpi.accountInfos[i]? = some info ∧
      cpiAccounts[accountsStart.toNat + i]? = some info ∧ m.Backed cpi.subAccountKey info
  custody : ∀ m ∈ cpi.instruction.accounts, m.isWritable = true →
    (before m.pubkey).CustodyOf cpi.subAccountKey →
      (before m.pubkey).Clean cpi.subAccountKey ∧ (after m.pubkey).Clean cpi.subAccountKey

variable {rt host records} {cpiAccounts : List AccountInfo} {validated : ValidatedManageAccounts}
  {accountsStart : U8} {accountFlags : PackedAccountFlags} {ixData : List U8}
  {cpi : AuthorizedCpi} {chain before after : Chain}

/-- The metas of a validated CPI are backed by the accounts supplied for them. -/
theorem validateAuthorizedCpi_backed
    (h : validateAuthorizedCpi rt host chain cpiAccounts validated accountsStart accountFlags ixData
      = .ok cpi) {i : Nat} {m : AccountMeta} (hm : cpi.instruction.accounts[i]? = some m) :
    ∃ info, cpi.accountInfos[i]? = some info ∧
      cpiAccounts[accountsStart.toNat + i]? = some info ∧ m.Backed cpi.subAccountKey info := by
  obtain ⟨-, metaAccounts, programAcc, siblings, hb⟩ := validateAuthorizedCpi_spec h
  obtain ⟨hi, rfl⟩ := List.getElem?_eq_some_iff.mp hm
  have hi' : i < metaAccounts.length := hb.metas.length_eq ▸ hi
  refine ⟨metaAccounts[i], ?_, ?_, ?_⟩
  · rw [hb.accountInfos, List.getElem?_append_left hi', List.getElem?_eq_getElem hi']
  · rw [← List.getElem?_drop, ← List.getElem?_take_of_lt hi', ← hb.metaAccounts_eq,
      List.getElem?_eq_getElem hi']
  · rw [hb.subAccountKey]
    exact hb.metas.get hi hi'

/-- **Scan, call, re-check** is safe, whatever the call does. -/
theorem relayScanned_safe
    (h : validateAuthorizedCpi rt host chain cpiAccounts validated accountsStart accountFlags ixData
      = .ok cpi) (hrun : relayScanned host cpi before = .ok after) :
    SafeRelay host cpiAccounts accountsStart cpi before after := by
  simp only [relayScanned, bind_eq_ok, Except.ok.injEq] at hrun
  obtain ⟨keys, hscan, _, hinvoke, _, hcheck, rfl⟩ := hrun
  refine ⟨hinvoke, fun i m hm => validateAuthorizedCpi_backed h hm, ?_⟩
  obtain ⟨-, metaAccounts, programAcc, siblings, hb⟩ := validateAuthorizedCpi_spec h
  intro m hm hw hc
  obtain ⟨hclean, hmem⟩ := scan_spec hb hscan hm hw hc
  exact ⟨hclean, reverify_spec hcheck _ hmem (by simp)⟩

/-- **A `Manager` leg is safe.** -/
theorem runLeg_safe {shared : ManageShared} {leg : ManageLeg}
    (h : runLeg rt host records shared before leg = .ok after)
    (hv : leg.validate rt records shared before = .ok validated)
    (hscope : validated.action.scope = .manager) :
    ∃ cpi, leg.authorize rt host shared before validated = .ok cpi ∧
      SafeRelay host shared.cpiAccounts leg.args.accountsStart cpi before after := by
  rw [runLeg, hv, ok_bind, bind_eq_ok] at h
  obtain ⟨cpi, hcpi, hsettle⟩ := h
  rw [settleAuthorizedCpi, hscope] at hsettle
  exact ⟨cpi, hcpi, relayScanned_safe hcpi hsettle⟩

/-- **No relay escalates privilege or leaves control over custody behind.**  For any
downstream effect: a `Manager` leg of `Manage`, every `Manager` leg of `ManageBatch`, and
the relay of `DepositAndDeploy`. -/
theorem relays_keep_custody (rt : Runtime) (host : Host) (records : Chain → World) :
    (∀ before after accounts args shared leg validated,
      tryManage rt host records before accounts args = .ok after →
      loadManage accounts args = .ok (shared, leg) →
      leg.validate rt records shared before = .ok validated →
      validated.action.scope = .manager →
      ∃ cpi, leg.authorize rt host shared before validated = .ok cpi ∧
        SafeRelay host shared.cpiAccounts args.accountsStart cpi before after) ∧
    (∀ before after accounts actions shared legs,
      tryManageBatch rt host records before accounts actions = .ok after →
      loadManageBatch accounts actions = .ok (shared, legs) →
      ∃ tr, Run (fun c leg c' => runLeg rt host records shared c leg = .ok c') before tr after ∧
        tr.map Transition.event = legs ∧
        ∀ x ∈ tr, ∀ validated, x.event.validate rt records shared x.pre = .ok validated →
          validated.action.scope = .manager →
          ∃ cpi, x.event.authorize rt host shared x.pre validated = .ok cpi ∧
            SafeRelay host shared.cpiAccounts x.event.args.accountsStart cpi x.pre x.post) ∧
    (∀ d w', DeployCall.run rt d = .ok w' →
      ∃ c cpi before after, Deployed rt d.host d.bytes d.world w' d.accounts d.args c cpi before
          after ∧
        SafeRelay d.host c.cpiAccounts d.args.accountsStart cpi before after) := by
  refine ⟨?_, ?_, ?_⟩
  · intro before after accounts args shared leg validated h hload hv hscope
    have hargs : leg.args = args := by
      simp only [loadManage, bind_eq_ok, Prod.exists, Except.ok.injEq, Prod.mk.injEq] at hload
      obtain ⟨_, _, -, _, _, -, _, _, -, _, _, -, -, rfl⟩ := hload
      rfl
    rw [tryManage, hload, ok_bind] at h
    obtain ⟨cpi, hcpi, hsafe⟩ := runLeg_safe h hv hscope
    rw [hargs] at hsafe
    exact ⟨cpi, hcpi, hsafe⟩
  · intro before after accounts actions shared legs h hload
    rw [tryManageBatch, hload, ok_bind] at h
    obtain ⟨tr, hrun, htr⟩ := run_of_foldlM h
    refine ⟨tr, hrun, htr, ?_⟩
    intro x hx validated hv hscope
    obtain ⟨pre, post, rfl⟩ := List.append_of_mem hx
    obtain ⟨-, hstep, -⟩ := hrun.split
    exact runLeg_safe hstep hv hscope
  · intro d w' h
    obtain ⟨c, cpi, before, after, hd⟩ := tryDepositAndDeploy_deployed h
    refine ⟨c, cpi, before, after, hd, ?_⟩
    have hauth := hd.authorized
    simp only [authorizeDeploy, bind_eq_ok, Except.ok.injEq] at hauth
    obtain ⟨_, hvalid, _, -, rfl⟩ := hauth
    exact relayScanned_safe hvalid hd.relayed

namespace Sample

/-- A route that leaves seven atoms in custody. -/
def creditHost : Host where
  transaction := routeHost.transaction
  invoke _ _ _ chain := .ok fun key =>
    if key = custody then ⟨TOKEN_PROGRAM_ID, false, tokenBytes (tokenAccount baseMint subAccount 7)⟩
    else chain key

def managedRecords : Chain → World := fun _ => routeWorld .manager

def managedChain : Chain := ledgerBytes start.ledger

def managedShared : ManageShared where
  executor := signer admin
  vault := readonly vaultKey
  cpiAccounts := [writable custody, readonly routeProgram]

def managedLeg : ManageLeg where
  subAccount := readonly subAccount
  action := readonly routeKey
  args := { subAccount := 0, accountsStart := 0, accountFlags := ⟨1, [2]⟩, ixData := [] }

def manageAccounts : List AccountInfo :=
  [signer admin, readonly vaultKey, readonly subAccount, readonly routeKey, writable custody,
    readonly routeProgram]

def manageBatchAccounts : List AccountInfo :=
  [signer admin, readonly vaultKey, readonly subAccount, readonly routeKey, readonly subAccount,
    readonly routeKey, writable custody, readonly routeProgram]

/-- The sub-account and the action of the route. -/
def managedValidated : ValidatedManageAccounts where
  action := routeAction .manager
  vaultKey := vaultKey
  subAccountKey := subAccount
  subAccountIndex := 0
  subAccountBump := 255

end Sample

theorem relays_keep_custody_credit :
    (∃ after cpi, Sample.managedLeg.authorize Sample.routeRuntime Sample.creditHost
        Sample.managedShared Sample.managedChain Sample.managedValidated = .ok cpi ∧
      SafeRelay Sample.creditHost Sample.managedShared.cpiAccounts 0 cpi Sample.managedChain
        after) ∧
    (∃ after tr, Run (fun c leg c' => runLeg Sample.routeRuntime Sample.creditHost
        Sample.managedRecords Sample.managedShared c leg = .ok c') Sample.managedChain tr after ∧
      tr.map Transition.event = [Sample.managedLeg, Sample.managedLeg]) ∧
    ∃ w' c cpi before after, Deployed Sample.routeRuntime Sample.routeHost Sample.ledgerBytes
        (Sample.routeWorld .deploy) w' (Sample.deployCall 1000000).accounts
        (Sample.deployCall 1000000).args c cpi before after ∧
      SafeRelay Sample.routeHost c.cpiAccounts 0 cpi before after := by
  have hd : (tryManage Sample.routeRuntime Sample.creditHost Sample.managedRecords
        Sample.managedChain Sample.manageAccounts Sample.managedLeg.args).isOk = true ∧
      (tryManageBatch Sample.routeRuntime Sample.creditHost Sample.managedRecords
        Sample.managedChain Sample.manageBatchAccounts
        [Sample.managedLeg.args, Sample.managedLeg.args]).isOk = true ∧
      ((Sample.deployCall 1000000).run Sample.routeRuntime).isOk = true := by
    decide +kernel
  obtain ⟨hmanage, hbatch, hdeploy⟩ := hd
  have hvalid : Sample.managedLeg.validate Sample.routeRuntime Sample.managedRecords
      Sample.managedShared Sample.managedChain = .ok Sample.managedValidated := by
    decide +kernel
  obtain ⟨h1, h2, h3⟩ := relays_keep_custody Sample.routeRuntime Sample.creditHost
    Sample.managedRecords
  refine ⟨⟨_, h1 _ _ _ _ _ _ _ (eq_okValue hmanage) rfl hvalid rfl⟩, ?_, ?_⟩
  · obtain ⟨tr, hrun, htr, -⟩ := h2 _ _ _ _ _ _ (eq_okValue hbatch) rfl
    exact ⟨_, tr, hrun, htr⟩
  · exact ⟨_, h3 (Sample.deployCall 1000000) _ (eq_okValue hdeploy)⟩

end Roshi
