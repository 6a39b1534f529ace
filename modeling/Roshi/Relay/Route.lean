import Roshi.Relay.Cpi
import Roshi.System

/-!
# Public routes

The relays anyone may drive: the unwind of an atomic redeem and the deployment of a
deposit.  The rest of the development treats them as a `Relay`; here they are spelled
out, on bytes, and `executeUnwindCpi_refines` connects the two.

The action hash pins only what its ops ingest.  An unwind must ingest every writable
account, a deployment every account, so no caller can vary where an authorized route
moves value (`public_routes_fixed`).
-/

namespace Roshi

open Lib

variable (rt : Runtime)

/-! ### The unwind -/

/-- Validation of an unwind: the burnt shares are out of its reach, and every writable
account is committed. -/
def authorizeUnwind (host : Host) (chain : Chain) (cpiAccounts : List AccountInfo)
    (validated : ValidatedManageAccounts) (userShareAccountKey : Pubkey) (accountsStart : U8)
    (accountFlags : PackedAccountFlags) (ixData : List U8) : ProgramResult AuthorizedCpi := do
  let cpi ←
    validateAuthorizedCpi rt host chain cpiAccounts validated accountsStart accountFlags ixData
  rejectIf (cpi.hasAccountMeta userShareAccountKey = true) (.custom .unauthorizedAction)
  cpi.requireWritableMetasBound validated.action.ops
  .ok cpi

/-- The arguments of `execute_unwind_cpi` but the action, and what it runs in. -/
structure UnwindCall where
  host : Host
  chain : Chain
  cpiAccounts : List AccountInfo
  vaultKey : Pubkey
  subAccountKey : Pubkey
  subAccountIndex : U8
  subAccountBump : U8
  userShareAccountKey : Pubkey
  custody : AccountInfo
  accountsStart : U8
  accountFlags : PackedAccountFlags
  ixData : List U8

namespace UnwindCall

def authorize (c : UnwindCall) (action : Action) : ProgramResult AuthorizedCpi :=
  authorizeUnwind rt c.host c.chain c.cpiAccounts
    { action
      vaultKey := c.vaultKey
      subAccountKey := c.subAccountKey
      subAccountIndex := c.subAccountIndex
      subAccountBump := c.subAccountBump }
    c.userShareAccountKey c.accountsStart c.accountFlags c.ixData

/-- `execute_unwind_cpi`. -/
def execute (c : UnwindCall) (action : Action) : ProgramResult (U64 × Chain) := do
  let cpi ← c.authorize rt action
  let pre ← (c.chain c.custody.key).tokenAmount
  let chain ← invokeAuthorizedCpi c.host cpi c.chain
  (chain c.custody.key).verifyCustodyAccount c.subAccountKey
  let post ← (chain c.custody.key).tokenAmount
  let received ← okOr (checkedSub post pre) (.custom .overflow)
  .ok (received, chain)

def authorized (c : UnwindCall) (action : Action) : ProgramResult Unit := do
  let _ ← c.authorize rt action
  .ok ()

/-- The token ledger after the call. -/
def unwound (c : UnwindCall) (action : Action) : ProgramResult Ledger := do
  let cpi ← c.authorize rt action
  let chain ← invokeAuthorizedCpi c.host cpi c.chain
  .ok chain.ledger

/-- The same as a relay of the token ledger, for a called program that is not the vault's. -/
def relay (c : UnwindCall) (action : Action) : Relay :=
  .other (c.authorized rt action) fun _ => c.unwound rt action

end UnwindCall

variable {rt}

/-- **The unwind on bytes is the unwind on the ledger**: in a world with the ledger of its chain,
the relay it makes runs to the same result. -/
theorem executeUnwindCpi_refines (c : UnwindCall) (action : Action) (w : World)
    (hw : w.ledger = c.chain.ledger) :
    executeUnwindCpi w c.custody c.subAccountKey (c.relay rt action) =
      (c.execute rt action).map fun r => (r.1, { w with ledger := r.2.ledger }) := by
  unfold executeUnwindCpi UnwindCall.execute UnwindCall.relay UnwindCall.authorized
    UnwindCall.unwound Relay.other
  rw [hw]
  cases hcpi : c.authorize rt action with
  | error e => rfl
  | ok cpi =>
    simp only [ok_bind, Chain.ledger_tokenAmount]
    cases hpre : (c.chain c.custody.key).tokenAmount with
    | error e => rfl
    | ok pre =>
      simp only [ok_bind]
      cases hrun : invokeAuthorizedCpi c.host cpi c.chain with
      | error e => rfl
      | ok chain =>
        simp only [ok_bind, Chain.ledger_verifyCustodyAccount, Chain.ledger_tokenAmount]
        cases hclean : (chain c.custody.key).verifyCustodyAccount c.subAccountKey with
        | error e => rfl
        | ok _ =>
          simp only [ok_bind]
          cases hpost : (chain c.custody.key).tokenAmount with
          | error e => rfl
          | ok post =>
            simp only [ok_bind]
            cases okOr (checkedSub post pre) (ProgramError.custom .overflow) <;> rfl

/-! ### The deployment -/

variable (rt)

structure DepositAndDeployContext where
  deposit : DepositContext
  validated : ValidatedManageAccounts
  cpiAccounts : List AccountInfo

/-- `DepositAndDeployContext::load`. -/
def DepositAndDeployContext.load (w : World) (accounts : List AccountInfo) :
    ProgramResult DepositAndDeployContext := do
  rejectIf (accounts.length < 8) .notEnoughAccountKeys
  let deposit ← DepositContext.load rt w (accounts.take 8)
  let (subAccount, remaining) ← nextAccount (accounts.drop 8)
  let (actionAccount, cpiAccounts) ← nextAccount remaining
  let subAccountIndex := deposit.vault.depositSubAccount
  let subAccountBump ← w.verifySubAccount rt subAccountIndex subAccount
  w.ledger.verifyTokenAccountMintAndOwner deposit.custody deposit.vault.baseMint subAccount.key
  w.ledger.verifyCustodyAccount deposit.custody subAccount.key
  let action ← w.loadAction actionAccount
  action.verifyForVault rt deposit.vaultAccount.key actionAccount.key
  .ok
    { deposit
      validated :=
        { action
          vaultKey := deposit.vaultAccount.key
          subAccountKey := subAccount.key
          subAccountIndex
          subAccountBump }
      cpiAccounts }

/-- The arguments that select the CPI, beside those of the deposit. -/
structure DeployArgs extends DepositAndDeployArgs where
  accountsStart : U8
  accountFlags : PackedAccountFlags

/-- Validation of a deployment: every account is committed. -/
def authorizeDeploy (host : Host) (chain : Chain) (c : DepositAndDeployContext)
    (args : DeployArgs) : ProgramResult AuthorizedCpi := do
  let cpi ← validateAuthorizedCpi rt host chain c.cpiAccounts c.validated args.accountsStart
    args.accountFlags args.ixData
  cpi.requireAllMetasBound c.validated.action.ops
  .ok cpi

/-- Scan, call, re-check: what `Manager` legs and deployments do around their CPI. -/
def relayScanned (host : Host) (cpi : AuthorizedCpi) (chain : Chain) : ProgramResult Chain := do
  let custody ← cpi.scanSubaccountCustody chain
  let chain ← invokeAuthorizedCpi host cpi chain
  cpi.reverifySubaccountCustody chain custody
  .ok chain

def deployAuthorized (host : Host) (bytes : Ledger → Chain) (w : World)
    (accounts : List AccountInfo) (args : DeployArgs) : ProgramResult Unit := do
  let c ← DepositAndDeployContext.load rt w accounts
  let _ ← authorizeDeploy rt host (bytes w.ledger) c args
  .ok ()

/-- The token ledger after the call.  `bytes` gives the accounts behind a ledger: the tokens
have moved in between, the rest of the accounts have not. -/
def deployed (host : Host) (bytes : Ledger → Chain) (w : World) (accounts : List AccountInfo)
    (args : DeployArgs) (ledger : Ledger) : ProgramResult Ledger := do
  let c ← DepositAndDeployContext.load rt w accounts
  let cpi ← authorizeDeploy rt host (bytes w.ledger) c args
  let chain ← relayScanned host cpi (bytes ledger)
  .ok chain.ledger

/-- A deployment as a relay, for a called program that is not the vault's. -/
def deployRelay (host : Host) (bytes : Ledger → Chain) (w : World) (accounts : List AccountInfo)
    (args : DeployArgs) : Relay :=
  .other (deployAuthorized rt host bytes w accounts args) (deployed rt host bytes w accounts args)

variable {rt} {host : Host} {bytes : Ledger → Chain} {w w' : World} {accounts : List AccountInfo}
  {args : DeployArgs}

/-- **An accepted deployment**: the loaded context, the CPI, the deposit, the call. -/
structure Deployed (rt : Runtime) (host : Host) (bytes : Ledger → Chain) (w w' : World)
    (accounts : List AccountInfo) (args : DeployArgs) (c : DepositAndDeployContext)
    (cpi : AuthorizedCpi) (before after : Chain) : Prop where
  load : DepositAndDeployContext.load rt w accounts = .ok c
  scope : c.validated.action.scope = .deploy
  amount : decodeWithdrawalAmount args.ixData c.validated.action = .ok args.amount
  authorized : authorizeDeploy rt host (bytes w.ledger) c args = .ok cpi
  deposited : ∃ w₁, executeDeposit rt w c.deposit
    { assetMint := c.deposit.vault.baseMint
      amount := args.amount
      minSharesOut := args.minSharesOut
      accessProof := args.accessProof } = .ok w₁ ∧ before = bytes w₁.ledger ∧
    w' = { w₁ with ledger := after.ledger }
  relayed : relayScanned host cpi before = .ok after

theorem tryDepositAndDeploy_deployed
    (h : tryDepositAndDeploy rt w accounts args.toDepositAndDeployArgs
      (deployRelay rt host bytes w accounts args) = .ok w') :
    ∃ c cpi before after, Deployed rt host bytes w w' accounts args c cpi before after := by
  revert h
  simp only [tryDepositAndDeploy, bind_ok_imp, Prod.forall, rejectIf_eq_ok, not_not]
  rintro _ - _ hlen deposit hdeposit subAccount remaining hsub actionAccount cpiAccounts haction
    bump hbump _ hmint _ hclean action hload _ hverify _ hscope amount hamount _ hmatch _ hauth
    w₁ hw₁ hrun
  have hcontext : DepositAndDeployContext.load rt w accounts = .ok
      { deposit
        validated :=
          { action
            vaultKey := deposit.vaultAccount.key
            subAccountKey := subAccount.key
            subAccountIndex := deposit.vault.depositSubAccount
            subAccountBump := bump }
        cpiAccounts } := by
    simp only [DepositAndDeployContext.load, rejectIf_of_not hlen, hdeposit, hsub, haction, hbump,
      hmint, hclean, hload, hverify, ok_bind]
  simp only [deployRelay, deployAuthorized, deployed, Relay.other, hcontext, ok_bind, bind_eq_ok,
    Except.ok.injEq] at hauth hrun
  obtain ⟨cpi, hcpi, -⟩ := hauth
  obtain ⟨_, ⟨cpi', hcpi', after, hafter, rfl⟩, rfl⟩ := hrun
  obtain rfl : cpi = cpi' := Except.ok.inj (hcpi.symm.trans hcpi')
  exact ⟨_, cpi, bytes w₁.ledger, after, hcontext, hscope, hmatch ▸ hamount, hcpi,
    ⟨w₁, hw₁, rfl, rfl⟩, hafter⟩

/-! ### Two executions of one action -/

/-- What was hashed on the two sides are not different bytes of one digest. -/
def NoCollision (rt : Runtime) (x y : ProgramResult (List U8)) : Prop :=
  ∀ b b', x = .ok b → y = .ok b' → rt.hashv [b] = rt.hashv [b'] → b = b'

/-- The bytes a relay hashes. -/
def AuthorizedCpi.hashed (cpi : AuthorizedCpi) (host : Host) (cpiAccounts : List AccountInfo)
    (ops : Ops) : ProgramResult (List U8) := do
  let siblings ← loadRequiredSiblings host.transaction ops cpiAccounts
  (cpi.call ops siblings).preimage.mapError actionHashErrorToProgramError

/-- **Two relays of one action agree** in all the action commits. -/
theorem validateAuthorizedCpi_agree {host host' : Host} {chain chain' : Chain}
    {infos infos' : List AccountInfo} {v v' : ValidatedManageAccounts} {start start' : U8}
    {flags flags' : PackedAccountFlags} {data data' : List U8} {cpi cpi' : AuthorizedCpi}
    (h : validateAuthorizedCpi rt host chain infos v start flags data = .ok cpi)
    (h' : validateAuthorizedCpi rt host' chain' infos' v' start' flags' data' = .ok cpi')
    (hact : v'.action = v.action)
    (hcol : NoCollision rt (cpi.hashed host infos v.action.ops)
      (cpi'.hashed host' infos' v.action.ops)) :
    ∃ siblings siblings',
      (cpi.call v.action.ops siblings).Agree (cpi'.call v.action.ops siblings') := by
  obtain ⟨-, _, _, siblings, hb⟩ := validateAuthorizedCpi_spec h
  obtain ⟨-, _, _, siblings', hb'⟩ := validateAuthorizedCpi_spec h'
  have hhash := hb'.hash
  have hload := hb'.siblings_eq
  rw [hact] at hhash hload
  obtain ⟨b, hpre, hd⟩ := ActionCall.hash_eq_ok.mp hb.hash
  obtain ⟨b', hpre', hd'⟩ := ActionCall.hash_eq_ok.mp hhash
  have hx : cpi.hashed host infos v.action.ops = .ok b := by
    rw [AuthorizedCpi.hashed, hb.siblings_eq, ok_bind, hpre]
    rfl
  have hy : cpi'.hashed host' infos' v.action.ops = .ok b' := by
    rw [AuthorizedCpi.hashed, hload, ok_bind, hpre']
    rfl
  obtain rfl := hcol b b' hx hy (hd.trans hd'.symm)
  exact ⟨siblings, siblings', ActionCall.preimage_inj hpre hpre'⟩

/-- The same program, and every meta writable on either side the same on both. -/
structure SameRoute (cpi cpi' : AuthorizedCpi) : Prop where
  program : cpi.instruction.programId = cpi'.instruction.programId
  left : ∀ (i : Nat) (m : AccountMeta), cpi.instruction.accounts[i]? = some m →
    m.isWritable = true → cpi'.instruction.accounts[i]? = some m
  right : ∀ (i : Nat) (m : AccountMeta), cpi'.instruction.accounts[i]? = some m →
    m.isWritable = true → cpi.instruction.accounts[i]? = some m

/-- A committed meta of one call is a meta of the other. -/
theorem ActionCall.Agree.getElem? {c c' : ActionCall} (h : c.Agree c') {i : Nat} {m : AccountMeta}
    (hi : ingestsAccount c.ops i = .ok true) (hm : c.accounts[i]? = some m) :
    c'.accounts[i]? = some m := by
  obtain ⟨m₀, h₀, h₀'⟩ := h.accounts_eq hi
  rw [Option.some.inj (hm.symm.trans h₀)]
  exact h₀'

theorem ActionCall.Agree.getElem?_symm {c c' : ActionCall} (h : c.Agree c') {i : Nat}
    {m : AccountMeta} (hi : ingestsAccount c.ops i = .ok true) (hm : c'.accounts[i]? = some m) :
    c.accounts[i]? = some m := by
  obtain ⟨m₀, h₀, h₀'⟩ := h.accounts_eq hi
  rw [Option.some.inj (hm.symm.trans h₀')]
  exact h₀

/-- The bytes an unwind hashes. -/
def UnwindCall.hashed (rt : Runtime) (c : UnwindCall) (action : Action) :
    ProgramResult (List U8) := do
  let cpi ← c.authorize rt action
  cpi.hashed c.host c.cpiAccounts action.ops

/-- **Unwinds of one action** run the same program on the same writable accounts. -/
theorem unwind_sameRoute {action : Action} {c c' : UnwindCall} {r r' : U64 × Chain}
    (h : c.execute rt action = .ok r) (h' : c'.execute rt action = .ok r')
    (hcol : NoCollision rt (c.hashed rt action) (c'.hashed rt action)) :
    ∃ cpi cpi', c.authorize rt action = .ok cpi ∧ c'.authorize rt action = .ok cpi' ∧
      SameRoute cpi cpi' := by
  simp only [UnwindCall.execute, bind_eq_ok] at h h'
  obtain ⟨cpi, hcpi, -⟩ := h
  obtain ⟨cpi', hcpi', -⟩ := h'
  refine ⟨cpi, cpi', hcpi, hcpi', ?_⟩
  rw [UnwindCall.hashed, UnwindCall.hashed, hcpi, hcpi', ok_bind, ok_bind] at hcol
  simp only [UnwindCall.authorize, authorizeUnwind, bind_eq_ok, Except.ok.injEq] at hcpi hcpi'
  obtain ⟨_, hvalid, _, -, _, hbound, rfl⟩ := hcpi
  obtain ⟨_, hvalid', _, -, _, hbound', rfl⟩ := hcpi'
  obtain ⟨siblings, siblings', hagree⟩ := validateAuthorizedCpi_agree hvalid hvalid' rfl hcol
  refine ⟨hagree.program, ?_, ?_⟩
  · intro i m hm hw
    exact hagree.getElem? (requireWritableMetasBound_spec hbound hm hw) hm
  · intro i m hm hw
    exact hagree.getElem?_symm (requireWritableMetasBound_spec hbound' hm hw) hm

/-- One `DepositAndDeploy`, and what it runs in. -/
structure DeployCall where
  host : Host
  bytes : Ledger → Chain
  world : World
  accounts : List AccountInfo
  args : DeployArgs

namespace DeployCall

variable (rt)

def run (d : DeployCall) : ProgramResult World :=
  tryDepositAndDeploy rt d.world d.accounts d.args.toDepositAndDeployArgs
    (deployRelay rt d.host d.bytes d.world d.accounts d.args)

/-- The action it loads. -/
def Loads (d : DeployCall) (action : Action) : Prop :=
  ∃ c, DepositAndDeployContext.load rt d.world d.accounts = .ok c ∧ c.validated.action = action

/-- The CPI it authorizes. -/
def authorize (d : DeployCall) : ProgramResult AuthorizedCpi := do
  let c ← DepositAndDeployContext.load rt d.world d.accounts
  authorizeDeploy rt d.host (d.bytes d.world.ledger) c d.args

/-- The bytes it hashes. -/
def hashed (d : DeployCall) : ProgramResult (List U8) := do
  let c ← DepositAndDeployContext.load rt d.world d.accounts
  let cpi ← authorizeDeploy rt d.host (d.bytes d.world.ledger) c d.args
  cpi.hashed d.host c.cpiAccounts c.validated.action.ops

end DeployCall

/-- **Deployments of one action** make the same call, for the amount deposited. -/
theorem deploy_sameCall {action : Action} {d d' : DeployCall} {w₁ w₂ : World}
    (hload : d.Loads rt action) (hload' : d'.Loads rt action)
    (h : d.run rt = .ok w₁) (h' : d'.run rt = .ok w₂)
    (hcol : NoCollision rt (d.hashed rt) (d'.hashed rt)) :
    ∃ cpi cpi', d.authorize rt = .ok cpi ∧ d'.authorize rt = .ok cpi' ∧
      cpi.instruction.programId = cpi'.instruction.programId ∧
      cpi.instruction.accounts = cpi'.instruction.accounts ∧
      decodeWithdrawalAmount cpi.instruction.data action = .ok d.args.amount ∧
      decodeWithdrawalAmount cpi'.instruction.data action = .ok d'.args.amount := by
  obtain ⟨c, cpi, _, _, hd⟩ := tryDepositAndDeploy_deployed h
  obtain ⟨c', cpi', _, _, hd'⟩ := tryDepositAndDeploy_deployed h'
  obtain ⟨c₀, hc₀, hact⟩ := hload
  obtain ⟨c₀', hc₀', hact'⟩ := hload'
  obtain rfl : c₀ = c := Except.ok.inj (hc₀.symm.trans hd.load)
  obtain rfl : c₀' = c' := Except.ok.inj (hc₀'.symm.trans hd'.load)
  have hcpi : d.authorize rt = .ok cpi := by
    rw [DeployCall.authorize, hc₀]
    exact hd.authorized
  have hcpi' : d'.authorize rt = .ok cpi' := by
    rw [DeployCall.authorize, hc₀']
    exact hd'.authorized
  rw [DeployCall.hashed, DeployCall.hashed, hc₀, hc₀', ok_bind, ok_bind, hd.authorized,
    hd'.authorized, ok_bind, ok_bind, hact'.trans hact.symm] at hcol
  have hauth := hd.authorized
  have hauth' := hd'.authorized
  simp only [authorizeDeploy, bind_eq_ok, Except.ok.injEq] at hauth hauth'
  obtain ⟨_, hvalid, _, hbound, rfl⟩ := hauth
  obtain ⟨_, hvalid', _, hbound', rfl⟩ := hauth'
  obtain ⟨siblings, siblings', hagree⟩ :=
    validateAuthorizedCpi_agree hvalid hvalid' (hact'.trans hact.symm) hcol
  obtain ⟨hdata, -⟩ := validateAuthorizedCpi_spec hvalid
  obtain ⟨hdata', -⟩ := validateAuthorizedCpi_spec hvalid'
  rw [hact'.trans hact.symm] at hbound'
  have hamount := hd.amount
  have hamount' := hd'.amount
  rw [hact] at hamount
  rw [hact'] at hamount'
  refine ⟨_, _, hcpi, hcpi', hagree.program, ?_, by rw [hdata]; exact hamount,
    by rw [hdata']; exact hamount'⟩
  refine List.ext_getElem? fun i => Option.ext fun m => ⟨?_, ?_⟩
  · intro hm
    have hlt := (List.getElem?_eq_some_iff.mp hm).1
    exact hagree.getElem? (requireAllMetasBound_spec hbound hlt) hm
  · intro hm
    have hlt := (List.getElem?_eq_some_iff.mp hm).1
    exact hagree.getElem?_symm (requireAllMetasBound_spec hbound' hlt) hm

/-- **Public callers cannot vary an authorized route.**  Without a collision between the two
preimages, two accepted unwinds of one action run the same program and agree in every
meta writable on either side, and two accepted deployments of one action make the same
call, metas and all, each for the amount it deposited. -/
theorem public_routes_fixed (rt : Runtime) (action : Action) :
    (action.scope = .atomicRedeem → ∀ (c c' : UnwindCall) (r r' : U64 × Chain),
      c.execute rt action = .ok r → c'.execute rt action = .ok r' →
      NoCollision rt (c.hashed rt action) (c'.hashed rt action) →
      ∃ cpi cpi', c.authorize rt action = .ok cpi ∧ c'.authorize rt action = .ok cpi' ∧
        SameRoute cpi cpi') ∧
    (action.scope = .deploy → ∀ (d d' : DeployCall) (w₁ w₂ : World),
      d.Loads rt action → d'.Loads rt action → d.run rt = .ok w₁ → d'.run rt = .ok w₂ →
      NoCollision rt (d.hashed rt) (d'.hashed rt) →
      ∃ cpi cpi', d.authorize rt = .ok cpi ∧ d'.authorize rt = .ok cpi' ∧
        cpi.instruction.programId = cpi'.instruction.programId ∧
        cpi.instruction.accounts = cpi'.instruction.accounts ∧
        decodeWithdrawalAmount cpi.instruction.data action = .ok d.args.amount ∧
        decodeWithdrawalAmount cpi'.instruction.data action = .ok d'.args.amount) := by
  refine ⟨?_, ?_⟩
  · intro _ c c' r r' h h' hcol
    exact unwind_sameRoute h h' hcol
  · intro _ d d' w₁ w₂ hload hload' h h' hcol
    exact deploy_sameCall hload hload' h h' hcol

/-! ### A route on the small chain -/

namespace Sample

/-- The downstream program. -/
def routeProgram : Pubkey := Vector.replicate 32 8

def optionalKeyBytes : Option Pubkey → List U8
  | some key => [1, 0, 0, 0] ++ key.toList
  | none => List.replicate 36 0

/-- A token account in its layout. -/
def tokenBytes (a : TokenAccount) : List U8 :=
  a.mint.toList ++ a.owner.toList ++ toLeBytes 8 a.amount ++ optionalKeyBytes a.delegate ++
    [a.state] ++ List.replicate 12 0 ++ toLeBytes 8 a.delegatedAmount ++
    optionalKeyBytes a.closeAuthority

/-- A mint in its layout, without a freeze authority. -/
def mintBytes (m : Mint) : List U8 :=
  optionalKeyBytes m.mintAuthority ++ toLeBytes 8 m.supply ++ [m.decimals, flag m.isInitialized] ++
    List.replicate 36 0 ++ m.extensions

/-- The accounts behind a ledger: its token accounts, its mints and the route program. -/
def ledgerBytes (l : Ledger) : Chain := fun key =>
  if key = routeProgram then ⟨SYSTEM_PROGRAM_ID, true, []⟩
  else match l.accounts key, l.mints key with
    | some a, _ => ⟨a.program, false, tokenBytes a⟩
    | none, some m => ⟨m.program, false, mintBytes m⟩
    | none, none => ⟨SYSTEM_PROGRAM_ID, false, []⟩

/-- Commits to the first account of the route. -/
def routeOps : Ops := storedOps [⟨2, 0, 0, 0⟩]

/-- The route into custody: its program, and custody writable. -/
def routeBytes : List U8 := routeProgram.toList ++ [2, 0] ++ custody.toList ++ [0, 1]

/-- The SHA-256 of `routeBytes`. -/
def routeDigest : Bytes 32 :=
  #v[19, 100, 93, 160, 13, 158, 89, 158, 201, 18, 107, 101, 226, 236, 112, 154, 20, 246, 50, 44,
    47, 100, 55, 100, 92, 154, 124, 138, 16, 24, 210, 99]

/-- The PDA of `["action", vaultKey, routeDigest]`, bump 254. -/
def routeKey : Pubkey :=
  #v[1, 209, 214, 15, 31, 3, 188, 216, 161, 120, 162, 78, 198, 180, 244, 66, 94, 52, 171, 152,
    69, 38, 120, 186, 227, 231, 193, 23, 69, 110, 180, 214]

def routeAction (scope : ActionScope) : Action where
  vault := vaultKey
  actionHash := routeDigest
  ops := routeOps
  feeNum := 0
  feeDen := 1
  scope := scope
  amountOffset := 0
  bump := 254

/-- The runtime with the route's address and digest. -/
def routeRuntime : Runtime where
  findProgramAddress seeds program :=
    if seeds = [ACTION_SEED, vaultKey.toList, routeDigest.toList] then (routeKey, 254)
    else runtime.findProgramAddress seeds program
  hashv chunks := if chunks = [routeBytes] then routeDigest else Bytes.zero 32

/-- A transaction of this one instruction, and a route that moves nothing. -/
def routeHost : Host where
  transaction := { instructions := [⟨ID, [], []⟩], current := 0 }
  invoke _ _ _ chain := .ok chain

/-- An unwind, its accounts from `start` on, moving `amount`. -/
def unwindCall (infos : List AccountInfo) (start : U8) (amount : U64) : UnwindCall where
  host := routeHost
  chain := ledgerBytes Sample.start.ledger
  cpiAccounts := infos
  vaultKey := vaultKey
  subAccountKey := subAccount
  subAccountIndex := 0
  subAccountBump := 255
  userShareAccountKey := userShares
  custody := writable custody
  accountsStart := start
  accountFlags := ⟨1, [2]⟩
  ixData := toLeBytes 8 amount

/-- The vault with its share account open and the action authorized. -/
def routeWorld (scope : ActionScope) : World :=
  { start.after runtime (openShares start.ledger) with
    actions := fun key => if key = routeKey then some (routeAction scope) else none }

def deployCall (amount : U64) : DeployCall where
  host := routeHost
  bytes := ledgerBytes
  world := routeWorld .deploy
  accounts :=
    [signer user, writable vaultKey, writable userBase, writable custody, writable userShares,
      writable shareMint, readonly TOKEN_PROGRAM_ID, readonly TOKEN_PROGRAM_ID,
      readonly subAccount, readonly routeKey, writable custody, readonly routeProgram]
  args :=
    { amount
      minSharesOut := 0
      accessProof := []
      ixData := toLeBytes 8 amount
      accountsStart := 0
      accountFlags := ⟨1, [2]⟩ }

/-- Two callers' unwinds: other accounts in front, another amount. -/
def unwindFirst : UnwindCall := unwindCall [writable custody, readonly routeProgram] 0 5

def unwindSecond : UnwindCall :=
  unwindCall [signer user, writable custody, readonly routeProgram] 1 7

end Sample

/-- What is hashed twice is no collision. -/
theorem NoCollision.of_eq {x y : ProgramResult (List U8)} (h : x = y) : NoCollision rt x y := by
  intro b b' hb hb' _
  rw [h, hb'] at hb
  exact (Except.ok.inj hb).symm

theorem public_routes_fixed_custody :
    (∃ cpi cpi', Sample.unwindFirst.authorize Sample.routeRuntime (Sample.routeAction .atomicRedeem)
          = .ok cpi ∧
        Sample.unwindSecond.authorize Sample.routeRuntime (Sample.routeAction .atomicRedeem)
          = .ok cpi' ∧ SameRoute cpi cpi') ∧
      ∃ cpi cpi', (Sample.deployCall 1000000).authorize Sample.routeRuntime = .ok cpi ∧
        (Sample.deployCall 2000000).authorize Sample.routeRuntime = .ok cpi' ∧
        cpi.instruction.programId = cpi'.instruction.programId ∧
        cpi.instruction.accounts = cpi'.instruction.accounts ∧
        decodeWithdrawalAmount cpi.instruction.data (Sample.routeAction .deploy) = .ok 1000000 ∧
        decodeWithdrawalAmount cpi'.instruction.data (Sample.routeAction .deploy)
          = .ok 2000000 := by
  have hd : (Sample.unwindFirst.execute Sample.routeRuntime (Sample.routeAction .atomicRedeem)).isOk
        = true ∧
      (Sample.unwindSecond.execute Sample.routeRuntime (Sample.routeAction .atomicRedeem)).isOk
        = true ∧
      Sample.unwindFirst.hashed Sample.routeRuntime (Sample.routeAction .atomicRedeem) =
        Sample.unwindSecond.hashed Sample.routeRuntime (Sample.routeAction .atomicRedeem) ∧
      ((Sample.deployCall 1000000).run Sample.routeRuntime).isOk = true ∧
      ((Sample.deployCall 2000000).run Sample.routeRuntime).isOk = true ∧
      (Sample.deployCall 1000000).hashed Sample.routeRuntime =
        (Sample.deployCall 2000000).hashed Sample.routeRuntime := by
    decide +kernel
  obtain ⟨hu, hu', huh, hr, hr', hrh⟩ := hd
  have hload : ∀ amount, (Sample.deployCall amount).Loads Sample.routeRuntime
      (Sample.routeAction .deploy) := by
    intro amount
    have hmap : (DepositAndDeployContext.load Sample.routeRuntime (Sample.routeWorld .deploy)
        (Sample.deployCall 0).accounts).map (fun c => c.validated.action) =
        .ok (Sample.routeAction .deploy) := by
      decide +kernel
    exact map_eq_ok.mp hmap
  exact ⟨(public_routes_fixed _ _).1 rfl _ _ _ _ (eq_okValue hu) (eq_okValue hu') (.of_eq huh),
    (public_routes_fixed _ _).2 rfl _ _ _ _ (hload _) (hload _) (eq_okValue hr) (eq_okValue hr')
      (.of_eq hrh)⟩

/-! ### A route into the program itself -/

namespace Sample

/-- What the cancel of `ownCancel` is authorized by: the program, and its writable accounts. -/
def ownCancelBytes : List U8 :=
  ID.toList ++ [2, 0] ++ user.toList ++ [1, 1] ++ [2, 1] ++ vaultKey.toList ++ [0, 1] ++
    [2, 2] ++ ticket.toList ++ [0, 1] ++ [2, 3] ++ shareMint.toList ++ [0, 1] ++
    [2, 4] ++ otherShares.toList ++ [0, 1]

/-- The runtime with the SHA-256 of those bytes. -/
def ownRuntime : Runtime :=
  { runtime with
    hashv := fun chunks => if chunks = [ownCancelBytes] then cancelDigest else Bytes.zero 32 }

/-- The unwind of `ownCancel`. -/
def ownUnwind : UnwindCall :=
  { unwindCall
      [signer user, writable vaultKey, writable ticket, writable shareMint, writable otherShares,
        readonly TOKEN_PROGRAM_ID, readonly ID] 0 0 with
    chain := fun key =>
      if key = ID then ⟨SYSTEM_PROGRAM_ID, true, []⟩ else ledgerBytes cancellable.ledger key
    accountFlags := ⟨6, [171, 2]⟩
    ixData := 9 :: toLeBytes 8 (0 : U64) }

end Sample

-- no check of an unwind asks which program it calls
example : (Sample.ownUnwind.authorize Sample.ownRuntime
    (Sample.ownAction Sample.cancelDigest [0, 1, 2, 3, 4] 1 255)).map
      (fun cpi => decide (cpi.instruction.programId = ID)) = .ok true := by decide +kernel

end Roshi
