import Roshi.Instructions.ProgramConfig
import Roshi.Relay.FlashTransaction
import Roshi.Writes

/-!
# The whole program

`processor.rs`: every instruction, from the chain on which nothing of the program exists.
`Deployment` is the program config and one vault, from before it is initialized;
`tryProcessInstruction` dispatches on the decoded instruction, the relays run on the bytes of
their surroundings.

The transition system of `Roshi.System` has the instructions that write the vault record or its
tickets, and leaves the rest to an environment that respects the share mint.  Here the rest is
spelled out; `Acted` sorts the calls by what they write.

A relayed call is run by the host on the bytes, beside the records.  That follows the calls of
other programs; a call of the program itself writes records too, and what it does there is in
`Roshi.System`.  `ProgramOutward` says that a run makes no such call.
-/

namespace Roshi

open Lib

variable (rt : Runtime)

/-! ### Relays in their surroundings -/

/-- What a relay meets: the transaction and its host, and the accounts behind a ledger. -/
structure Surroundings where
  host : Host
  bytes : Ledger → Chain

namespace Surroundings

variable (o : Surroundings)

/-- No program called holds the mint authority of `mint`, and the accounts show the mint. -/
structure NeverMints (mint : Pubkey) : Prop where
  bytes : ∀ l, Ledger.MintKept mint l (o.bytes l).ledger
  invoke : ∀ i infos seeds c c', o.host.invoke i infos seeds c = .ok c' →
    Ledger.MintKept mint c.ledger c'.ledger

/-- Every call that goes through is one of another program. -/
def Outward : Prop :=
  ∀ i infos seeds c c', o.host.invoke i infos seeds c = .ok c' → i.programId ≠ ID

/-- The unwind of an atomic redeem, its CPI section after the ten fixed accounts. -/
def unwindCall (accounts : List AccountInfo) (args : UnwindArgs) (c : AtomicRedeemContext)
    (ledger : Ledger) : UnwindCall where
  host := o.host
  chain := o.bytes ledger
  cpiAccounts := accounts.drop 10
  vaultKey := c.vaultAccount.key
  subAccountKey := c.subAccount.key
  subAccountIndex := args.subAccount
  subAccountBump := (subAccountAddress rt c.vaultAccount.key args.subAccount).2
  userShareAccountKey := c.userShareAccount.key
  custody := c.custody
  accountsStart := args.accountsStart
  accountFlags := args.accountFlags
  ixData := args.ixData

def unwindAuthorized (w : World) (accounts : List AccountInfo) (args : UnwindArgs) :
    ProgramResult Unit := do
  let c ← AtomicRedeemContext.load rt w accounts args.toAtomicRedeemArgs
  (o.unwindCall rt accounts args c w.ledger).authorized rt c.action

def unwound (w : World) (accounts : List AccountInfo) (args : UnwindArgs) (ledger : Ledger) :
    ProgramResult Ledger := do
  let c ← AtomicRedeemContext.load rt w accounts args.toAtomicRedeemArgs
  (o.unwindCall rt accounts args c ledger).unwound rt c.action

def unwindRelay (w : World) (accounts : List AccountInfo) (args : UnwindArgs) : Relay :=
  .other (o.unwindAuthorized rt w accounts args) (o.unwound rt w accounts args)

end Surroundings

/-- The records beside a chain: other programs cannot write them. -/
def World.beside (w : World) (chain : Chain) : World := { w with ledger := chain.ledger }

/-! ### Deployments -/

/-- The chain of a vault that does not exist. -/
structure Ground where
  occupied : Pubkey → Bool
  ledger : Ledger
  prices : ActiveOracleConfig → List Pubkey → Clock → ProgramResult OraclePrice
  clock : Clock

/-- A vault with the records behind its registered destinations. -/
structure Live where
  world : World
  registrations : Registrations
  destinations_eq : world.destinations = fun key => (registrations key).isSome

/-- The destinations of `w` are those of `r`. -/
def Live.of (w : World) (r : Registrations) : Live where
  world := { w with destinations := fun key => (r key).isSome }
  registrations := r
  destinations_eq := rfl

inductive Stage where
  | unborn (g : Ground)
  | live (l : Live)

/-- The program and the vault. -/
structure Deployment where
  config : Option ProgramConfig
  stage : Stage

namespace Deployment

/-- The program just deployed. -/
def genesis (g : Ground) : Deployment := ⟨none, .unborn g⟩

variable (d : Deployment)

/-- The accounts that exist, token accounts included. -/
def occupied (key : Pubkey) : Bool :=
  match d.stage with
  | .unborn g => g.occupied key || (g.ledger.programOf key).isSome
  | .live l => l.world.initialized key

def ledger : Ledger :=
  match d.stage with
  | .unborn g => g.ledger
  | .live l => l.world.ledger

def clock : Clock :=
  match d.stage with
  | .unborn g => g.clock
  | .live l => l.world.clock

/-- The chain as a vault's initialization finds it. -/
def ground : Genesis where
  programAuthority := d.config.map ProgramConfig.authority
  occupied key := d.occupied key || (d.config.isSome && key == (programConfigAddress rt).1)
  ledger := d.ledger
  prices :=
    match d.stage with
    | .unborn g => g.prices
    | .live l => l.world.prices
  clock := d.clock

/-- With the vault there, its new world; any later one is another vault, and leaves this
one its share mint on the ledger. -/
def born (w : World) : Stage :=
  match d.stage with
  | .unborn _ => .live (.of w fun _ => none)
  | .live l => .live (.of { l.world with ledger := w.ledger } l.registrations)

/-- An instruction over the vault: without one, no account it loads is the program's. -/
def onVault (f : Live → ProgramResult Live) : ProgramResult Deployment :=
  match d.stage with
  | .unborn _ => .error .illegalOwner
  | .live l => (f l).map fun l' => { d with stage := .live l' }

/-- One that writes no registration. -/
def onWorld (f : World → ProgramResult World) : ProgramResult Deployment :=
  d.onVault fun l => (f l.world).map fun w => .of w l.registrations

/-- One that writes registrations only. -/
def onRegistrations (f : World → Registrations → ProgramResult Registrations) :
    ProgramResult Deployment :=
  d.onVault fun l => (f l.world l.registrations).map fun r => .of l.world r

/-- One that relays a call, and writes no record. -/
def onChain (o : Surroundings) (f : (Chain → World) → Chain → ProgramResult Chain) :
    ProgramResult Deployment :=
  d.onWorld fun w => (f w.beside (o.bytes w.ledger)).map w.beside

end Deployment

/-- `try_process_instruction`. -/
def tryProcessInstruction (o : Surroundings) (d : Deployment) (accounts : List AccountInfo) :
    RoshiInstruction → ProgramResult Deployment
  | .initializeProgram authority => do
    let c ← tryInitializeProgram rt d.config d.occupied accounts authority
    .ok { d with config := some c }
  | .initializeVault args _ => do
    let w ← tryInitializeVault rt (d.ground rt) accounts args
    .ok { d with stage := d.born w }
  | .authorizeAction args => d.onWorld fun w => tryAuthorizeAction rt w accounts args
  | .revokeAction actionHash => d.onWorld fun w => tryRevokeAction rt w accounts actionHash
  | .manage args => d.onChain o fun records chain =>
    tryManage rt o.host records chain accounts args
  | .manageBatch actions => d.onChain o fun records chain =>
    tryManageBatch rt o.host records chain accounts actions
  | .atomicRedeem args => d.onWorld fun w =>
    tryAtomicRedeem rt w accounts args.toAtomicRedeemArgs (o.unwindRelay rt w accounts args)
  | .swap args => d.onChain o fun records chain => trySwap rt o.host records chain accounts args
  | .reportNav args => d.onWorld fun w => tryReportNav rt w accounts args
  | .recoverNav args => d.onWorld fun w => tryRecoverNav rt w accounts args
  | .deposit args => d.onWorld fun w => tryDeposit rt w accounts args
  | .depositAndDeploy args => d.onWorld fun w =>
    tryDepositAndDeploy rt w accounts args.toDepositAndDeployArgs
      (deployRelay rt o.host o.bytes w accounts args)
  | .redeem args => d.onWorld fun w => tryRedeem rt w accounts args
  | .cancelRedeem minSharesOut => d.onWorld fun w => tryCancelRedeem rt w accounts minSharesOut
  | .processWithdrawals => d.onWorld fun w => tryProcessWithdrawals rt w accounts
  | .updateVaultConfig args _ => d.onWorld fun w => tryUpdateVaultConfig rt w accounts args
  | .initializeAsset args _ => d.onWorld fun w => tryInitializeAsset rt w accounts args
  | .updateAsset args _ => d.onWorld fun w => tryUpdateAsset rt w accounts args
  | .investExternal subAccount amount => d.onWorld fun w =>
    tryInvestExternal rt w accounts subAccount amount
  | .returnExternal subAccount amount => d.onWorld fun w =>
    tryReturnExternal rt w accounts subAccount amount
  | .setPauseFlags deposits withdrawals manage => d.onWorld fun w =>
    trySetPauseFlags rt w accounts deposits withdrawals manage
  | .setVaultAccess isPrivate root => d.onWorld fun w =>
    trySetVaultAccess rt w accounts isPrivate root
  | .transferProgramAuthority newAuthority => do
    let c ← tryTransferProgramAuthority rt d.config accounts newAuthority
    .ok { d with config := some c }
  | .transferVaultAuthority key => d.onWorld fun w => tryTransferVaultAuthority rt w accounts key
  | .setStrategist key => d.onWorld fun w => trySetStrategist rt w accounts key
  | .setSwapAuthority key => d.onWorld fun w => trySetSwapAuthority rt w accounts key
  | .setNavAuthority key => d.onWorld fun w => trySetNavAuthority rt w accounts key
  | .setWithdrawalAuthority key => d.onWorld fun w => trySetWithdrawalAuthority rt w accounts key
  | .collectFees subAccount amount => d.onWorld fun w =>
    tryCollectFees rt w accounts subAccount amount
  | .writeDownFees amount => d.onWorld fun w => tryWriteDownFees rt w accounts amount
  | .registerExternalDestination => d.onRegistrations fun w r =>
    tryRegisterExternalDestination rt w r accounts
  | .revokeExternalDestination => d.onRegistrations fun w r =>
    tryRevokeExternalDestination rt w r accounts
  | .setShareMetadata args => d.onChain o fun records chain =>
    trySetShareMetadata rt o.host records chain accounts args
  | .assertDelegateCleared => do
    tryAssertDelegateCleared (o.bytes d.ledger) accounts
    .ok d
  | .adminSetFlashFeeRate args => d.onWorld fun w => tryAdminSetFlashFeeRate rt w accounts args
  | .strategistLowerFlashFeeRate args => d.onWorld fun w =>
    tryStrategistLowerFlashFeeRate rt w accounts args

/-- The instructions that call another program than the token and system programs. -/
def RoshiInstruction.relays : RoshiInstruction → Bool
  | .manage _ => true
  | .manageBatch _ => true
  | .atomicRedeem _ => true
  | .swap _ => true
  | .depositAndDeploy _ => true
  | .setShareMetadata _ => true
  | _ => false

/-! ### The transition system -/

/-- A call of the program, a later clock, or a change by everybody else. -/
inductive ProgramEvent where
  | call (i : RoshiInstruction) (accounts : List AccountInfo) (o : Surroundings)
  | tick (clock : Clock)
  | environment (occupied : Pubkey → Bool) (ledger : Ledger)
      (prices : ActiveOracleConfig → List Pubkey → Clock → ProgramResult OraclePrice)

namespace Deployment

def tick (d : Deployment) (clock : Clock) : Deployment :=
  match d.stage with
  | .unborn g => { d with stage := .unborn { g with clock } }
  | .live l => { d with stage := .live (.of { l.world with clock } l.registrations) }

def environment (d : Deployment) (occupied : Pubkey → Bool) (ledger : Ledger)
    (prices : ActiveOracleConfig → List Pubkey → Clock → ProgramResult OraclePrice) :
    Deployment :=
  match d.stage with
  | .unborn g => { d with stage := .unborn { g with occupied, ledger, prices } }
  | .live l => { d with stage := .live (.of { l.world with ledger, prices } l.registrations) }

def apply (d : Deployment) : ProgramEvent → ProgramResult Deployment
  | .call i accounts o => tryProcessInstruction rt o d accounts i
  | .tick clock => .ok (d.tick clock)
  | .environment occupied ledger prices => .ok (d.environment occupied ledger prices)

/-- Once the vault is there, nobody but it mints shares. -/
def Admits (d : Deployment) : ProgramEvent → Prop
  | .call _ _ o => ∀ l, d.stage = .live l → o.NeverMints l.world.vault.shareMint
  | .tick _ => True
  | .environment _ ledger _ => ∀ l, d.stage = .live l →
    Ledger.MintKept l.world.vault.shareMint l.world.ledger ledger

end Deployment

structure ProgramStep (d : Deployment) (e : ProgramEvent) (d' : Deployment) : Prop where
  admits : d.Admits e
  apply_eq : d.apply rt e = .ok d'

/-- What the event relays, if it does, are calls of other programs. -/
def ProgramEvent.Outward : ProgramEvent → Prop
  | .call _ _ o => o.Outward
  | _ => True

/-! ### What a call can do -/

/-- The instructions of the vault system among those of the program. -/
def systemInstruction (o : Surroundings) (w : World) (accounts : List AccountInfo) :
    RoshiInstruction → Option Instruction
  | .deposit args => some (.deposit accounts args)
  | .depositAndDeploy args => some (.depositAndDeploy accounts args.toDepositAndDeployArgs
      (deployAuthorized rt o.host o.bytes w accounts args)
      (.ledger (deployed rt o.host o.bytes w accounts args)))
  | .redeem args => some (.redeem accounts args)
  | .cancelRedeem minSharesOut => some (.cancelRedeem accounts minSharesOut)
  | .processWithdrawals => some (.processWithdrawals accounts)
  | .atomicRedeem args => some (.atomicRedeem accounts args.toAtomicRedeemArgs
      (o.unwindAuthorized rt w accounts args) (.ledger (o.unwound rt w accounts args)))
  | .reportNav args => some (.reportNav accounts args)
  | .recoverNav args => some (.recoverNav accounts args)
  | .collectFees subAccount amount => some (.collectFees accounts subAccount amount)
  | .writeDownFees amount => some (.writeDownFees accounts amount)
  | .investExternal subAccount amount => some (.investExternal accounts subAccount amount)
  | .returnExternal subAccount amount => some (.returnExternal accounts subAccount amount)
  | .updateVaultConfig args _ => some (.updateVaultConfig accounts args)
  | .setPauseFlags deposits withdrawals manage =>
    some (.setPauseFlags accounts deposits withdrawals manage)
  | .setVaultAccess isPrivate root => some (.setVaultAccess accounts isPrivate root)
  | .setStrategist key => some (.setStrategist accounts key)
  | .setSwapAuthority key => some (.setSwapAuthority accounts key)
  | .setNavAuthority key => some (.setNavAuthority accounts key)
  | .setWithdrawalAuthority key => some (.setWithdrawalAuthority accounts key)
  | .transferVaultAuthority key => some (.transferVaultAuthority accounts key)
  | _ => none

/-- The relays that write no record, on the chain they run on. -/
def relayInstruction (o : Surroundings) (w : World) (accounts : List AccountInfo) :
    RoshiInstruction → Option (ProgramResult Chain)
  | .manage args =>
    some (tryManage rt o.host w.beside (o.bytes w.ledger) accounts args)
  | .manageBatch actions =>
    some (tryManageBatch rt o.host w.beside (o.bytes w.ledger) accounts actions)
  | .swap args => some (trySwap rt o.host w.beside (o.bytes w.ledger) accounts args)
  | .setShareMetadata args =>
    some (trySetShareMetadata rt o.host w.beside (o.bytes w.ledger) accounts args)
  | _ => none

/-- The instructions over actions and assets. -/
def tableInstruction (w : World) (accounts : List AccountInfo) :
    RoshiInstruction → Option (ProgramResult World)
  | .authorizeAction args => some (tryAuthorizeAction rt w accounts args)
  | .revokeAction actionHash => some (tryRevokeAction rt w accounts actionHash)
  | .adminSetFlashFeeRate args => some (tryAdminSetFlashFeeRate rt w accounts args)
  | .strategistLowerFlashFeeRate args => some (tryStrategistLowerFlashFeeRate rt w accounts args)
  | .initializeAsset args _ => some (tryInitializeAsset rt w accounts args)
  | .updateAsset args _ => some (tryUpdateAsset rt w accounts args)
  | _ => none

/-- The instructions over destinations. -/
def registrationInstruction (w : World) (r : Registrations) (accounts : List AccountInfo) :
    RoshiInstruction → Option (ProgramResult Registrations)
  | .registerExternalDestination => some (tryRegisterExternalDestination rt w r accounts)
  | .revokeExternalDestination => some (tryRevokeExternalDestination rt w r accounts)
  | _ => none

/-- The instructions over the config, and the one that checks a token account. -/
def RoshiInstruction.vaultless : RoshiInstruction → Bool
  | .initializeProgram _ => true
  | .transferProgramAuthority _ => true
  | .assertDelegateCleared => true
  | _ => false

/-- A successful call over a vault, by what it writes. -/
inductive Acted (o : Surroundings) (accounts : List AccountInfo) (i : RoshiInstruction)
    (l : Live) : Live → Prop
  | system {j : Instruction} {w : World} (hj : systemInstruction rt o l.world accounts i = some j)
      (h : exec rt l.world j = .ok w) : Acted o accounts i l (.of w l.registrations)
  | table {x : ProgramResult World} {w : World}
      (hx : tableInstruction rt l.world accounts i = some x) (h : x = .ok w) :
      Acted o accounts i l (.of w l.registrations)
  | registration {x : ProgramResult Registrations} {r : Registrations}
      (hx : registrationInstruction rt l.world l.registrations accounts i = some x)
      (h : x = .ok r) : Acted o accounts i l (.of l.world r)
  | relay {x : ProgramResult Chain} {chain : Chain}
      (hx : relayInstruction rt o l.world accounts i = some x) (h : x = .ok chain) :
      Acted o accounts i l (.of (l.world.beside chain) l.registrations)

/-- What a step can do to a vault that is there. -/
inductive Moved (d : Deployment) (l : Live) : ProgramEvent → Live → Prop
  | acted {i : RoshiInstruction} {accounts : List AccountInfo} {o : Surroundings} {l' : Live}
      (h : Acted rt o accounts i l l') : Moved d l (.call i accounts o) l'
  | kept {i : RoshiInstruction} {accounts : List AccountInfo} {o : Surroundings}
      (hi : i.vaultless = true) : Moved d l (.call i accounts o) l
  | neighbour {args : InitializeVaultArgs} {padding : ConfigPadding} {accounts : List AccountInfo}
      {o : Surroundings} {w : World}
      (h : tryInitializeVault rt (d.ground rt) accounts args = .ok w) :
      Moved d l (.call (.initializeVault args padding) accounts o)
        (.of { l.world with ledger := w.ledger } l.registrations)
  | tick (clock : Clock) : Moved d l (.tick clock) (.of { l.world with clock } l.registrations)
  | environment (occupied : Pubkey → Bool) (ledger : Ledger)
      (prices : ActiveOracleConfig → List Pubkey → Clock → ProgramResult OraclePrice) :
      Moved d l (.environment occupied ledger prices)
        (.of { l.world with ledger, prices } l.registrations)

def ProgramEvent.accounts : ProgramEvent → List AccountInfo
  | .call _ accounts _ => accounts
  | _ => []

/-- A vault's records before and after a step with `accounts`: one of the writes that need a
signature, or a change beside the records. -/
inductive Change (rt : Runtime) (accounts : List AccountInfo) (l : Live) : Live → Prop
  | books {w : World} (h : Writes rt l.world w accounts) :
      Change rt accounts l (.of w l.registrations)
  | tables {w : World} (h : Tabled rt l.world accounts w) :
      Change rt accounts l (.of w l.registrations)
  | destinations {r : Registrations} (h : Redirected rt l.world l.registrations accounts r) :
      Change rt accounts l (.of l.world r)
  | beside (ledger : Ledger)
      (prices : ActiveOracleConfig → List Pubkey → Clock → ProgramResult OraclePrice)
      (clock : Clock) :
      Change rt accounts l (.of { l.world with ledger, prices, clock } l.registrations)

variable {rt} {o : Surroundings} {d d' : Deployment} {accounts : List AccountInfo}
  {i : RoshiInstruction}

theorem onVault_eq_ok {f : Live → ProgramResult Live} : d.onVault f = .ok d' ↔
    ∃ l l', d.stage = .live l ∧ f l = .ok l' ∧ d' = { d with stage := .live l' } := by
  rw [Deployment.onVault]
  cases d.stage with
  | unborn g => simp
  | live l =>
    simp only [map_eq_ok, Stage.live.injEq, exists_and_left, exists_eq_left']
    constructor
    · rintro ⟨l', hl', rfl⟩
      exact ⟨l', hl', rfl⟩
    · rintro ⟨l', hl', rfl⟩
      exact ⟨l', hl', rfl⟩

theorem onWorld_eq_ok {f : World → ProgramResult World} : d.onWorld f = .ok d' ↔
    ∃ l w, d.stage = .live l ∧ f l.world = .ok w ∧
      d' = { d with stage := .live (.of w l.registrations) } := by
  simp only [Deployment.onWorld, onVault_eq_ok, map_eq_ok]
  constructor
  · rintro ⟨l, _, hl, ⟨w, hw, rfl⟩, rfl⟩
    exact ⟨l, w, hl, hw, rfl⟩
  · rintro ⟨l, w, hl, hw, rfl⟩
    exact ⟨l, _, hl, ⟨w, hw, rfl⟩, rfl⟩

/-- **What a call can do**: create the program config or hand it on, initialize a vault, check a
token account, or act over the vault. -/
theorem tryProcessInstruction_cases (h : tryProcessInstruction rt o d accounts i = .ok d') :
    (∃ authority c, i = .initializeProgram authority ∧
      tryInitializeProgram rt d.config d.occupied accounts authority = .ok c ∧
      d' = { d with config := some c }) ∨
    (∃ authority c, i = .transferProgramAuthority authority ∧
      tryTransferProgramAuthority rt d.config accounts authority = .ok c ∧
      d' = { d with config := some c }) ∨
    (∃ args padding w, i = .initializeVault args padding ∧
      tryInitializeVault rt (d.ground rt) accounts args = .ok w ∧
      d' = { d with stage := d.born w }) ∨
    (i = .assertDelegateCleared ∧ d' = d) ∨
    ∃ l l', d.stage = .live l ∧ Acted rt o accounts i l l' ∧ d' = { d with stage := .live l' } := by
  have hsystem : ∀ {f : World → ProgramResult World}, d.onWorld f = .ok d' →
      (∀ w, ∃ j, systemInstruction rt o w accounts i = some j ∧ exec rt w j = f w) →
      ∃ l l', d.stage = .live l ∧ Acted rt o accounts i l l' ∧
        d' = { d with stage := .live l' } := by
    intro f hf hj
    obtain ⟨l, w, hl, hw, rfl⟩ := onWorld_eq_ok.mp hf
    obtain ⟨j, hj, hexec⟩ := hj l.world
    exact ⟨l, _, hl, .system hj (hexec.trans hw), rfl⟩
  have htable : ∀ {f : World → ProgramResult World}, d.onWorld f = .ok d' →
      (∀ w, tableInstruction rt w accounts i = some (f w)) →
      ∃ l l', d.stage = .live l ∧ Acted rt o accounts i l l' ∧
        d' = { d with stage := .live l' } := by
    intro f hf hx
    obtain ⟨l, w, hl, hw, rfl⟩ := onWorld_eq_ok.mp hf
    exact ⟨l, _, hl, .table (hx l.world) hw, rfl⟩
  have hregistration : ∀ {f : World → Registrations → ProgramResult Registrations},
      d.onRegistrations f = .ok d' →
      (∀ w r, registrationInstruction rt w r accounts i = some (f w r)) →
      ∃ l l', d.stage = .live l ∧ Acted rt o accounts i l l' ∧
        d' = { d with stage := .live l' } := by
    intro f hf hx
    obtain ⟨l, _, hl, hmap, rfl⟩ := onVault_eq_ok.mp hf
    obtain ⟨r, hr, rfl⟩ := map_eq_ok.mp hmap
    exact ⟨l, _, hl, .registration (hx l.world l.registrations) hr, rfl⟩
  have hrelay : ∀ {f : (Chain → World) → Chain → ProgramResult Chain}, d.onChain o f = .ok d' →
      (∀ w, relayInstruction rt o w accounts i = some (f w.beside (o.bytes w.ledger))) →
      ∃ l l', d.stage = .live l ∧ Acted rt o accounts i l l' ∧
        d' = { d with stage := .live l' } := by
    intro f hf hx
    obtain ⟨l, w, hl, hw, rfl⟩ := onWorld_eq_ok.mp hf
    obtain ⟨chain, hchain, rfl⟩ := map_eq_ok.mp hw
    exact ⟨l, _, hl, .relay (hx l.world) hchain, rfl⟩
  cases i
  all_goals simp only [tryProcessInstruction, bind_eq_ok, Except.ok.injEq] at h
  case initializeProgram authority =>
    obtain ⟨c, hc, rfl⟩ := h
    exact .inl ⟨authority, c, rfl, hc, rfl⟩
  case transferProgramAuthority authority =>
    obtain ⟨c, hc, rfl⟩ := h
    exact .inr (.inl ⟨authority, c, rfl, hc, rfl⟩)
  case initializeVault args padding =>
    obtain ⟨w, hw, rfl⟩ := h
    exact .inr (.inr (.inl ⟨args, padding, w, rfl, hw, rfl⟩))
  case assertDelegateCleared =>
    obtain ⟨_, -, rfl⟩ := h
    exact .inr (.inr (.inr (.inl ⟨rfl, rfl⟩)))
  case authorizeAction | revokeAction | adminSetFlashFeeRate | strategistLowerFlashFeeRate |
      initializeAsset | updateAsset =>
    exact .inr (.inr (.inr (.inr (htable h fun _ => rfl))))
  case registerExternalDestination | revokeExternalDestination =>
    exact .inr (.inr (.inr (.inr (hregistration h fun _ _ => rfl))))
  case manage | manageBatch | swap | setShareMetadata =>
    exact .inr (.inr (.inr (.inr (hrelay h fun _ => rfl))))
  case atomicRedeem =>
    refine .inr (.inr (.inr (.inr (hsystem h fun w => ⟨_, rfl, ?_⟩))))
    exact congrArg (tryAtomicRedeem rt w accounts _) (Call.relay_ledger _ _)
  case depositAndDeploy =>
    refine .inr (.inr (.inr (.inr (hsystem h fun w => ⟨_, rfl, ?_⟩))))
    exact congrArg (tryDepositAndDeploy rt w accounts _) (Call.relay_ledger _ _)
  all_goals exact .inr (.inr (.inr (.inr (hsystem h fun _ => ⟨_, rfl, rfl⟩))))

/-- **A vault that is there stays**, and a step does one of five things to it. -/
theorem ProgramStep.moved {e : ProgramEvent} {l : Live} (h : ProgramStep rt d e d')
    (hl : d.stage = .live l) : ∃ l', d'.stage = .live l' ∧ Moved rt d l e l' := by
  obtain ⟨-, happly⟩ := h
  cases e with
  | tick clock =>
    cases happly
    exact ⟨_, by rw [Deployment.tick, hl], .tick clock⟩
  | environment occupied ledger prices =>
    cases happly
    exact ⟨_, by rw [Deployment.environment, hl], .environment occupied ledger prices⟩
  | call i accounts o =>
    rcases tryProcessInstruction_cases happly with ⟨_, _, rfl, -, rfl⟩ | ⟨_, _, rfl, -, rfl⟩ |
      ⟨args, _, w, rfl, hw, rfl⟩ | ⟨rfl, rfl⟩ | ⟨l₁, l', hl₁, hacted, rfl⟩
    · exact ⟨l, hl, .kept rfl⟩
    · exact ⟨l, hl, .kept rfl⟩
    · exact ⟨_, by rw [Deployment.born, hl], .neighbour hw⟩
    · exact ⟨l, hl, .kept rfl⟩
    · obtain rfl : l = l₁ := Stage.live.inj (hl.symm.trans hl₁)
      exact ⟨l', rfl, .acted hacted⟩

/-- A vault that is not there stays so, or is initialized. -/
theorem ProgramStep.unborn {e : ProgramEvent} {g : Ground} (h : ProgramStep rt d e d')
    (hg : d.stage = .unborn g) :
    (∃ g', d'.stage = .unborn g') ∨ ∃ args padding accounts o w,
      e = .call (.initializeVault args padding) accounts o ∧
        tryInitializeVault rt (d.ground rt) accounts args = .ok w ∧
        d'.stage = .live (.of w fun _ => none) := by
  obtain ⟨-, happly⟩ := h
  cases e with
  | tick clock =>
    cases happly
    rw [Deployment.tick, hg]
    exact .inl ⟨_, rfl⟩
  | environment occupied ledger prices =>
    cases happly
    rw [Deployment.environment, hg]
    exact .inl ⟨_, rfl⟩
  | call i accounts o =>
    rcases tryProcessInstruction_cases happly with ⟨_, _, -, -, rfl⟩ | ⟨_, _, -, -, rfl⟩ |
      ⟨args, padding, w, rfl, hw, rfl⟩ | ⟨-, rfl⟩ | ⟨l, _, hl, -⟩
    · exact .inl ⟨g, hg⟩
    · exact .inl ⟨g, hg⟩
    · exact .inr ⟨args, padding, accounts, o, w, rfl, hw, by rw [Deployment.born, hg]⟩
    · exact .inl ⟨g, hg⟩
    · rw [hg] at hl
      cases hl

/-! ### What a step writes -/

section Change

variable {l l' : Live} {w w' : World} {r r' : Registrations}

theorem Live.of_world (h : w.destinations = fun key => (r key).isSome) :
    (Live.of w r).world = w := by
  obtain ⟨_, _, _, _, _, _, _, _, _⟩ := w
  simp only at h
  subst h
  rfl

theorem Live.of_self (l : Live) : Live.of l.world l.registrations = l := by
  obtain ⟨⟨_, _, _, _, _, _, _, _, _⟩, r, h⟩ := l
  simp only at h
  subst h
  rfl

theorem systemInstruction_accounts {j : Instruction}
    (hj : systemInstruction rt o w accounts i = some j) : j.accounts = accounts := by
  cases i
  all_goals simp only [systemInstruction, Option.some.injEq, reduceCtorEq] at hj
  all_goals
    subst hj
    rfl

theorem systemInstruction_tokensOnly {j : Instruction}
    (hj : systemInstruction rt o w accounts i = some j) : j.TokensOnly rt := by
  cases i
  all_goals simp only [systemInstruction, Option.some.injEq, reduceCtorEq] at hj
  all_goals subst hj
  case depositAndDeploy | atomicRedeem =>
    rw [Instruction.TokensOnly, Call.relay_ledger]
    exact Relay.other_tokensOnly _ _
  all_goals exact trivial

theorem tableInstruction_tabled {x : ProgramResult World}
    (hx : tableInstruction rt w accounts i = some x) (h : x = .ok w') : Tabled rt w accounts w' := by
  subst h
  cases i
  all_goals simp only [tableInstruction, Option.some.injEq, reduceCtorEq] at hx
  case authorizeAction args =>
    obtain ⟨key, a, -, -, -, ha, rfl⟩ := tryAuthorizeAction_tabled hx
    exact .authorized ha
  case revokeAction => exact tryRevokeAction_tabled hx
  case adminSetFlashFeeRate => exact updateActionFlashFee_tabled (.inl rfl) hx
  case strategistLowerFlashFeeRate => exact updateActionFlashFee_tabled (.inr rfl) hx
  case initializeAsset => exact tryInitializeAsset_tabled hx
  case updateAsset => exact tryUpdateAsset_tabled hx

theorem registrationInstruction_redirected {x : ProgramResult Registrations}
    (hx : registrationInstruction rt w r accounts i = some x) (h : x = .ok r') :
    Redirected rt w r accounts r' := by
  subst h
  cases i
  all_goals simp only [registrationInstruction, Option.some.injEq, reduceCtorEq] at hx
  case registerExternalDestination => exact tryRegisterExternalDestination_redirected hx
  case revokeExternalDestination => exact tryRevokeExternalDestination_redirected hx

theorem Acted.change (h : Acted rt o accounts i l l') : Change rt accounts l l' := by
  cases h with
  | system hj h =>
    exact .books (systemInstruction_accounts hj ▸ exec_writes (systemInstruction_tokensOnly hj) h)
  | table hx h => exact .tables (tableInstruction_tabled hx h)
  | registration hx h => exact .destinations (registrationInstruction_redirected hx h)
  | relay => exact .beside _ _ _

/-- **Every step is one of the changes.** -/
theorem Moved.change {e : ProgramEvent} (h : Moved rt d l e l') : Change rt e.accounts l l' := by
  cases h with
  | acted h => exact h.change
  | @kept i accounts o =>
    have hself : Change rt accounts l (.of l.world l.registrations) :=
      .beside l.world.ledger l.world.prices l.world.clock
    rwa [Live.of_self] at hself
  | neighbour => exact .beside _ _ _
  | tick => exact .beside _ _ _
  | environment => exact .beside _ _ _

end Change

abbrev ProgramTrace := List (Transition Deployment ProgramEvent)

/-- The program relays no call of itself. -/
def ProgramOutward (tr : ProgramTrace) : Prop := ∀ x ∈ tr, x.event.Outward

/-- **Invariant rule.**  What an initialization establishes and every step of the run keeps holds
of a vault that is there. -/
theorem live_invariant_of_mem {P : Live → Prop} {g : Ground} {tr : ProgramTrace} {l : Live}
    (h : Run (ProgramStep rt) (.genesis g) tr d) (hl : d.stage = .live l)
    (hborn : ∀ d accounts args w, tryInitializeVault rt (Deployment.ground rt d) accounts args =
      .ok w → P (.of w fun _ => none))
    (hmoved : ∀ x ∈ tr, ∀ l l', x.pre.stage = .live l → Moved rt x.pre l x.event l' → P l → P l') :
    P l := by
  refine h.invariant (P := fun d => ∀ l, d.stage = .live l → P l) ?_ ?_ l hl
  · intro l hl
    cases hl
  · intro x hx hstep hP l' hl'
    cases hstage : x.pre.stage with
    | live l =>
      obtain ⟨l₁, hl₁, hm⟩ := hstep.moved hstage
      obtain rfl : l' = l₁ := Stage.live.inj (hl'.symm.trans hl₁)
      exact hmoved x hx l l' hstage hm (hP l hstage)
    | unborn g' =>
      rcases hstep.unborn hstage with ⟨_, hunborn⟩ | ⟨args, padding, accounts, o, w, -, hw, hlive⟩
      · rw [hunborn] at hl'
        cases hl'
      · rw [Stage.live.inj (hl'.symm.trans hlive)]
        exact hborn _ _ _ _ hw

theorem live_invariant {P : Live → Prop} {g : Ground} {tr : ProgramTrace} {l : Live}
    (h : Run (ProgramStep rt) (.genesis g) tr d) (hl : d.stage = .live l)
    (hborn : ∀ d accounts args w, tryInitializeVault rt (Deployment.ground rt d) accounts args =
      .ok w → P (.of w fun _ => none))
    (hmoved : ∀ d e l l', Moved rt d l e l' → P l → P l') : P l :=
  live_invariant_of_mem h hl hborn fun x _ l l' _ => hmoved x.pre x.event l l'

end Roshi
