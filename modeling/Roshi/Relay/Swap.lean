import Roshi.Relay.Manage

/-!
# Swaps

`accounts/swap.rs` and `execution/swap.rs`: the swap authority or the strategist relays one
authorized route between two custodies of a sub-account, its endpoints.

The route is any program signed by the sub-account, so three checks stand around it.  The
endpoints keep every byte but their amounts; every other writable custody, found once
however often the route lists it, keeps its balance and stays clean; and the endpoints'
flows stay within the caller's bounds.  Together they leave nothing else a route could
have touched in custody (`swap_frame`).  With a slippage control, the flows are valued
through the oracles as well.
-/

namespace Roshi

open Lib

/-! ### Valuation -/

/-- How one endpoint is valued in base atoms: the base mint at its amount, a registered
asset through its oracle. -/
inductive LegPricing where
  | base
  | asset (assetDecimals : U8) (routed : Bool) (oracle : OracleLeg)

namespace LegPricing

/-- The endpoint's accounts, off the front of `accounts`.  A mint that is neither the base
nor registered cannot be priced; the deposit flag of an asset is not asked. -/
def parse (rt : Runtime) (w : World) (vault : Vault) (vaultKey mint : Pubkey)
    (accounts : List AccountInfo) : ProgramResult (LegPricing × List AccountInfo) := do
  if mint = vault.baseMint then .ok (.base, accounts)
  else do
    let (assetAccount, rest) ← nextAccount accounts
    let (expectedAsset, _) := assetAddress rt vaultKey mint
    rejectIf (assetAccount.key ≠ expectedAsset) (.custom .unpriceableSwapLeg)
    let asset ← (w.loadAsset assetAccount).mapError fun _ => .custom .unpriceableSwapLeg
    let routed ← asset.routed
    let (oracle, remaining) ← OracleLeg.parse asset.oracle rest
    .ok (.asset asset.assetDecimals routed oracle, remaining)

def routed : LegPricing → Bool
  | base => false
  | asset _ routed _ => routed

/-- The asset's price, `none` for the base mint. -/
def readAssetPrice (w : World) (prices : OracleReadSession) :
    LegPricing → ProgramResult (Option OraclePrice × OracleReadSession)
  | base => .ok (none, prices)
  | asset _ _ oracle => do
    let (price, prices) ← prices.read (DepositContext.readLeg w) oracle
    .ok (some price, prices)

/-- The value of `amount` at prices read before; a direct feed already quotes in base. -/
def valueInBaseAtoms (vault : Vault) (amount : U64) (assetPrice basePrice : Option OraclePrice) :
    LegPricing → ProgramResult U64
  | base => .ok amount
  | asset assetDecimals routed _ => do
    let assetPrice ← okOr assetPrice .invalidAccountData
    let basePrice ← if routed then okOr basePrice .invalidAccountData else .ok .UNIT
    into (baseAtomsFromAssetAtoms amount assetPrice basePrice assetDecimals vault.baseDecimals)

end LegPricing

/-- Both endpoints, and the vault's base leg once for the two of them: present iff an
endpoint is routed. -/
structure SwapValuation where
  input : LegPricing
  output : LegPricing
  baseLeg : Option OracleLeg

namespace SwapValuation

/-- The input's accounts, the output's, then the shared base leg. -/
def parse (rt : Runtime) (w : World) (vault : Vault) (vaultKey inputMint outputMint : Pubkey)
    (accounts : List AccountInfo) : ProgramResult (SwapValuation × List AccountInfo) := do
  let (input, remaining) ← LegPricing.parse rt w vault vaultKey inputMint accounts
  let (output, remaining) ← LegPricing.parse rt w vault vaultKey outputMint remaining
  if input.routed || output.routed then do
    let (leg, remaining) ← OracleLeg.parse vault.baseOracle remaining
    .ok ({ input, output, baseLeg := some leg }, remaining)
  else .ok ({ input, output, baseLeg := none }, remaining)

/-- The shared base leg's price, read first. -/
def readBasePrice (w : World) (v : SwapValuation) :
    ProgramResult (Option OraclePrice × OracleReadSession) :=
  match v.baseLeg with
  | some leg => do
    let (price, prices) ← OracleReadSession.read (DepositContext.readLeg w) [] leg
    .ok (some price, prices)
  | none => .ok (none, [])

/-- The values of what was spent and what was received, in base atoms. -/
def values (w : World) (v : SwapValuation) (vault : Vault) (spent received : U64) :
    ProgramResult (U64 × U64) := do
  let (basePrice, prices) ← v.readBasePrice w
  let (inputPrice, prices) ← v.input.readAssetPrice w prices
  let (outputPrice, _) ← v.output.readAssetPrice w prices
  let spentValue ← v.input.valueInBaseAtoms vault spent inputPrice basePrice
  let receivedValue ← v.output.valueInBaseAtoms vault received outputPrice basePrice
  .ok (spentValue, receivedValue)

end SwapValuation

/-! ### The accounts -/

structure SwapArgs where
  minOut : U64
  maxIn : U64
  subAccount : U8
  accountsStart : U8
  accountFlags : PackedAccountFlags
  ixData : List U8

structure SwapContext where
  subAccount : AccountInfo
  inputCustody : AccountInfo
  outputCustody : AccountInfo
  cpiAccounts : List AccountInfo
  action : Action
  vault : Vault
  vaultKey : Pubkey
  subAccountIndex : U8
  subAccountBump : U8
  /-- Present iff the vault bounds the slippage of its swaps. -/
  valuation : Option SwapValuation

def verifyEitherRole (v : Vault) (a b : Role) (signer : AccountInfo) : ProgramResult Unit := do
  rejectIf (signer.isSigner = false) .missingRequiredSignature
  rejectIf (v.hasRole a signer.key = false ∧ v.hasRole b signer.key = false) .illegalOwner

variable (rt : Runtime) (host : Host) (records : Chain → World)

namespace SwapContext

/-- The endpoints' pricing, off the accounts that remain. -/
def loadValuation (chain : Chain) (vault : Vault) (vaultKey : Pubkey)
    (inputCustody outputCustody : AccountInfo) (remaining : List AccountInfo) :
    ProgramResult (Option SwapValuation × List AccountInfo) := do
  if vault.controls.maxSwapSlippageBps > 0 then do
    let inputMint ← (chain inputCustody.key).tokenAccountMint
    let outputMint ← (chain outputCustody.key).tokenAccountMint
    let (valuation, remaining) ←
      SwapValuation.parse rt (records chain) vault vaultKey inputMint outputMint remaining
    .ok (some valuation, remaining)
  else .ok (none, remaining)

/-- A writable custody that may carry a delegate already, but no close authority. -/
def loadEndpoint (chain : Chain) (subAccountKey : Pubkey) (accounts : List AccountInfo) :
    ProgramResult (AccountInfo × List AccountInfo) := do
  let (endpoint, accounts) ← nextAccount accounts
  requireWritable endpoint
  (chain endpoint.key).verifySwapEndpointCustody subAccountKey
  .ok (endpoint, accounts)

def load (chain : Chain) (accounts : List AccountInfo) (args : SwapArgs) :
    ProgramResult SwapContext := do
  let (swapExecutor, accounts) ← nextAccount accounts
  let (vaultAccount, accounts) ← nextAccount accounts
  let vault ← (records chain).loadChecked rt vaultAccount
  verifyEitherRole vault .swapAuthority .strategist swapExecutor
  vault.verifyManageEnabled
  let vaultKey := vaultAccount.key
  let (subAccount, accounts) ← nextAccount accounts
  let subAccountBump ← verifySubAccountBytes rt chain vaultKey args.subAccount subAccount
  let (inputCustody, accounts) ← loadEndpoint chain subAccount.key accounts
  let (outputCustody, accounts) ← loadEndpoint chain subAccount.key accounts
  rejectIf (inputCustody.key = outputCustody.key) (.custom .invalidTokenAccount)
  let (actionAccount, remaining) ← nextAccount accounts
  let action ← (records chain).loadAction actionAccount
  action.verifyForVault rt vaultKey actionAccount.key
  rejectIf (action.scope ≠ .swap) (.custom .unauthorizedAction)
  let (valuation, cpiAccounts) ←
    loadValuation rt records chain vault vaultKey inputCustody outputCustody remaining
  .ok
    { subAccount, inputCustody, outputCustody, cpiAccounts, action, vault, vaultKey
      subAccountIndex := args.subAccount
      subAccountBump, valuation }

/-- The CPI the context and the arguments select. -/
def authorize (chain : Chain) (c : SwapContext) (args : SwapArgs) : ProgramResult AuthorizedCpi :=
  validateAuthorizedCpi rt host chain c.cpiAccounts
    { action := c.action
      vaultKey := c.vaultKey
      subAccountKey := c.subAccount.key
      subAccountIndex := c.subAccountIndex
      subAccountBump := c.subAccountBump }
    args.accountsStart args.accountFlags args.ixData

end SwapContext

/-! ### Siblings of the endpoints -/

namespace AuthorizedCpi

variable (cpi : AuthorizedCpi)

/-- One pass of the snapshot: read-only metas, the exempt keys and keys seen before are
passed over. -/
def snapshotEntry (chain : Chain) (exempt : List Pubkey) (snapshot : List (Pubkey × U64))
    (entry : AccountMeta × AccountInfo) : ProgramResult (List (Pubkey × U64)) := do
  let (accountMeta, info) := entry
  if accountMeta.isWritable = false ∨ info.key ∈ exempt ∨ (∃ e ∈ snapshot, e.1 = info.key) then
    .ok snapshot
  else if ← (chain info.key).isCleanCustody cpi.subAccountKey then do
    let amount ← (chain info.key).tokenAmount
    .ok (snapshot ++ [(info.key, amount)])
  else .ok snapshot

/-- The writable custodies of the sub-account with their balances, `exempt` apart. -/
def snapshotWritableCustody (chain : Chain) (exempt : List Pubkey) :
    ProgramResult (List (Pubkey × U64)) :=
  (cpi.instruction.accounts.zip cpi.accountInfos).foldlM (cpi.snapshotEntry chain exempt) []

/-- After the call each of them is clean still and holds the same. -/
def verifyCustodyUnchanged (chain : Chain) (snapshot : List (Pubkey × U64)) : ProgramResult Unit :=
  snapshot.forM fun (key, amount) => do
    let account ← cpi.accountOf chain key
    rejectIf ((← account.isCleanCustody cpi.subAccountKey) = false) (.custom .invalidTokenAccount)
    rejectIf ((← account.tokenAmount) ≠ amount) (.custom .swapCustodyMoved)

end AuthorizedCpi

/-! ### The instruction -/

/-- What an executed route did: the endpoints' flows, and the accounts after it. -/
structure SwapFlow where
  spent : U64
  received : U64
  chain : Chain

def executeSwapCpi (chain : Chain) (c : SwapContext) (args : SwapArgs) :
    ProgramResult SwapFlow := do
  let inPre ← (chain c.inputCustody.key).tokenAmount
  let outPre ← (chain c.outputCustody.key).tokenAmount
  let inPreData := (chain c.inputCustody.key).data
  let outPreData := (chain c.outputCustody.key).data
  let cpi ← c.authorize rt host chain args
  let custody ← cpi.snapshotWritableCustody chain [c.inputCustody.key, c.outputCustody.key]
  let chain ← invokeAuthorizedCpi host cpi chain
  cpi.verifyCustodyUnchanged chain custody
  (chain c.inputCustody.key).verifySwapEndpointUnchanged inPreData
  (chain c.outputCustody.key).verifySwapEndpointUnchanged outPreData
  let inPost ← (chain c.inputCustody.key).tokenAmount
  let outPost ← (chain c.outputCustody.key).tokenAmount
  let spent ← okOr (checkedSub inPre inPost) (.custom .overflow)
  let received ← okOr (checkedSub outPost outPre) (.custom .overflow)
  rejectIf (spent > args.maxIn) (.custom .slippageExceeded)
  rejectIf (received < args.minOut) (.custom .slippageExceeded)
  .ok { spent, received, chain }

/-- The oracle-valued bound; the prices are those after the route. -/
def verifySwapValue (c : SwapContext) (flow : SwapFlow) : ProgramResult Unit :=
  match c.valuation with
  | none => .ok ()
  | some valuation => do
    let (spentValue, receivedValue) ←
      valuation.values (records flow.chain) c.vault flow.spent flow.received
    let toleratedBps ← okOr (checkedSub BPS_DENOMINATOR c.vault.controls.maxSwapSlippageBps)
      (.custom .overflow)
    let minValue ←
      into (mulDivCeilU64 spentValue (U16.to64 toleratedBps) (U16.to64 BPS_DENOMINATOR))
    rejectIf (receivedValue < minValue) (.custom .slippageExceeded)

def trySwap (chain : Chain) (accounts : List AccountInfo) (args : SwapArgs) :
    ProgramResult Chain := do
  let c ← SwapContext.load rt records chain accounts args
  let flow ← executeSwapCpi rt host chain c args
  verifySwapValue records c flow
  .ok flow.chain

/-! ### What the snapshot covers -/

/-- The snapshot tells the truth: each key in it is a clean custody with that balance. -/
def AuthorizedCpi.Recorded (cpi : AuthorizedCpi) (chain : Chain) (snapshot : List (Pubkey × U64)) :
    Prop :=
  ∀ e ∈ snapshot, (chain e.1).Clean cpi.subAccountKey ∧
    (chain e.1).u64At TOKEN_ACCOUNT_AMOUNT = e.2

/-- A writable custody that is not exempt is in the snapshot. -/
def AuthorizedCpi.Covered (cpi : AuthorizedCpi) (chain : Chain) (exempt : List Pubkey)
    (entry : AccountMeta × AccountInfo) (snapshot : List (Pubkey × U64)) : Prop :=
  entry.1.isWritable = true → entry.2.key ∉ exempt →
    (chain entry.2.key).CustodyOf cpi.subAccountKey → ∃ e ∈ snapshot, e.1 = entry.2.key

variable {rt host records} {cpi : AuthorizedCpi} {chain : Chain} {exempt : List Pubkey}

/-- One pass keeps what is recorded, and a writable custody that is not exempt is recorded
after it: now, or by an earlier meta of the same key. -/
theorem snapshotEntry_spec {acc snapshot : List (Pubkey × U64)} {entry : AccountMeta × AccountInfo}
    (hacc : cpi.Recorded chain acc)
    (h : cpi.snapshotEntry chain exempt acc entry = .ok snapshot) :
    cpi.Recorded chain snapshot ∧ acc ⊆ snapshot ∧ cpi.Covered chain exempt entry snapshot := by
  obtain ⟨accountMeta, info⟩ := entry
  rw [AuthorizedCpi.snapshotEntry] at h
  by_cases hskip : accountMeta.isWritable = false ∨ info.key ∈ exempt ∨ (∃ e ∈ acc, e.1 = info.key)
  · rw [if_pos hskip] at h
    cases h
    refine ⟨hacc, List.Subset.refl _, ?_⟩
    intro hw hne _
    rcases hskip with hread | hexempt | hseen
    · rw [hread] at hw
      cases hw
    · exact absurd hexempt hne
    · exact hseen
  · rw [if_neg hskip, bind_eq_ok] at h
    obtain ⟨b, hb, h⟩ := h
    cases b with
    | false =>
      cases h
      refine ⟨hacc, List.Subset.refl _, ?_⟩
      intro _ _ hc
      exact absurd hc (RawAccount.isCleanCustody_eq_false.mp hb)
    | true =>
      simp only [if_true, bind_eq_ok, Except.ok.injEq, RawAccount.tokenAmount_eq_ok] at h
      obtain ⟨amount, ⟨-, hamount⟩, rfl⟩ := h
      refine ⟨?_, List.subset_append_left _ _, ?_⟩
      · intro e he
        rcases List.mem_append.mp he with he | he
        · exact hacc e he
        · obtain rfl := List.mem_singleton.mp he
          exact ⟨RawAccount.isCleanCustody_eq_true.mp hb, hamount⟩
      · intro _ _ _
        exact ⟨_, List.mem_append_right _ (List.mem_singleton.mpr rfl), rfl⟩

/-- The check after the call, entry by entry. -/
theorem verifyCustodyUnchanged_spec {snapshot : List (Pubkey × U64)}
    (h : cpi.verifyCustodyUnchanged chain snapshot = .ok ()) : cpi.Recorded chain snapshot := by
  rintro ⟨key, amount⟩ he
  have hcheck := forM_eq_ok.mp h _ he
  simp only [bind_eq_ok, rejectIf_eq_ok, Bool.not_eq_false, not_not,
    RawAccount.tokenAmount_eq_ok] at hcheck
  obtain ⟨a, ha, b, hb, _, rfl, n, ⟨-, hn⟩, rfl⟩ := hcheck
  obtain rfl := accountOf_eq_ok ha
  exact ⟨RawAccount.isCleanCustody_eq_true.mp hb, hn⟩

/-- **The siblings of the endpoints**: a writable custody that is not exempt was clean, is
clean, and holds what it held. -/
theorem siblings_unchanged {host : Host} {cpiAccounts metaAccounts : List AccountInfo}
    {validated : ValidatedManageAccounts} {accountsStart : U8} {programAcc : AccountInfo}
    {siblings : List ResolvedSibling} {before after : Chain} {snapshot : List (Pubkey × U64)}
    (hb : cpi.Built rt host cpiAccounts validated accountsStart metaAccounts programAcc siblings)
    (hpre : cpi.snapshotWritableCustody before exempt = .ok snapshot)
    (hpost : cpi.verifyCustodyUnchanged after snapshot = .ok ()) {m : AccountMeta}
    (hm : m ∈ cpi.instruction.accounts) (hw : m.isWritable = true) (hne : m.pubkey ∉ exempt)
    (hc : (before m.pubkey).CustodyOf cpi.subAccountKey) :
    (before m.pubkey).Clean cpi.subAccountKey ∧ (after m.pubkey).Clean cpi.subAccountKey ∧
      (after m.pubkey).u64At TOKEN_ACCOUNT_AMOUNT =
        (before m.pubkey).u64At TOKEN_ACCOUNT_AMOUNT := by
  obtain ⟨info, hmem, hkey⟩ := hb.mem_zip hm
  have hnil : cpi.Recorded before [] := by
    intro e he
    cases he
  have hmono : ∀ (entry : AccountMeta × AccountInfo) (s s' : List (Pubkey × U64)), s ⊆ s' →
      cpi.Covered before exempt entry s → cpi.Covered before exempt entry s' := by
    intro entry s s' hsub hcovered hw hne hc
    exact (hcovered hw hne hc).imp fun _ he => ⟨hsub he.1, he.2⟩
  obtain ⟨hrec, -, hcover⟩ :=
    foldlM_covers hmono (fun _ _ _ hacc hstep => snapshotEntry_spec hacc hstep) hnil hpre
  rw [hkey] at hne hc ⊢
  obtain ⟨e, he, hekey⟩ := hcover (m, info) hmem hw hne hc
  have hpost := verifyCustodyUnchanged_spec hpost e he
  have hpre := hrec e he
  rw [hekey] at hpre hpost
  exact ⟨hpre.1, hpost.1, hpost.2.trans hpre.2.symm⟩

/-! ### What a swap leaves behind -/

/-- An endpoint from `a` to `b`: only the amount bytes moved, so every field but the balance
is kept. -/
structure EndpointKept (a b : RawAccount) : Prop where
  bytes : RawAccount.SameButAmount a.data b.data
  fields : b.toTokenAccount = { a.toTokenAccount with
    program := b.owner, amount := b.u64At TOKEN_ACCOUNT_AMOUNT }

/-- What a swap leaves: two distinct endpoints that only moved their balances, within the
caller's bounds, and every other custody the route could write as it was. -/
structure Swapped (host : Host) (c : SwapContext) (args : SwapArgs) (cpi : AuthorizedCpi)
    (flow : SwapFlow) (before : Chain) : Prop where
  invoked : invokeAuthorizedCpi host cpi before = .ok flow.chain
  distinct : c.inputCustody.key ≠ c.outputCustody.key
  inputCustody : (before c.inputCustody.key).CustodyOf c.subAccount.key
  outputCustody : (before c.outputCustody.key).CustodyOf c.subAccount.key
  input : EndpointKept (before c.inputCustody.key) (flow.chain c.inputCustody.key)
  output : EndpointKept (before c.outputCustody.key) (flow.chain c.outputCustody.key)
  spent : ((flow.chain c.inputCustody.key).u64At TOKEN_ACCOUNT_AMOUNT).toNat + flow.spent.toNat =
    ((before c.inputCustody.key).u64At TOKEN_ACCOUNT_AMOUNT).toNat
  spent_le : flow.spent ≤ args.maxIn
  received : ((flow.chain c.outputCustody.key).u64At TOKEN_ACCOUNT_AMOUNT).toNat =
    ((before c.outputCustody.key).u64At TOKEN_ACCOUNT_AMOUNT).toNat + flow.received.toNat
  le_received : args.minOut ≤ flow.received
  others : ∀ m ∈ cpi.instruction.accounts, m.isWritable = true →
    m.pubkey ≠ c.inputCustody.key → m.pubkey ≠ c.outputCustody.key →
    (before m.pubkey).CustodyOf c.subAccount.key →
      (before m.pubkey).Clean c.subAccount.key ∧ (flow.chain m.pubkey).Clean c.subAccount.key ∧
        (flow.chain m.pubkey).u64At TOKEN_ACCOUNT_AMOUNT =
          (before m.pubkey).u64At TOKEN_ACCOUNT_AMOUNT

theorem SwapContext.loadEndpoint_eq_ok {sub : Pubkey} {accounts rest : List AccountInfo}
    {endpoint : AccountInfo}
    (h : SwapContext.loadEndpoint chain sub accounts = .ok (endpoint, rest)) :
    (chain endpoint.key).CustodyOf sub := by
  simp only [SwapContext.loadEndpoint, bind_eq_ok, Prod.exists, Except.ok.injEq, Prod.mk.injEq,
    RawAccount.verifySwapEndpointCustody_eq_ok] at h
  obtain ⟨_, _, -, _, -, _, ⟨hcustody, -⟩, rfl, -⟩ := h
  exact hcustody

/-- A loaded context has distinct endpoints, each a custody of its sub-account. -/
theorem SwapContext.load_spec {accounts : List AccountInfo} {args : SwapArgs} {c : SwapContext}
    (h : SwapContext.load rt records chain accounts args = .ok c) :
    c.inputCustody.key ≠ c.outputCustody.key ∧
      (chain c.inputCustody.key).CustodyOf c.subAccount.key ∧
      (chain c.outputCustody.key).CustodyOf c.subAccount.key := by
  revert h
  simp only [SwapContext.load, bind_ok_imp, Prod.forall, rejectIf_eq_ok, Except.ok.injEq]
  rintro _ _ - _ _ - _ - _ - _ - sub _ - _ - input _ hinput output _ houtput _ hne _ _ - _ - _ - _ -
    _ _ - rfl
  exact ⟨hne, loadEndpoint_eq_ok hinput, loadEndpoint_eq_ok houtput⟩

/-- **An executed route** keeps the frame. -/
theorem executeSwapCpi_spec {before : Chain} {accounts : List AccountInfo} {c : SwapContext}
    {args : SwapArgs} {flow : SwapFlow}
    (hload : SwapContext.load rt records before accounts args = .ok c)
    (h : executeSwapCpi rt host before c args = .ok flow) :
    ∃ cpi, c.authorize rt host before args = .ok cpi ∧ Swapped host c args cpi flow before := by
  revert h
  simp only [executeSwapCpi, bind_ok_imp, okOr_eq_ok, rejectIf_eq_ok, checkedSub_eq_some,
    RawAccount.tokenAmount_eq_ok, RawAccount.verifySwapEndpointUnchanged_eq_ok, BitVec.not_lt,
    Except.ok.injEq]
  rintro _ ⟨-, rfl⟩ _ ⟨-, rfl⟩ cpi hcpi snapshot hsnapshot after hinvoke _ hcheck _ hin _ hout
    _ ⟨-, rfl⟩ _ ⟨-, rfl⟩ spent hspent received hreceived _ hle _ hge rfl
  obtain ⟨hne, hinput, houtput⟩ := SwapContext.load_spec hload
  refine ⟨cpi, hcpi, hinvoke, hne, hinput, houtput, ⟨hin, hin.toTokenAccount_eq⟩,
    ⟨hout, hout.toTokenAccount_eq⟩, ?_, hle, ?_, hge, ?_⟩
  · exact (Nat.add_comm _ _).trans hspent
  · exact hreceived.symm.trans (Nat.add_comm _ _)
  · obtain ⟨-, metaAccounts, programAcc, siblings, hb⟩ := validateAuthorizedCpi_spec hcpi
    intro m hm hw hin hout hc
    have hsub : cpi.subAccountKey = c.subAccount.key := hb.subAccountKey
    rw [← hsub] at hc ⊢
    refine siblings_unchanged hb hsnapshot hcheck hm hw ?_ hc
    simp [hin, hout]

/-- **A swap changes nothing but the two endpoint balances**, whatever its route does. -/
theorem swap_frame {before after : Chain} {accounts : List AccountInfo} {args : SwapArgs}
    (h : trySwap rt host records before accounts args = .ok after) :
    ∃ c cpi flow, SwapContext.load rt records before accounts args = .ok c ∧
      c.authorize rt host before args = .ok cpi ∧ flow.chain = after ∧
      Swapped host c args cpi flow before := by
  simp only [trySwap, bind_eq_ok, Except.ok.injEq] at h
  obtain ⟨c, hc, flow, hflow, _, -, rfl⟩ := h
  obtain ⟨cpi, hcpi, hswapped⟩ := executeSwapCpi_spec hc hflow
  exact ⟨c, cpi, flow, hc, hcpi, rfl, hswapped⟩

namespace Sample

def assetMint : Pubkey := Vector.replicate 32 10

/-- The PDA of `["asset", vaultKey, assetMint]`, bump 255. -/
def assetKey : Pubkey :=
  #v[248, 2, 42, 98, 238, 84, 143, 148, 73, 17, 158, 215, 38, 94, 44, 135, 7, 14, 158, 23, 108,
    42, 200, 200, 135, 181, 26, 244, 28, 47, 23, 105]

/-- Two more custodies of the sub-account: of the asset, and of the base. -/
def assetCustody : Pubkey := Vector.replicate 32 11

def siblingCustody : Pubkey := Vector.replicate 32 12

def asset : Asset where
  vault := vaultKey
  assetMint := assetMint
  oracle := .default
  depositCapAtoms := 0
  assetDecimals := 6
  enabledFlag := 0
  routedFlag := 0
  bump := 255

def swapRuntime : Runtime where
  findProgramAddress seeds program :=
    if seeds = [ASSET_SEED, vaultKey.toList, assetMint.toList] then (assetKey, 255)
    else routeRuntime.findProgramAddress seeds program
  hashv := routeRuntime.hashv

/-- The asset is worth two of the base. -/
def swapRecords : Chain → World := fun _ =>
  { routeWorld .swap with
    assets := fun key => if key = assetKey then some asset else none
    prices := fun _ _ _ => .ok ⟨2, 0⟩ }

/-- The output endpoint carries a delegate already. -/
def swapChain (base assets : U64) : Chain := fun key =>
  if key = custody then
    ⟨TOKEN_PROGRAM_ID, false, tokenBytes (tokenAccount baseMint subAccount base)⟩
  else if key = assetCustody then ⟨TOKEN_PROGRAM_ID, false, tokenBytes
    { tokenAccount assetMint subAccount assets with delegate := some user, delegatedAmount := 10 }⟩
  else if key = siblingCustody then
    ⟨TOKEN_PROGRAM_ID, false, tokenBytes (tokenAccount baseMint subAccount 30)⟩
  else managedChain key

/-- A route that sells 1000 base for 500 of the asset. -/
def swapHost : Host where
  transaction := routeHost.transaction
  invoke _ _ _ _ := .ok (swapChain 4000 500)

/-- The route lists the sibling custody twice. -/
def swapAccounts : List AccountInfo :=
  [signer admin, readonly vaultKey, readonly subAccount, writable custody, writable assetCustody,
    readonly routeKey, readonly assetKey, readonly user, readonly user, readonly user,
    readonly user, writable custody, writable assetCustody, writable siblingCustody,
    writable siblingCustody, readonly routeProgram]

def swapArgs : SwapArgs where
  minOut := 500
  maxIn := 1000
  subAccount := 0
  accountsStart := 0
  accountFlags := ⟨4, [170]⟩
  ixData := []

end Sample

theorem swap_frame_sale :
    ∃ after c cpi flow, SwapContext.load Sample.swapRuntime Sample.swapRecords
        (Sample.swapChain 5000 0) Sample.swapAccounts Sample.swapArgs = .ok c ∧
      c.authorize Sample.swapRuntime Sample.swapHost (Sample.swapChain 5000 0) Sample.swapArgs
        = .ok cpi ∧ flow.chain = after ∧
      Swapped Sample.swapHost c Sample.swapArgs cpi flow (Sample.swapChain 5000 0) := by
  have hok : (trySwap Sample.swapRuntime Sample.swapHost Sample.swapRecords
      (Sample.swapChain 5000 0) Sample.swapAccounts Sample.swapArgs).isOk = true := by
    decide +kernel
  exact ⟨_, swap_frame (eq_okValue hok)⟩

end Roshi
