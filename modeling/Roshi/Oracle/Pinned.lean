import Roshi.Effect
import Roshi.Oracle.Switchboard
import Roshi.Relay.SwapValue

/-!
# Who chooses a price

The caller of a deposit or a swap hands in the accounts its oracle legs are read from.  A
configuration that names them (`Pinned`: Switchboard, Scope, and Pyth with a pinned price
update) reads one price on one chain, whatever it is handed (`readLeg_pinned`).  What an amount
of a mint is worth is then unique (`Worth.unique`): two deposits of it mint the same shares
(`deposit_priced_by_chain`), and the bound of a swap holds of every valuation there is
(`swap_priced_by_chain`).

A Pyth leg without a pin takes any verified update of its feed that is fresh enough, at whatever
address (`Pyth.readVerifiedPrice_unpinned`).
-/

namespace Roshi

open Lib

/-- The configuration names the accounts its price is read from. -/
def ActiveOracleConfig.Pinned : ActiveOracleConfig → Prop
  | .pyth config => config.pinnedPriceUpdateAccount ≠ none
  | .switchboard _ => True
  | .scope _ => True

/-! ### One leg -/

section Leg

variable {P : Providers} {V : Switchboard.QuoteVerifier} {chain : Chain} {keys keys' : List Pubkey}
  {accounts : List Scope.KeyedAccount} {clock : Clock} {p p' : OraclePrice}

/-- On one chain, an account is its key's. -/
theorem Chain.keyed_eq {l l' : List Scope.KeyedAccount} {a a' : Scope.KeyedAccount}
    (hl : chain.keyed keys = l) (hl' : chain.keyed keys' = l') (ha : a ∈ l) (ha' : a' ∈ l')
    (hkey : a.key = a'.key) : a = a' := by
  rw [← hl, Chain.keyed, List.mem_map] at ha
  rw [← hl', Chain.keyed, List.mem_map] at ha'
  obtain ⟨k, -, rfl⟩ := ha
  obtain ⟨k', -, rfl⟩ := ha'
  obtain rfl : k = k' := hkey
  rfl

theorem Pyth.readVerifiedPrice_key {config : PythOracleConfig} {account : Scope.KeyedAccount}
    {now : I64} {key : Pubkey} (hpin : config.pinnedPriceUpdateAccount = some key)
    (h : readVerifiedPrice config account now = .ok p) : account.key = key := by
  simp only [readVerifiedPrice, bind_eq_ok, rejectIf_eq_ok, hpin, Option.any_some,
    decide_eq_true_eq, not_not] at h
  obtain ⟨_, hkey, -⟩ := h
  exact hkey

/-- Without a pin, an account's address is not looked at: the caller picks the update. -/
theorem Pyth.readVerifiedPrice_unpinned {config : PythOracleConfig}
    (hpin : config.pinnedPriceUpdateAccount = none) (key key' : Pubkey) (account : RawAccount)
    (now : I64) :
    readVerifiedPrice config ⟨key, account⟩ now = readVerifiedPrice config ⟨key', account⟩ now := by
  simp only [readVerifiedPrice, hpin, Option.any_none]

theorem ActiveOracleConfig.read_pyth {config : PythOracleConfig}
    (h : ActiveOracleConfig.read P (.pyth config) accounts clock = .ok p) :
    ∃ account rest, accounts = account :: rest ∧
      P.pyth config account clock.unixTimestamp = .ok p := by
  rcases accounts with _ | ⟨account, rest⟩
  · cases h
  · exact ⟨account, rest, rfl, h⟩

theorem ActiveOracleConfig.read_scope {config : ScopeOracleConfig}
    (h : ActiveOracleConfig.read P (.scope config) accounts clock = .ok p) :
    ∃ prices mappings rest, accounts = prices :: mappings :: rest ∧
      Scope.readVerifiedPrice config prices mappings clock.unixTimestamp = .ok p := by
  rcases accounts with _ | ⟨prices, _ | ⟨mappings, rest⟩⟩
  · cases h
  · cases h
  · exact ⟨prices, mappings, rest, rfl, h⟩

/-- A Scope price is that of the configured prices account. -/
theorem Scope.readVerifiedPrice_price {config : ScopeOracleConfig} {prices mappings : KeyedAccount}
    {now : I64} (h : readVerifiedPrice config prices mappings now = .ok p) :
    prices.key = config.pricesAccount ∧
      p = (priceAt prices.account.data config.priceIndex.toNat).price := by
  obtain ⟨hp, hm, hi⟩ := readVerifiedPrice_wellFormed h
  obtain ⟨hverified, hprice⟩ := (readVerifiedPrice_eq_ok hp hm hi).mp h
  exact ⟨hverified.prices_key, hprice⟩

/-- Two successful reads of a pinned leg read one price. -/
theorem ActiveOracleConfig.read_pinned {config : ActiveOracleConfig} (hpin : config.Pinned)
    (h : config.read V.providers (chain.keyed keys) clock = .ok p)
    (h' : config.read V.providers (chain.keyed keys') clock = .ok p') : p = p' := by
  cases config with
  | pyth config =>
    obtain ⟨key, hkey⟩ := Option.ne_none_iff_exists'.mp hpin
    obtain ⟨a, rest, ha, hread⟩ := read_pyth h
    obtain ⟨a', rest', ha', hread'⟩ := read_pyth h'
    have heq : a = a' := Chain.keyed_eq ha ha' List.mem_cons_self List.mem_cons_self
      ((Pyth.readVerifiedPrice_key hkey hread).trans (Pyth.readVerifiedPrice_key hkey hread').symm)
    subst heq
    exact Except.ok.inj (hread.symm.trans hread')
  | switchboard config =>
    obtain ⟨quote, queue, slothash, ixSysvar, rest, ha, hread⟩ := read_switchboard h
    obtain ⟨quote', queue', slothash', ixSysvar', rest', ha', hread'⟩ := read_switchboard h'
    obtain ⟨_, _, hv, -⟩ := Switchboard.readVerifiedPrice_eq_ok.mp hread
    obtain ⟨_, _, hv', -⟩ := Switchboard.readVerifiedPrice_eq_ok.mp hread'
    have hquote : quote = quote' := Chain.keyed_eq ha ha' (by simp) (by simp)
      (hv.quote_key.trans hv'.quote_key.symm)
    have hqueue : queue = queue' := Chain.keyed_eq ha ha' (by simp) (by simp)
      (hv.queue_key.trans hv'.queue_key.symm)
    have hslothash : slothash = slothash' := Chain.keyed_eq ha ha' (by simp) (by simp)
      (hv.slothash_key.trans hv'.slothash_key.symm)
    have hix : ixSysvar = ixSysvar' := Chain.keyed_eq ha ha' (by simp) (by simp)
      (hv.ixSysvar_key.trans hv'.ixSysvar_key.symm)
    subst hquote hqueue hslothash hix
    exact Except.ok.inj (hread.symm.trans hread')
  | scope config =>
    obtain ⟨prices, mappings, rest, ha, hread⟩ := read_scope h
    obtain ⟨prices', mappings', rest', ha', hread'⟩ := read_scope h'
    -- the mappings account only has to agree with the configuration: no price comes from it
    obtain ⟨hkey, rfl⟩ := Scope.readVerifiedPrice_price hread
    obtain ⟨hkey', rfl⟩ := Scope.readVerifiedPrice_price hread'
    have heq : prices = prices' := Chain.keyed_eq ha ha' (by simp) (by simp)
      (hkey.trans hkey'.symm)
    rw [heq]

theorem readLeg_pinned {w : World} (hw : w.ReadsChain V.providers chain) {leg leg' : OracleLeg}
    (hconfig : leg.config = leg'.config) (hpin : leg.config.Pinned)
    (h : DepositContext.readLeg w leg = .ok p) (h' : DepositContext.readLeg w leg' = .ok p') :
    p = p' :=
  ActiveOracleConfig.read_pinned hpin (read_of_readLeg hw rfl h)
    (hconfig ▸ read_of_readLeg hw rfl h')

end Leg

/-! ### What an amount is worth -/

/-- `amount` of `mint` is worth `value`: its pricing is the one registered in `w₀`, its legs are
read in `w₁`, from whatever accounts. -/
def Worth (rt : Runtime) (w₀ w₁ : World) (mint : Pubkey) (amount value : U64) : Prop :=
  ∃ (pricing : LegPricing) (basePrice : Option OraclePrice),
    pricing.PricedFor w₀ w₀.vault (assetAddress rt w₀.vaultKey mint).1 mint ∧
      (pricing.routed = true → ∃ leg p, w₀.vault.baseOracle.active = .ok leg.config ∧
        basePrice = some p ∧ DepositContext.readLeg w₁ leg = .ok p) ∧
      pricing.Valued w₁ w₀.vault basePrice amount value

/-- The legs that price `mint` are pinned: its own, and the base's where it is routed. -/
structure World.PinnedFor (rt : Runtime) (w : World) (mint : Pubkey) : Prop where
  asset : ∀ asset config, w.assets (assetAddress rt w.vaultKey mint).1 = some asset →
    asset.oracle.active = .ok config → config.Pinned
  base : ∀ asset config, w.assets (assetAddress rt w.vaultKey mint).1 = some asset →
    asset.routed = .ok true → w.vault.baseOracle.active = .ok config → config.Pinned

section Worth

variable {V : Switchboard.QuoteVerifier} {chain : Chain} {rt : Runtime} {w₀ w₁ : World}
  {mint : Pubkey} {amount value value' : U64}

/-- **Pinned legs leave one value.** -/
theorem Worth.unique (hw : w₁.ReadsChain V.providers chain) (hpin : w₀.PinnedFor rt mint)
    (h : Worth rt w₀ w₁ mint amount value) (h' : Worth rt w₀ w₁ mint amount value') :
    value = value' := by
  obtain ⟨pricing, basePrice, hpriced, hbase, hvalued⟩ := h
  obtain ⟨pricing', basePrice', hpriced', hbase', hvalued'⟩ := h'
  cases pricing with
  | base =>
    cases pricing' with
    | base => exact (show value = amount from hvalued).trans hvalued'.symm
    | asset decimals routed leg => exact absurd hpriced hpriced'.1
  | asset decimals routed leg =>
    cases pricing' with
    | base => exact absurd hpriced' hpriced.1
    | asset decimals' routed' leg' =>
      obtain ⟨-, asset, hasset, rfl, hrouted, hconfig⟩ := hpriced
      obtain ⟨-, asset', hasset', rfl, hrouted', hconfig'⟩ := hpriced'
      obtain rfl := Option.some.inj (hasset.symm.trans hasset')
      obtain rfl := Except.ok.inj (hrouted.symm.trans hrouted')
      obtain ⟨price, price₀, hreads, hprice₀, hvalue⟩ := hvalued
      obtain ⟨price', price₀', hreads', hprice₀', hvalue'⟩ := hvalued'
      have hprice : price = price' := readLeg_pinned hw
        (Except.ok.inj (hconfig.symm.trans hconfig')) (hpin.asset _ _ hasset hconfig) hreads hreads'
      have hprice₀ : price₀ = price₀' := by
        cases routed with
        | false => exact (show price₀ = .UNIT from hprice₀).trans hprice₀'.symm
        | true =>
          obtain ⟨baseLeg, p, hactive, rfl, hbaseReads⟩ := hbase rfl
          obtain ⟨baseLeg', p', hactive', rfl, hbaseReads'⟩ := hbase' rfl
          have hp : p = p' := readLeg_pinned hw
            (Except.ok.inj (hactive.symm.trans hactive')) (hpin.base _ _ hasset hrouted hactive)
            hbaseReads hbaseReads'
          exact (Option.some.inj hprice₀).symm.trans (hp.trans (Option.some.inj hprice₀'))
      rw [← hprice, ← hprice₀] at hvalue'
      exact Except.ok.inj (hvalue.symm.trans hvalue')

end Worth

/-! ### Deposits -/

section Deposit

variable {V : Switchboard.QuoteVerifier} {chain : Chain} {rt : Runtime} {w w₁ w₂ : World}
  {c : DepositContext} {args args' : DepositArgs} {accounts accounts' : List AccountInfo} {d : U64}

/-- A deposit of an asset found out whether it is routed. -/
theorem DepositContext.resolveAssetAtoms_routed {asset : Asset}
    (hasset : w.assets (assetAddress rt c.vaultAccount.key args.assetMint).1 = some asset)
    (h : c.resolveAssetAtoms rt w args = .ok d) : ∃ routed, asset.routed = .ok routed := by
  simp only [resolveAssetAtoms, parseBaseLeg, bind_eq_ok, Prod.exists, rejectIf_eq_ok, not_or,
    not_not] at h
  obtain ⟨a, _, -, asset', hload, _, ⟨hkey, -⟩, _, -, _, -, _, -, _, -, _, -, _, _, -, _,
    ⟨routed, hrouted, -⟩, -⟩ := h
  have hrecord := (loadAsset_eq_ok.mp hload).1
  rw [hkey, hasset] at hrecord
  obtain rfl := Option.some.inj hrecord
  exact ⟨routed, hrouted⟩

/-- A deposit is priced at what its amount is worth. -/
theorem DepositContext.resolveBaseAtoms_worth (hc : c.Loaded w)
    (h : c.resolveBaseAtoms rt w args = .ok d) : Worth rt w w args.assetMint args.amount d := by
  simp only [resolveBaseAtoms, bind_eq_ok] at h
  obtain ⟨_, -, h⟩ := h
  by_cases hmint : args.assetMint = c.vault.baseMint
  · rw [if_pos hmint] at h
    rw [hc.vault_eq] at hmint
    refine ⟨.base, none, hmint, ?_, (Except.ok.inj h).symm⟩
    intro hrouted
    cases hrouted
  · rw [if_neg hmint] at h
    obtain ⟨asset, leg, baseLeg, price, basePrice, hasset, hres⟩ := resolveAssetAtoms_spec h
    obtain ⟨routed, hrouted⟩ := resolveAssetAtoms_routed hasset h
    have hvalue := hres.value_eq
    rw [hc.vault_eq] at hmint hvalue
    rw [hc.key_eq] at hasset
    refine ⟨.asset asset.assetDecimals routed leg, some basePrice,
      ⟨hmint, asset, hasset, rfl, hrouted, hres.config_eq⟩, ?_, price, basePrice, hres.reads, ?_,
      hvalue⟩
    · rintro rfl
      obtain ⟨baseLeg, -, hactive, hreads⟩ := hres.routed hrouted
      rw [hc.vault_eq] at hactive
      exact ⟨baseLeg, basePrice, hactive, rfl, hreads⟩
    · cases routed with
      | false => exact hres.direct hrouted
      | true => rfl

/-- **A depositor does not choose the price.**  Two deposits of one amount of a mint whose legs
are pinned book the same assets and mint the same shares, whoever makes them and whatever
oracle accounts they hand in. -/
theorem deposit_priced_by_chain (hw : w.ReadsChain V.providers chain)
    (hpin : w.PinnedFor rt args.assetMint) (hmint : args'.assetMint = args.assetMint)
    (hamount : args'.amount = args.amount) (h : tryDeposit rt w accounts args = .ok w₁)
    (h' : tryDeposit rt w accounts' args' = .ok w₂) :
    w₁.vault = w₂.vault ∧ w₁.shareSupply = w₂.shareSupply := by
  obtain ⟨c, base, shares, hc, hbase, hd⟩ := tryDeposit_deposited h
  obtain ⟨c', base', shares', hc', hbase', hd'⟩ := tryDeposit_deposited h'
  have hworth := DepositContext.resolveBaseAtoms_worth (DepositContext.load_spec hc) hbase
  have hworth' := DepositContext.resolveBaseAtoms_worth (DepositContext.load_spec hc') hbase'
  rw [hmint, hamount] at hworth'
  have heq : base = base' := hworth.unique hw hpin hworth'
  have htotal : w₁.vault.totalAssets = w₂.vault.totalAssets :=
    BitVec.eq_of_toNat_eq (by rw [hd.total, hd'.total, heq])
  have hshares : shares.toNat = shares'.toNat := by
    obtain ⟨E, hE, hs⟩ := hd.priced
    obtain ⟨E', hE', hs'⟩ := hd'.priced
    obtain rfl : E = E' := Except.ok.inj (hE.symm.trans hE')
    rw [hs, hs', heq]
  refine ⟨?_, BitVec.eq_of_toNat_eq ?_⟩
  · rw [hd.vault, hd'.vault, htotal]
  · have hsupply := hd.supply
    have hsupply' := hd'.supply
    omega

namespace Sample

/-- A quote account is the value it quotes. -/
def quotes : Switchboard.QuoteVerifier where
  verifyAccount _ _ _ _ _ _ quote :=
    if quote.account.data.length = 16 then
      some ⟨fun _ => some (BitVec.ofNat 128 (leNat quote.account.data))⟩
    else none

def quoteKey : Pubkey := Vector.replicate 32 20

def queueKey : Pubkey := Vector.replicate 32 21

def quotedConfig : SwitchboardOracleConfig where
  quoteAccount := quoteKey
  queueAccount := queueKey
  feedId := Bytes.zero 32
  maxAgeSlots := 10
  priceDecimals := 0
  padding := Bytes.zero 7

/-- The asset by itself, open for deposits. -/
def quotedAsset : Asset :=
  { asset with
    oracle := .switchboard quotedConfig
    depositCapAtoms := 1000
    enabledFlag := 1 }

/-- The custodies, and an account that quotes two. -/
def quotedChain (base assets : U64) : Chain := fun key =>
  if key = quoteKey then ⟨SYSTEM_PROGRAM_ID, false, toLeBytes 16 (2 : BitVec 128)⟩
  else swapChain base assets key

def quotedHost : Host where
  transaction := routeHost.transaction
  invoke _ _ _ _ := .ok (quotedChain 4000 500)

/-- The user holds ten of the asset; prices are what the quotes on `chain` say. -/
def quotedRecords (chain : Chain) : World :=
  { routeWorld .swap with
    assets := fun key => if key = assetKey then some quotedAsset else none
    ledger :=
      ((routeWorld .swap).ledger.setAccount userBase (tokenAccount assetMint user 10)).setAccount
        depositCustody (tokenAccount assetMint subAccount 0)
    prices := fun config keys clock => config.read quotes.providers (chain.keyed keys) clock }

/-- A deposit of the asset that hands in `legs`. -/
def quotedDeposit (legs : List AccountInfo) : List AccountInfo :=
  [signer user, writable vaultKey, writable userBase, writable depositCustody, writable userShares,
    writable shareMint, readonly TOKEN_PROGRAM_ID, readonly TOKEN_PROGRAM_ID, readonly assetKey]
    ++ legs

/-- The accounts of the asset's leg. -/
def quoteLeg : List AccountInfo :=
  [readonly quoteKey, readonly queueKey, readonly Switchboard.SLOT_HASHES_ID,
    readonly INSTRUCTIONS_SYSVAR_ID]

theorem quotedRecords_reads (chain : Chain) :
    (quotedRecords chain).ReadsChain quotes.providers chain := fun _ _ _ => rfl

theorem quotedRecords_pinned (rt : Runtime) (chain : Chain) (mint : Pubkey) :
    (quotedRecords chain).PinnedFor rt mint := by
  have hasset : ∀ {key : Pubkey} {a : Asset}, (quotedRecords chain).assets key = some a →
      a = quotedAsset := by
    intro key a ha
    rw [show (quotedRecords chain).assets key = if key = assetKey then some quotedAsset else none
      from rfl] at ha
    split at ha
    · exact (Option.some.inj ha).symm
    · cases ha
  constructor
  · intro a config ha hconfig
    rw [hasset ha] at hconfig
    cases hconfig
    trivial
  · intro a config ha hrouted
    rw [hasset ha] at hrouted
    cases hrouted

end Sample

/-- Ten of the asset mint the same shares to two callers, one with accounts to spare. -/
theorem deposit_priced_by_chain_quoted :
    ∃ w₁ w₂, tryDeposit Sample.pricedRuntime (Sample.quotedRecords (Sample.quotedChain 0 0))
        (Sample.quotedDeposit Sample.quoteLeg) Sample.pricedArgs = .ok w₁ ∧
      tryDeposit Sample.pricedRuntime (Sample.quotedRecords (Sample.quotedChain 0 0))
        (Sample.quotedDeposit (Sample.quoteLeg ++ [Sample.signer Sample.admin])) Sample.pricedArgs
          = .ok w₂ ∧
      w₁.vault = w₂.vault ∧ w₁.shareSupply = w₂.shareSupply :=
  ⟨_, _, eq_okValue (by decide +kernel), eq_okValue (by decide +kernel),
    deposit_priced_by_chain (Sample.quotedRecords_reads _) (Sample.quotedRecords_pinned _ _ _) rfl
      rfl (eq_okValue _) (eq_okValue _)⟩

end Deposit

/-! ### Swaps -/

section Swap

variable {V : Switchboard.QuoteVerifier} {rt : Runtime} {host : Host} {records : Chain → World}
  {before after : Chain} {accounts : List AccountInfo} {args : SwapArgs} {c : SwapContext}

theorem SwapContext.load_vaultKey (h : SwapContext.load rt records before accounts args = .ok c) :
    c.vaultKey = (records before).vaultKey := by
  revert h
  simp only [SwapContext.load, bind_ok_imp, Prod.forall, Except.ok.injEq]
  rintro _ _ - _ _ - vault hvault _ - _ - _ _ - _ - _ _ - _ _ - _ - _ _ - _ - _ - _ - _ _ - rfl
  exact (loadChecked_eq_ok hvault).2.1

/-- What a swap's valuation finds is what the amounts are worth. -/
theorem SwapValuation.values_worth {w₀ w₁ : World} {v : SwapValuation}
    {inputMint outputMint : Pubkey} {rest : List AccountInfo} {spent received vs vr : U64}
    (hparse : SwapValuation.parse rt w₀ w₀.vault w₀.vaultKey inputMint outputMint accounts
      = .ok (v, rest))
    (hvalues : v.values w₁ w₀.vault spent received = .ok (vs, vr)) :
    Worth rt w₀ w₁ inputMint spent vs ∧ Worth rt w₀ w₁ outputMint received vr := by
  obtain ⟨hinput, houtput, hrouted⟩ := SwapValuation.parse_spec hparse
  obtain ⟨basePrice, hbase, hvs, hvr⟩ := SwapValuation.values_spec hvalues
  have hleg : v.input.routed = true ∨ v.output.routed = true →
      ∃ leg p, w₀.vault.baseOracle.active = .ok leg.config ∧ basePrice = some p ∧
        DepositContext.readLeg w₁ leg = .ok p := by
    intro hor
    obtain ⟨leg, hleg, hactive⟩ := hrouted hor
    obtain ⟨p, hp, hreads⟩ := hbase leg hleg
    exact ⟨leg, p, hactive, hp, hreads⟩
  exact ⟨⟨v.input, basePrice, hinput, fun h => hleg (.inl h), hvs⟩,
    ⟨v.output, basePrice, houtput, fun h => hleg (.inr h), hvr⟩⟩

/-- **A swap authority does not choose the prices.**  Under a slippage control of `m` basis
points and with pinned legs, whatever can be said to be the worth of what was received is at
least the tolerated share of whatever can be said to be the worth of what was spent. -/
theorem swap_priced_by_chain (hw : (records after).ReadsChain V.providers after)
    (h : trySwap rt host records before accounts args = .ok after)
    (hm : 0 < (records before).vault.controls.maxSwapSlippageBps.toNat) :
    ∃ c flow inputMint outputMint,
      SwapContext.load rt records before accounts args = .ok c ∧
      executeSwapCpi rt host before c args = .ok flow ∧
      (before c.inputCustody.key).tokenAccountMint = .ok inputMint ∧
      (before c.outputCustody.key).tokenAccountMint = .ok outputMint ∧
      ((records before).PinnedFor rt inputMint → (records before).PinnedFor rt outputMint →
        ∀ vs vr, Worth rt (records before) (records after) inputMint flow.spent vs →
          Worth rt (records before) (records after) outputMint flow.received vr →
          vs.toNat * (10000 - (records before).vault.controls.maxSwapSlippageBps.toNat) ≤
            10000 * vr.toNat) := by
  simp only [trySwap, bind_eq_ok, Except.ok.injEq] at h
  obtain ⟨c, hload, flow, hflow, _, hcheck, rfl⟩ := h
  have hvault := SwapContext.load_vault hload
  rw [← hvault] at hm
  obtain ⟨inputMint, outputMint, v, _, _, hv, hin, hout, hparse⟩ :=
    SwapContext.load_valuation hload hm
  obtain ⟨-, vs, vr, hvalues, hbound⟩ := verifySwapValue_spec hv hcheck
  rw [hvault, SwapContext.load_vaultKey hload] at hparse
  rw [hvault] at hvalues hbound
  obtain ⟨hspent, hreceived⟩ := SwapValuation.values_worth hparse hvalues
  refine ⟨c, flow, inputMint, outputMint, hload, hflow, hin, hout, ?_⟩
  intro hpinIn hpinOut vs' vr' hspent' hreceived'
  rw [← hspent.unique hw hpinIn hspent', ← hreceived.unique hw hpinOut hreceived']
  exact hbound

/-- A route that sells 1000 of the base for 500 of the asset, priced by the quotes. -/
def Sample.quotedSwap : List AccountInfo :=
  [signer admin, readonly vaultKey, readonly subAccount, writable custody, writable assetCustody,
    readonly routeKey, readonly assetKey] ++ quoteLeg ++
  [writable custody, writable assetCustody, writable siblingCustody, writable siblingCustody,
    readonly routeProgram]

theorem swap_priced_by_chain_sale :
    ∃ after c flow inputMint outputMint,
      trySwap Sample.swapRuntime Sample.quotedHost Sample.quotedRecords (Sample.quotedChain 5000 0)
        Sample.quotedSwap Sample.swapArgs = .ok after ∧
      executeSwapCpi Sample.swapRuntime Sample.quotedHost (Sample.quotedChain 5000 0) c Sample.swapArgs
        = .ok flow ∧
      ∀ vs vr, Worth Sample.swapRuntime (Sample.quotedRecords (Sample.quotedChain 5000 0))
          (Sample.quotedRecords after) inputMint flow.spent vs →
        Worth Sample.swapRuntime (Sample.quotedRecords (Sample.quotedChain 5000 0))
          (Sample.quotedRecords after) outputMint flow.received vr →
        vs.toNat * (10000 - 100) ≤ 10000 * vr.toNat := by
  have hok : (trySwap Sample.swapRuntime Sample.quotedHost Sample.quotedRecords
      (Sample.quotedChain 5000 0) Sample.quotedSwap Sample.swapArgs).isOk = true := by
    decide +kernel
  obtain ⟨c, flow, inputMint, outputMint, -, hflow, -, -, hbound⟩ :=
    swap_priced_by_chain (Sample.quotedRecords_reads _) (eq_okValue hok) (by decide +kernel)
  exact ⟨_, c, flow, inputMint, outputMint, eq_okValue hok, hflow,
    hbound (Sample.quotedRecords_pinned _ _ _) (Sample.quotedRecords_pinned _ _ _)⟩

end Swap

end Roshi
