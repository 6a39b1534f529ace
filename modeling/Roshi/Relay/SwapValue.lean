import Roshi.Oracle.Leg
import Roshi.Relay.Swap

/-!
# What a swap's endpoints are worth

`SwapValuation::values` reads the base leg first and then each endpoint's own leg, a deposit
reads the asset's leg and then the base leg.  Both go through one session, where a price is
what its leg reads whatever was read before, so for one mint and the same oracle accounts
the two agree (`one_price_per_feed`).
-/

namespace Roshi

open Lib

/-! ### What an endpoint reads -/

theorem readsByKey_readLeg (w : World) :
    OracleReadSession.ReadsByKey (DepositContext.readLeg w) := by
  intro l l' hconfig hkeys
  show w.prices l.config l.keys w.clock = w.prices l'.config l'.keys w.clock
  rw [hconfig, hkeys]

theorem OracleLeg.parse_config {oracle : OracleConfig} {accounts rest : List AccountInfo}
    {leg : OracleLeg} (h : OracleLeg.parse oracle accounts = .ok (leg, rest)) :
    oracle.active = .ok leg.config := by
  simp only [OracleLeg.parse, bind_eq_ok, mapError_eq_ok, Except.ok.injEq, Prod.mk.injEq] at h
  obtain ⟨config, hconfig, _, -, rfl, -⟩ := h
  exact hconfig

namespace LegPricing

/-- The pricing of `mint`: one to one for the base mint, by its registration for another. -/
def PricedFor (w : World) (vault : Vault) (assetKey mint : Pubkey) : LegPricing → Prop
  | base => mint = vault.baseMint
  | asset assetDecimals routed oracle => mint ≠ vault.baseMint ∧ ∃ record : Asset,
      w.assets assetKey = some record ∧ record.assetDecimals = assetDecimals ∧
        record.routed = .ok routed ∧ record.oracle.active = .ok oracle.config

theorem parse_spec {rt : Runtime} {w : World} {vault : Vault} {vaultKey mint : Pubkey}
    {accounts rest : List AccountInfo} {pricing : LegPricing}
    (h : LegPricing.parse rt w vault vaultKey mint accounts = .ok (pricing, rest)) :
    pricing.PricedFor w vault (assetAddress rt vaultKey mint).1 mint := by
  rw [LegPricing.parse] at h
  by_cases hbase : mint = vault.baseMint
  · rw [if_pos hbase] at h
    cases h
    exact hbase
  · rw [if_neg hbase] at h
    simp only [bind_eq_ok, Prod.exists, rejectIf_eq_ok, not_not, mapError_eq_ok,
      loadAsset_eq_ok, Except.ok.injEq, Prod.mk.injEq] at h
    obtain ⟨a, _, -, _, hkey, record, ⟨hrecord, -⟩, routed, hrouted, leg, _, hleg, rfl, -⟩ := h
    rw [hkey] at hrecord
    exact ⟨hbase, record, hrecord, rfl, hrouted, OracleLeg.parse_config hleg⟩

/-- The endpoint is worth `value`: the base mint its amount, an asset what it reads over the
shared base price, which is one for a direct feed. -/
def Valued (w : World) (vault : Vault) (basePrice : Option OraclePrice) (amount value : U64) :
    LegPricing → Prop
  | base => value = amount
  | asset assetDecimals routed oracle => ∃ assetPrice price,
      DepositContext.readLeg w oracle = .ok assetPrice ∧
        (if routed then basePrice = some price else price = .UNIT) ∧
        baseAtomsFromAssetAtoms amount assetPrice price assetDecimals vault.baseDecimals = .ok value

variable {w : World} {vault : Vault} {session session' : OracleReadSession} {pricing : LegPricing}
  {assetPrice basePrice : Option OraclePrice} {amount value : U64}

/-- The endpoint's own read, in a session with room for it. -/
theorem readAssetPrice_spec (hs : OracleReadSession.Verified (DepositContext.readLeg w) session)
    (hlen : session.length < 3)
    (h : pricing.readAssetPrice w session = .ok (assetPrice, session')) :
    OracleReadSession.Verified (DepositContext.readLeg w) session' ∧
      session'.length ≤ session.length + 1 ∧
      ∀ d r leg, pricing = .asset d r leg →
        ∃ p, assetPrice = some p ∧ DepositContext.readLeg w leg = .ok p := by
  cases pricing with
  | base =>
    cases h
    exact ⟨hs, Nat.le_succ _, nofun⟩
  | asset d r leg =>
    simp only [readAssetPrice, bind_eq_ok, Prod.exists,
      OracleReadSession.read_eq_ok (readsByKey_readLeg w) hs hlen, Except.ok.injEq,
      Prod.mk.injEq] at h
    obtain ⟨p, _, ⟨-, hp, rfl⟩, rfl, rfl⟩ := h
    refine ⟨hs.append hp, by simp, ?_⟩
    rintro d' r' leg' heq
    cases heq
    exact ⟨p, rfl, hp⟩

theorem valueInBaseAtoms_spec
    (hread : ∀ d r leg, pricing = .asset d r leg →
      ∃ p, assetPrice = some p ∧ DepositContext.readLeg w leg = .ok p)
    (h : pricing.valueInBaseAtoms vault amount assetPrice basePrice = .ok value) :
    pricing.Valued w vault basePrice amount value := by
  cases pricing with
  | base =>
    cases h
    rfl
  | asset d routed leg =>
    obtain ⟨p, hp, hreads⟩ := hread d routed leg rfl
    rw [valueInBaseAtoms, hp, okOr_some, ok_bind] at h
    cases routed with
    | true =>
      simp only [if_true, bind_eq_ok, okOr_eq_ok, into_eq_ok] at h
      obtain ⟨q, hq, hvalue⟩ := h
      exact ⟨p, q, hreads, hq, hvalue⟩
    | false => exact ⟨p, .UNIT, hreads, rfl, into_eq_ok.mp h⟩

end LegPricing

namespace SwapValuation

variable {w : World} {vault : Vault} {v : SwapValuation} {spent received vs vr : U64}

/-- **The two values, at one base price.** -/
theorem values_spec (h : v.values w vault spent received = .ok (vs, vr)) :
    ∃ basePrice, (∀ leg, v.baseLeg = some leg →
        ∃ p, basePrice = some p ∧ DepositContext.readLeg w leg = .ok p) ∧
      v.input.Valued w vault basePrice spent vs ∧
      v.output.Valued w vault basePrice received vr := by
  simp only [values, bind_eq_ok, Prod.exists, Except.ok.injEq, Prod.mk.injEq] at h
  obtain ⟨basePrice, s₀, hbase, inputPrice, s₁, hin, outputPrice, s₂, hout, _, hvs, _, hvr, rfl,
    rfl⟩ := h
  have hfirst : OracleReadSession.Verified (DepositContext.readLeg w) s₀ ∧ s₀.length ≤ 1 ∧
      ∀ leg, v.baseLeg = some leg →
        ∃ p, basePrice = some p ∧ DepositContext.readLeg w leg = .ok p := by
    rw [readBasePrice] at hbase
    cases hleg : v.baseLeg with
    | none =>
      rw [hleg] at hbase
      cases hbase
      refine ⟨OracleReadSession.verified_nil, Nat.zero_le _, ?_⟩
      intro leg h
      cases h
    | some leg =>
      rw [hleg] at hbase
      simp only [bind_eq_ok, Prod.exists, OracleReadSession.read_nil_eq_ok (readsByKey_readLeg w),
        Except.ok.injEq, Prod.mk.injEq] at hbase
      obtain ⟨p, _, ⟨hp, rfl⟩, rfl, rfl⟩ := hbase
      refine ⟨OracleReadSession.verified_nil.append hp, le_refl 1, ?_⟩
      rintro leg' heq
      cases heq
      exact ⟨p, rfl, hp⟩
  obtain ⟨hs₀, hlen₀, hleg⟩ := hfirst
  obtain ⟨hs₁, hlen₁, hinput⟩ := LegPricing.readAssetPrice_spec hs₀ (by omega) hin
  obtain ⟨-, -, houtput⟩ := LegPricing.readAssetPrice_spec hs₁ (by omega) hout
  exact ⟨basePrice, hleg, LegPricing.valueInBaseAtoms_spec hinput hvs,
    LegPricing.valueInBaseAtoms_spec houtput hvr⟩

/-- Both endpoints are priced for their mints, and a routed one has the vault's base leg. -/
theorem parse_spec {rt : Runtime} {vaultKey inputMint outputMint : Pubkey}
    {accounts rest : List AccountInfo}
    (h : SwapValuation.parse rt w vault vaultKey inputMint outputMint accounts = .ok (v, rest)) :
    v.input.PricedFor w vault (assetAddress rt vaultKey inputMint).1 inputMint ∧
      v.output.PricedFor w vault (assetAddress rt vaultKey outputMint).1 outputMint ∧
      (v.input.routed = true ∨ v.output.routed = true →
        ∃ leg, v.baseLeg = some leg ∧ vault.baseOracle.active = .ok leg.config) := by
  simp only [SwapValuation.parse, bind_eq_ok, Prod.exists] at h
  obtain ⟨input, _, hin, output, _, hout, h⟩ := h
  by_cases hrouted : (input.routed || output.routed) = true
  · rw [if_pos hrouted] at h
    simp only [bind_eq_ok, Prod.exists, Except.ok.injEq, Prod.mk.injEq] at h
    obtain ⟨leg, _, hleg, rfl, -⟩ := h
    exact ⟨LegPricing.parse_spec hin, LegPricing.parse_spec hout,
      fun _ => ⟨leg, rfl, OracleLeg.parse_config hleg⟩⟩
  · rw [if_neg hrouted] at h
    cases h
    refine ⟨LegPricing.parse_spec hin, LegPricing.parse_spec hout, ?_⟩
    intro hor
    exact absurd (Bool.or_eq_true_iff.mpr hor) hrouted

end SwapValuation

/-! ### A deposit of the same mint -/

namespace DepositContext

variable {rt : Runtime} {w : World} {c : DepositContext} {args : DepositArgs} {d : U64}

/-- The legs a deposit is handed: the asset's, and the base's for a routed asset. -/
def legs (w : World) (c : DepositContext) : ProgramResult (OracleLeg × Option OracleLeg) := do
  let (assetAccount, oracleAccounts) ← nextAccount c.extra
  let asset ← w.loadAsset assetAccount
  let (assetLeg, remaining) ← OracleLeg.parse asset.oracle oracleAccounts
  let baseLeg ← parseBaseLeg c asset remaining
  .ok (assetLeg, baseLeg)

/-- What a deposit of an asset is worth. -/
structure Resolved (w : World) (c : DepositContext) (args : DepositArgs) (asset : Asset) (d : U64)
    (assetLeg : OracleLeg) (baseLeg : Option OracleLeg) (assetPrice basePrice : OraclePrice) :
    Prop where
  legs_eq : c.legs w = .ok (assetLeg, baseLeg)
  config_eq : asset.oracle.active = .ok assetLeg.config
  reads : readLeg w assetLeg = .ok assetPrice
  direct : asset.routed = .ok false → basePrice = .UNIT
  routed : asset.routed = .ok true → ∃ leg, baseLeg = some leg ∧
    c.vault.baseOracle.active = .ok leg.config ∧ readLeg w leg = .ok basePrice
  value_eq : baseAtomsFromAssetAtoms args.amount assetPrice basePrice asset.assetDecimals
    c.vault.baseDecimals = .ok d

theorem resolveAssetAtoms_spec (h : c.resolveAssetAtoms rt w args = .ok d) :
    ∃ asset assetLeg baseLeg assetPrice basePrice,
      w.assets (assetAddress rt c.vaultAccount.key args.assetMint).1 = some asset ∧
        Resolved w c args asset d assetLeg baseLeg assetPrice basePrice := by
  simp only [resolveAssetAtoms, bind_eq_ok, Prod.exists, rejectIf_eq_ok, not_or, not_not,
    OracleReadSession.read_nil_eq_ok (readsByKey_readLeg w), into_eq_ok] at h
  obtain ⟨a, oracleAccounts, hnext, asset, hload, _, ⟨hkey, -⟩, _, -, _, -, _, -, _, -, _, -,
    assetLeg, remaining, hparse, baseLeg, hbaseLeg, assetPrice, _, ⟨hreads, rfl⟩, basePrice,
    hbasePrice, hvalue⟩ := h
  have hrecord := (loadAsset_eq_ok.mp hload).1
  rw [hkey] at hrecord
  refine ⟨asset, assetLeg, baseLeg, assetPrice, basePrice, hrecord, ?_,
    OracleLeg.parse_config hparse, hreads, ?_, ?_, hvalue⟩
  · simp only [legs, hnext, hload, hparse, hbaseLeg, ok_bind]
  · intro hrouted
    rw [parseBaseLeg, hrouted] at hbaseLeg
    cases hbaseLeg
    cases hbasePrice
    rfl
  · intro hrouted
    rw [parseBaseLeg, hrouted] at hbaseLeg
    simp only [ok_bind, if_true, bind_eq_ok, Prod.exists, Except.ok.injEq] at hbaseLeg
    obtain ⟨leg, _, hleg, rfl⟩ := hbaseLeg
    have hsession : OracleReadSession.Verified (readLeg w) [⟨assetLeg, assetPrice⟩] :=
      OracleReadSession.verified_nil.append hreads
    simp only [readBasePrice, bind_eq_ok, Prod.exists, Except.ok.injEq,
      OracleReadSession.read_eq_ok (readsByKey_readLeg w) hsession
        (show [_].length < 3 from Nat.le_succ 2)] at hbasePrice
    obtain ⟨p, _, ⟨-, hp, -⟩, rfl⟩ := hbasePrice
    exact ⟨leg, rfl, OracleLeg.parse_config hleg, hp⟩

/-- **A deposit through Scope is priced at a verified entry**, and is worth the exact floor at
its price. -/
theorem resolveAssetAtoms_scope {P : Providers} {chain : Chain} {config : ScopeOracleConfig}
    {asset : Asset} (hw : w.ReadsChain P chain)
    (hasset : w.assets (assetAddress rt c.vaultAccount.key args.assetMint).1 = some asset)
    (hscope : asset.oracle.active = .ok (.scope config))
    (h : c.resolveAssetAtoms rt w args = .ok d) :
    ∃ prices mappings basePrice,
      Scope.ScopeVerified config prices mappings w.clock.unixTimestamp ∧
        d.toNat = exactBaseAtoms args.amount
          (Scope.priceAt prices.account.data config.priceIndex.toNat).price basePrice
          asset.assetDecimals c.vault.baseDecimals ∧
        (asset.routed = .ok false → basePrice = .UNIT) := by
  obtain ⟨asset', assetLeg, baseLeg, assetPrice, basePrice, hasset', hres⟩ :=
    resolveAssetAtoms_spec h
  obtain rfl : asset = asset' := Option.some.inj (hasset.symm.trans hasset')
  have hconfig : assetLeg.config = .scope config :=
    Except.ok.inj (hres.config_eq.symm.trans hscope)
  obtain ⟨prices, mappings, -, -, hverified, rfl⟩ := readLeg_scope hw hconfig hres.reads
  exact ⟨prices, mappings, basePrice, hverified,
    (baseAtomsFromAssetAtoms_eq_ok.mp hres.value_eq).2, hres.direct⟩

end DepositContext

/-- The addresses an endpoint's own leg is read from. -/
def LegPricing.oracleKeys : LegPricing → List Pubkey
  | base => []
  | asset _ _ oracle => oracle.keys

/-- A deposit and an endpoint of a swap are handed the same oracle accounts. -/
structure SuppliedAlike (w : World) (c : DepositContext) (v : SwapValuation)
    (endpoint : LegPricing) : Prop where
  asset : ∀ assetLeg baseLeg, c.legs w = .ok (assetLeg, baseLeg) →
    endpoint.oracleKeys = assetLeg.keys
  base : ∀ assetLeg leg leg', c.legs w = .ok (assetLeg, some leg) → v.baseLeg = some leg' →
    leg'.keys = leg.keys

section Agreement

variable {rt : Runtime} {w w₀ w₁ : World} {c : DepositContext} {args : DepositArgs} {d : U64}
  {v : SwapValuation} {endpoint : LegPricing} {basePrice : Option OraclePrice} {value : U64}

theorem readLeg_congr (hprices : w₁.prices = w.prices) (hclock : w₁.clock = w.clock)
    {leg leg' : OracleLeg} (hconfig : leg.config = leg'.config) (hkeys : leg.keys = leg'.keys) :
    DepositContext.readLeg w₁ leg = DepositContext.readLeg w leg' := by
  show w₁.prices leg.config leg.keys w₁.clock = w.prices leg'.config leg'.keys w.clock
  rw [hprices, hclock, hconfig, hkeys]

/-- **One mint is worth the same** to a deposit and to an endpoint of a swap. -/
theorem Valued.eq_deposit (hdeposit : c.resolveBaseAtoms rt w args = .ok d)
    (hassets : w₀.assets = w.assets) (hprices : w₁.prices = w.prices)
    (hclock : w₁.clock = w.clock)
    (hpriced : endpoint.PricedFor w₀ c.vault
      (assetAddress rt c.vaultAccount.key args.assetMint).1 args.assetMint)
    (hbase : endpoint.routed = true →
      ∃ leg p, v.baseLeg = some leg ∧ c.vault.baseOracle.active = .ok leg.config ∧
        basePrice = some p ∧ DepositContext.readLeg w₁ leg = .ok p)
    (hvalued : endpoint.Valued w₁ c.vault basePrice args.amount value)
    (halike : SuppliedAlike w c v endpoint) : value = d := by
  simp only [DepositContext.resolveBaseAtoms, bind_eq_ok] at hdeposit
  obtain ⟨_, -, hdeposit⟩ := hdeposit
  cases endpoint with
  | base =>
    rw [if_pos (show args.assetMint = c.vault.baseMint from hpriced)] at hdeposit
    exact (show value = args.amount from hvalued).trans (Except.ok.inj hdeposit)
  | asset assetDecimals routed oracle =>
    obtain ⟨hmint, record, hrecord, rfl, hrouted, hconfig⟩ := hpriced
    rw [if_neg hmint] at hdeposit
    obtain ⟨asset, assetLeg, baseLeg, assetPrice, dBase, hasset, hres⟩ :=
      DepositContext.resolveAssetAtoms_spec hdeposit
    rw [hassets, hasset] at hrecord
    obtain rfl := Option.some.inj hrecord
    obtain ⟨assetPrice', price, hreads, hprice, hvalue⟩ := hvalued
    have hassetPrice : assetPrice' = assetPrice := by
      have hleg : oracle.config = assetLeg.config :=
        Except.ok.inj (hconfig.symm.trans hres.config_eq)
      rw [readLeg_congr hprices hclock hleg (halike.asset _ _ hres.legs_eq), hres.reads] at hreads
      exact (Except.ok.inj hreads).symm
    have hbasePrice : price = dBase := by
      cases routed with
      | false => exact (show price = .UNIT from hprice).trans (hres.direct hrouted).symm
      | true =>
        obtain ⟨leg, rfl, hactive, hdBase⟩ := hres.routed hrouted
        obtain ⟨leg', p, hleg', hactive', hp, hreads'⟩ := hbase rfl
        have hleg : leg'.config = leg.config := Except.ok.inj (hactive'.symm.trans hactive)
        rw [readLeg_congr hprices hclock hleg (halike.base _ _ _ hres.legs_eq hleg'), hdBase]
          at hreads'
        have hpp : p = price := Option.some.inj (hp.symm.trans hprice)
        exact hpp.symm.trans (Except.ok.inj hreads').symm
    rw [hassetPrice, hbasePrice, hres.value_eq] at hvalue
    exact (Except.ok.inj hvalue).symm

end Agreement

/-- **One verified price per feed, in whatever order the legs are read.**  Of at most three
legs read through one session: when all reads succeed each price is the leg's own read, and
legs of one feed share configuration, accounts and price; neither success nor a price depends
on the order; each read finds a free slot.  So a deposit and an endpoint of a swap, of one
mint and with the same oracle accounts, are valued alike. -/
theorem one_price_per_feed (w : World) :
    (∀ legs : List OracleLeg, legs.length ≤ 3 →
      (∀ prices session,
        OracleReadSession.readAll (DepositContext.readLeg w) [] legs = .ok (prices, session) →
        List.Forall₂ (fun l p => DepositContext.readLeg w l = .ok p) legs prices ∧
        ∀ x ∈ legs.zip prices, ∀ y ∈ legs.zip prices, feedKey x.1.config = feedKey y.1.config →
          x.1.config = y.1.config ∧ x.1.keys = y.1.keys ∧ x.2 = y.2) ∧
      (∀ legs', legs.Perm legs' →
        ((∃ r, OracleReadSession.readAll (DepositContext.readLeg w) [] legs = .ok r) ↔
          ∃ r, OracleReadSession.readAll (DepositContext.readLeg w) [] legs' = .ok r) ∧
        ∀ prices session prices' session',
          OracleReadSession.readAll (DepositContext.readLeg w) [] legs = .ok (prices, session) →
          OracleReadSession.readAll (DepositContext.readLeg w) [] legs' = .ok (prices', session') →
          (legs.zip prices).Perm (legs'.zip prices')) ∧
      ∀ before leg after prices session, legs = before ++ leg :: after →
        OracleReadSession.readAll (DepositContext.readLeg w) [] before = .ok (prices, session) →
        session.length < 3) ∧
    ∀ (rt : Runtime) (c : DepositContext) (args : DepositArgs) (d : U64) (w₀ w₁ : World)
      (inputMint outputMint : Pubkey) (accounts rest : List AccountInfo) (v : SwapValuation)
      (spent received vs vr : U64),
      w₀.assets = w.assets → w₁.prices = w.prices → w₁.clock = w.clock →
      c.resolveBaseAtoms rt w args = .ok d →
      SwapValuation.parse rt w₀ c.vault c.vaultAccount.key inputMint outputMint accounts
        = .ok (v, rest) →
      v.values w₁ c.vault spent received = .ok (vs, vr) →
      (args.assetMint = inputMint → args.amount = spent → SuppliedAlike w c v v.input → vs = d) ∧
      (args.assetMint = outputMint → args.amount = received → SuppliedAlike w c v v.output →
        vr = d) := by
  have hread := readsByKey_readLeg w
  refine ⟨?_, ?_⟩
  · intro legs hlen
    refine ⟨?_, ?_, ?_⟩
    · intro prices session h
      exact ⟨((OracleReadSession.readAll_nil_eq_ok hread hlen).mp h).1,
        OracleReadSession.readAll_same_feed hread hlen h⟩
    · intro legs' hperm
      refine ⟨OracleReadSession.exists_readAll_iff_of_perm hread hlen hperm, ?_⟩
      intro prices session prices' session' h h'
      obtain ⟨prices'', session'', h'', hzip⟩ := OracleReadSession.readAll_perm hread hlen hperm h
      cases h''.symm.trans h'
      exact hzip
    · rintro before leg after prices session rfl h
      rw [List.length_append, List.length_cons] at hlen
      rw [OracleReadSession.readAll_length hread (by omega) h]
      omega
  · intro rt c args d w₀ w₁ inputMint outputMint accounts rest v spent received vs vr hassets
      hprices hclock hdeposit hparse hvalues
    obtain ⟨hinput, houtput, hrouted⟩ := SwapValuation.parse_spec hparse
    obtain ⟨basePrice, hbase, hvs, hvr⟩ := SwapValuation.values_spec hvalues
    have hleg : v.input.routed = true ∨ v.output.routed = true →
        ∃ leg p, v.baseLeg = some leg ∧ c.vault.baseOracle.active = .ok leg.config ∧
          basePrice = some p ∧ DepositContext.readLeg w₁ leg = .ok p := by
      intro hor
      obtain ⟨leg, hleg, hactive⟩ := hrouted hor
      obtain ⟨p, hp, hreads⟩ := hbase leg hleg
      exact ⟨leg, p, hleg, hactive, hp, hreads⟩
    refine ⟨?_, ?_⟩
    · rintro rfl rfl halike
      exact Valued.eq_deposit hdeposit hassets hprices hclock hinput (fun h => hleg (.inl h)) hvs
        halike
    · rintro rfl rfl halike
      exact Valued.eq_deposit hdeposit hassets hprices hclock houtput (fun h => hleg (.inr h)) hvr
        halike

namespace Sample

/-- The associated token account of `subAccount` and `assetMint`, bump 254. -/
def depositCustody : Pubkey :=
  #v[199, 222, 198, 56, 156, 137, 237, 83, 22, 142, 17, 15, 240, 254, 103, 99, 0, 189, 48, 123,
    223, 86, 20, 183, 92, 132, 213, 41, 83, 40, 163, 17]

def pricedRuntime : Runtime where
  findProgramAddress seeds program :=
    if seeds = [subAccount.toList, TOKEN_PROGRAM_ID.toList, assetMint.toList] then
      (depositCustody, 254)
    else swapRuntime.findProgramAddress seeds program
  hashv := swapRuntime.hashv

/-- A Pyth leg with a confidence bound of one basis point. -/
def pythOracle : OracleConfig where
  legs := (Bytes.zero 192).set 184 1
  kind := 1

/-- The asset, routed and open for deposits. -/
def routedAsset : Asset :=
  { asset with
    oracle := pythOracle
    depositCapAtoms := 1000
    enabledFlag := 1
    routedFlag := 1 }

/-- The asset quotes at 6 and the base at 3. -/
def pricedWorld : World :=
  { routeWorld .swap with
    assets := fun key => if key = assetKey then some routedAsset else none
    ledger :=
      { accounts := fun key =>
          if key = depositCustody then some (tokenAccount assetMint subAccount 0) else none
        mints := fun _ => none }
    prices := fun config _ _ =>
      match config with
      | .pyth _ => .ok ⟨6, 0⟩
      | _ => .ok ⟨3, 0⟩ }

def assetLeg : OracleLeg := ⟨.pyth pythOracle.pythConfig, [readonly user]⟩

def baseLeg : OracleLeg :=
  ⟨.switchboard OracleConfig.default.switchboardConfig, List.replicate 4 (readonly admin)⟩

def pricedContext : DepositContext where
  depositor := signer user
  vaultAccount := writable vaultKey
  source := writable userBase
  custody := writable depositCustody
  shareDest := writable userShares
  shareMint := writable shareMint
  shareTokenProgram := readonly TOKEN_PROGRAM_ID
  assetTokenProgram := readonly TOKEN_PROGRAM_ID
  extra := readonly assetKey :: assetLeg.accounts ++ baseLeg.accounts
  vault := pricedWorld.vault

def pricedArgs : DepositArgs where
  assetMint := assetMint
  amount := 10
  minSharesOut := 0
  accessProof := []

/-- The asset against the base, the asset's leg and then the shared base leg. -/
def pricedValuation : SwapValuation where
  input := .asset 6 true assetLeg
  output := .base
  baseLeg := some baseLeg

theorem suppliedAlike_input : SuppliedAlike pricedWorld pricedContext pricedValuation
    pricedValuation.input := by
  have hlegs : pricedContext.legs pricedWorld = .ok (assetLeg, some baseLeg) := rfl
  constructor
  · intro assetLeg' baseLeg' h
    cases hlegs.symm.trans h
    rfl
  · intro assetLeg' leg leg' h h'
    cases hlegs.symm.trans h
    cases h'
    rfl

end Sample

/-- Ten of the asset are worth twenty of the base, deposited or sold, and the asset's feed read
twice around the base's has one price. -/
theorem one_price_per_feed_routed :
    (∃ session, OracleReadSession.readAll (DepositContext.readLeg Sample.pricedWorld) []
        [Sample.assetLeg, Sample.baseLeg, Sample.assetLeg]
          = .ok ([⟨6, 0⟩, ⟨3, 0⟩, ⟨6, 0⟩], session) ∧
      List.Forall₂ (fun l p => DepositContext.readLeg Sample.pricedWorld l = .ok p)
        [Sample.assetLeg, Sample.baseLeg, Sample.assetLeg] [⟨6, 0⟩, ⟨3, 0⟩, ⟨6, 0⟩]) ∧
    ∃ vs vr, Sample.pricedValuation.values Sample.pricedWorld Sample.pricedContext.vault 10 20
        = .ok (vs, vr) ∧
      Sample.pricedContext.resolveBaseAtoms Sample.pricedRuntime Sample.pricedWorld
        Sample.pricedArgs = .ok vs := by
  obtain ⟨hlegs, hagree⟩ := one_price_per_feed Sample.pricedWorld
  refine ⟨?_, ?_⟩
  · have hmap : (OracleReadSession.readAll (DepositContext.readLeg Sample.pricedWorld) []
        [Sample.assetLeg, Sample.baseLeg, Sample.assetLeg]).map Prod.fst
          = .ok [⟨6, 0⟩, ⟨3, 0⟩, ⟨6, 0⟩] := by decide +kernel
    obtain ⟨⟨prices, session⟩, hread, rfl⟩ := map_eq_ok.mp hmap
    exact ⟨session, hread, ((hlegs _ (by decide)).1 _ _ hread).1⟩
  · have hdeposit : Sample.pricedContext.resolveBaseAtoms Sample.pricedRuntime Sample.pricedWorld
        Sample.pricedArgs = .ok 20 := by decide +kernel
    have hvalues : Sample.pricedValuation.values Sample.pricedWorld Sample.pricedContext.vault 10 20
        = .ok (20, 20) := by decide +kernel
    have hparse : SwapValuation.parse Sample.pricedRuntime Sample.pricedWorld
        Sample.pricedContext.vault Sample.pricedContext.vaultAccount.key Sample.assetMint
        Sample.baseMint Sample.pricedContext.extra = .ok (Sample.pricedValuation, []) := rfl
    have heq := (hagree Sample.pricedRuntime Sample.pricedContext Sample.pricedArgs 20
      Sample.pricedWorld Sample.pricedWorld Sample.assetMint Sample.baseMint
      Sample.pricedContext.extra [] Sample.pricedValuation 10 20 20 20 rfl rfl rfl hdeposit hparse
      hvalues).1 rfl rfl Sample.suppliedAlike_input
    exact ⟨20, 20, hvalues, heq ▸ hdeposit⟩

/-! ### The bound on exact values -/

namespace LegPricing

/-- The price an endpoint's own leg reads; the base mint reads none. -/
def ReadsAt (w : World) (price : OraclePrice) (pricing : LegPricing) : Prop :=
  ∀ assetDecimals routed oracle, pricing = .asset assetDecimals routed oracle →
    DepositContext.readLeg w oracle = .ok price

/-- The value of `amount` before rounding; the base price of a direct feed is one. -/
def exactValue (vault : Vault) (amount : U64) (assetPrice basePrice : OraclePrice) :
    LegPricing → ℚ
  | base => amount.toNat
  | asset assetDecimals routed _ =>
    Roshi.exactValue amount assetPrice.rate (if routed then basePrice.rate else 1) assetDecimals
      vault.baseDecimals

variable {w : World} {vault : Vault} {pricing : LegPricing} {basePrice : Option OraclePrice}
  {amount value : U64}

/-- A value is the exact one, rounded down by less than an atom; the base mint's is exact. -/
theorem Valued.within (h : pricing.Valued w vault basePrice amount value) :
    ∃ p, pricing.ReadsAt w p ∧
      (value.toNat : ℚ) ≤ pricing.exactValue vault amount p (basePrice.getD .UNIT) ∧
      pricing.exactValue vault amount p (basePrice.getD .UNIT) < value.toNat + 1 ∧
      (pricing = .base →
        pricing.exactValue vault amount p (basePrice.getD .UNIT) = value.toNat) := by
  cases pricing with
  | base =>
    obtain rfl : value = amount := h
    exact ⟨.UNIT, nofun, le_refl _, lt_add_one _, fun _ => rfl⟩
  | asset d routed leg =>
    obtain ⟨p, q, hreads, hq, hvalue⟩ := h
    have hrate : (if routed then (basePrice.getD .UNIT).rate else 1) = q.rate := by
      cases routed with
      | true =>
        rw [show basePrice = some q from hq]
        rfl
      | false =>
        rw [show q = .UNIT from hq, OraclePrice.rate_UNIT]
        rfl
    obtain ⟨hle, hlt⟩ := baseAtomsFromAssetAtoms_within hvalue
    have hexact : (asset d routed leg).exactValue vault amount p (basePrice.getD .UNIT) =
        Roshi.exactValue amount p.rate q.rate d vault.baseDecimals := by
      rw [exactValue, hrate]
    refine ⟨p, ?_, hexact ▸ hle, hexact ▸ hlt, nofun⟩
    rintro d' r' leg' heq
    cases heq
    exact hreads

end LegPricing

section Bound

variable {rt : Runtime} {host : Host} {records : Chain → World} {before after : Chain}
  {accounts : List AccountInfo} {args : SwapArgs} {c : SwapContext} {flow : SwapFlow}

/-- How the endpoints of an accepted swap were priced: each mint by its registration before
the route, every price read after it. -/
structure SwapPriced (rt : Runtime) (records : Chain → World) (before : Chain) (c : SwapContext)
    (flow : SwapFlow) (v : SwapValuation) (inputMint outputMint : Pubkey)
    (inputPrice outputPrice basePrice : OraclePrice) : Prop where
  valuation : c.valuation = some v
  inputMint_eq : (before c.inputCustody.key).tokenAccountMint = .ok inputMint
  outputMint_eq : (before c.outputCustody.key).tokenAccountMint = .ok outputMint
  input : v.input.PricedFor (records before) c.vault (assetAddress rt c.vaultKey inputMint).1
    inputMint
  output : v.output.PricedFor (records before) c.vault (assetAddress rt c.vaultKey outputMint).1
    outputMint
  input_reads : v.input.ReadsAt (records flow.chain) inputPrice
  output_reads : v.output.ReadsAt (records flow.chain) outputPrice
  /-- The one base leg of both endpoints. -/
  base_reads : v.input.routed = true ∨ v.output.routed = true →
    ∃ leg, v.baseLeg = some leg ∧ c.vault.baseOracle.active = .ok leg.config ∧
      DepositContext.readLeg (records flow.chain) leg = .ok basePrice

theorem SwapContext.load_vault (h : SwapContext.load rt records before accounts args = .ok c) :
    c.vault = (records before).vault := by
  revert h
  simp only [SwapContext.load, bind_ok_imp, Prod.forall, Except.ok.injEq]
  rintro _ _ - _ _ - vault hvault _ - _ - _ _ - _ - _ _ - _ _ - _ - _ _ - _ - _ - _ - _ _ - rfl
  exact (loadChecked_eq_ok hvault).1

/-- A context under slippage control carries the valuation of its endpoints. -/
theorem SwapContext.load_valuation (h : SwapContext.load rt records before accounts args = .ok c)
    (hm : 0 < c.vault.controls.maxSwapSlippageBps.toNat) :
    ∃ inputMint outputMint v remaining rest, c.valuation = some v ∧
      (before c.inputCustody.key).tokenAccountMint = .ok inputMint ∧
      (before c.outputCustody.key).tokenAccountMint = .ok outputMint ∧
      SwapValuation.parse rt (records before) c.vault c.vaultKey inputMint outputMint remaining
        = .ok (v, rest) := by
  revert h hm
  simp only [SwapContext.load, bind_ok_imp, Prod.forall, Except.ok.injEq]
  rintro _ _ - _ _ - vault - _ - _ - _ _ - _ - _ _ - _ _ - _ - _ remaining - _ - _ - _ - valuation _
    hvaluation rfl hm
  have hpos : vault.controls.maxSwapSlippageBps > 0 := BitVec.lt_def.mpr hm
  rw [SwapContext.loadValuation, if_pos hpos] at hvaluation
  simp only [bind_eq_ok, Prod.exists, Except.ok.injEq, Prod.mk.injEq] at hvaluation
  obtain ⟨inputMint, hin, outputMint, hout, v, rest, hparse, rfl, -⟩ := hvaluation
  exact ⟨inputMint, outputMint, v, remaining, rest, rfl, hin, hout, hparse⟩

/-- The integer check: the threshold is the tolerated share of what was spent, rounded up. -/
theorem verifySwapValue_spec {v : SwapValuation} (hv : c.valuation = some v)
    (h : verifySwapValue records c flow = .ok ()) :
    c.vault.controls.maxSwapSlippageBps.toNat ≤ 10000 ∧
      ∃ vs vr, v.values (records flow.chain) c.vault flow.spent flow.received = .ok (vs, vr) ∧
        vs.toNat * (10000 - c.vault.controls.maxSwapSlippageBps.toNat) ≤ 10000 * vr.toNat := by
  rw [verifySwapValue, hv] at h
  simp only [bind_eq_ok, Prod.exists, okOr_eq_ok, checkedSub_eq_some, BPS_DENOMINATOR_toNat,
    into_eq_ok, mulDivCeilU64_eq_ok, U16.toNat_to64, rejectIf_eq_ok, BitVec.not_lt] at h
  obtain ⟨vs, vr, hvalues, tolerated, htolerated, minValue, ⟨-, hmin⟩, hle⟩ := h
  refine ⟨by omega, vs, vr, hvalues, ?_⟩
  have hthreshold : vs.toNat * tolerated.toNat ⌈/⌉ 10000 ≤ vr.toNat := by
    rw [← hmin]
    exact BitVec.le_def.mp hle
  have hdiff : tolerated.toNat = 10000 - c.vault.controls.maxSwapSlippageBps.toNat := by omega
  rw [hdiff] at hthreshold
  exact (ceilDiv_le_iff_le_mul (by decide)).mp hthreshold

/-- **The swap bound on exact values.**  Under a slippage control of `m` basis points the
exact value received is at least the tolerated share of the exact value spent less one atom,
and of the whole of it when the base mint is spent.  Rounding costs the vault that one atom
and no more, whatever the decimals, and one base price values both endpoints. -/
theorem swap_value_bound (rt : Runtime) (host : Host) (records : Chain → World)
    (before after : Chain) (accounts : List AccountInfo) (args : SwapArgs)
    (h : trySwap rt host records before accounts args = .ok after) :
    ∃ c flow, SwapContext.load rt records before accounts args = .ok c ∧
      executeSwapCpi rt host before c args = .ok flow ∧ flow.chain = after ∧
      c.vault = (records before).vault ∧
      (0 < c.vault.controls.maxSwapSlippageBps.toNat →
        ∃ v inputMint outputMint inputPrice outputPrice basePrice,
          SwapPriced rt records before c flow v inputMint outputMint inputPrice outputPrice
            basePrice ∧
          c.vault.controls.maxSwapSlippageBps.toNat ≤ 10000 ∧
          (10000 - c.vault.controls.maxSwapSlippageBps.toNat : ℚ) *
              (v.input.exactValue c.vault flow.spent inputPrice basePrice - 1) ≤
            10000 * v.output.exactValue c.vault flow.received outputPrice basePrice ∧
          (inputMint = c.vault.baseMint →
            (10000 - c.vault.controls.maxSwapSlippageBps.toNat : ℚ) *
                v.input.exactValue c.vault flow.spent inputPrice basePrice ≤
              10000 * v.output.exactValue c.vault flow.received outputPrice basePrice)) := by
  simp only [trySwap, bind_eq_ok, Except.ok.injEq] at h
  obtain ⟨c, hload, flow, hflow, _, hvalue, rfl⟩ := h
  refine ⟨c, flow, hload, hflow, rfl, SwapContext.load_vault hload, ?_⟩
  intro hm
  obtain ⟨inputMint, outputMint, v, remaining, rest, hv, hin, hout, hparse⟩ :=
    SwapContext.load_valuation hload hm
  obtain ⟨hinput, houtput, hrouted⟩ := SwapValuation.parse_spec hparse
  obtain ⟨hle, vs, vr, hvalues, hbound⟩ := verifySwapValue_spec hv hvalue
  obtain ⟨basePrice, hbase, hvs, hvr⟩ := SwapValuation.values_spec hvalues
  obtain ⟨p, hp, -, hspent, hspentBase⟩ := hvs.within
  obtain ⟨p', hp', hreceived, -, -⟩ := hvr.within
  have hshare : (0 : ℚ) ≤ 10000 - c.vault.controls.maxSwapSlippageBps.toNat := by
    rw [sub_nonneg]
    exact_mod_cast hle
  have hcheck : (10000 - c.vault.controls.maxSwapSlippageBps.toNat : ℚ) * vs.toNat ≤
      10000 * v.output.exactValue c.vault flow.received p' (basePrice.getD .UNIT) := by
    calc (10000 - c.vault.controls.maxSwapSlippageBps.toNat : ℚ) * vs.toNat
        = ((vs.toNat * (10000 - c.vault.controls.maxSwapSlippageBps.toNat) : Nat) : ℚ) := by
          push_cast [hle]
          ring
      _ ≤ ((10000 * vr.toNat : Nat) : ℚ) := Nat.cast_le.mpr hbound
      _ = 10000 * (vr.toNat : ℚ) := by push_cast; rfl
      _ ≤ _ := by gcongr
  refine ⟨v, inputMint, outputMint, p, p', basePrice.getD .UNIT,
    ⟨hv, hin, hout, hinput, houtput, hp, hp', ?_⟩, hle, ?_, ?_⟩
  · intro hor
    obtain ⟨leg, hleg, hactive⟩ := hrouted hor
    obtain ⟨q, rfl, hreads⟩ := hbase leg hleg
    exact ⟨leg, hleg, hactive, hreads⟩
  · refine le_trans ?_ hcheck
    apply mul_le_mul_of_nonneg_left _ hshare
    linarith
  · intro hmint
    have hinputBase : v.input = .base := by
      cases hkind : v.input with
      | base => rfl
      | asset d r leg =>
        rw [hkind] at hinput
        exact absurd hmint hinput.1
    rw [hspentBase hinputBase]
    exact hcheck

end Bound

/-- The sale of 1000 of the base for 500 of the asset at two each, under a control. -/
theorem swap_value_bound_sale :
    ∃ c flow v inputMint outputMint inputPrice outputPrice basePrice,
      SwapPriced Sample.swapRuntime Sample.swapRecords (Sample.swapChain 5000 0) c flow v inputMint
        outputMint inputPrice outputPrice basePrice ∧
      (10000 - c.vault.controls.maxSwapSlippageBps.toNat : ℚ) *
          (v.input.exactValue c.vault flow.spent inputPrice basePrice - 1) ≤
        10000 * v.output.exactValue c.vault flow.received outputPrice basePrice := by
  have hok : (trySwap Sample.swapRuntime Sample.swapHost Sample.swapRecords
      (Sample.swapChain 5000 0) Sample.swapAccounts Sample.swapArgs).isOk = true := by
    decide +kernel
  obtain ⟨c, flow, -, -, -, hvault, hbound⟩ := swap_value_bound _ _ _ _ _ _ _ (eq_okValue hok)
  have hm : 0 < c.vault.controls.maxSwapSlippageBps.toNat := by
    rw [hvault]
    decide +kernel
  obtain ⟨v, inputMint, outputMint, inputPrice, outputPrice, basePrice, hpriced, -, hvalue, -⟩ :=
    hbound hm
  exact ⟨c, flow, v, inputMint, outputMint, inputPrice, outputPrice, basePrice, hpriced, hvalue⟩

end Roshi
