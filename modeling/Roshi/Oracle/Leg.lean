import Roshi.Instructions.Deposit
import Roshi.Oracle.Pyth

/-!
# Reading a leg's accounts

`OracleLeg::read`: each provider is handed the leg's accounts as they are on the chain, and
the clock.  `World.prices` stands for these reads; `ReadsChain` says that it is them.  What a
deposit or a swap reads from a Scope leg is then a verified entry (`readLeg_scope`), and from a
Pyth leg the floor of a verified update (`readLeg_pyth`).
-/

namespace Roshi

open Lib

/-- The readers of the other two providers. -/
structure Providers where
  pyth : PythOracleConfig → Scope.KeyedAccount → I64 → ProgramResult OraclePrice
  switchboard : SwitchboardOracleConfig → (quote queue slothash ixSysvar : Scope.KeyedAccount) →
    U64 → ProgramResult OraclePrice

/-- `OracleLeg::read`. -/
def ActiveOracleConfig.read (P : Providers) (config : ActiveOracleConfig)
    (accounts : List Scope.KeyedAccount) (clock : Clock) : ProgramResult OraclePrice :=
  match config, accounts with
  | .pyth config, priceAccount :: _ => P.pyth config priceAccount clock.unixTimestamp
  | .switchboard config, quote :: queue :: slothash :: ixSysvar :: _ =>
    P.switchboard config quote queue slothash ixSysvar clock.slot
  | .scope config, prices :: mappings :: _ =>
    Scope.readVerifiedPrice config prices mappings clock.unixTimestamp
  | _, _ => .error .notEnoughAccountKeys

/-- The account of each key, as it is on the chain. -/
def Chain.keyed (chain : Chain) (keys : List Pubkey) : List Scope.KeyedAccount :=
  keys.map fun key => { key, account := chain key }

/-- The world's oracles answer what their accounts on `chain` hold. -/
def World.ReadsChain (P : Providers) (chain : Chain) (w : World) : Prop :=
  ∀ config keys clock, w.prices config keys clock = config.read P (chain.keyed keys) clock

variable {config : ScopeOracleConfig} {prices mappings : Scope.KeyedAccount} {now : I64}
  {p : OraclePrice}

/-- A successful read was of accounts of the exact lengths, at an index they have. -/
theorem Scope.readVerifiedPrice_wellFormed
    (h : readVerifiedPrice config prices mappings now = .ok p) :
    prices.account.data.length = ORACLE_PRICES_LEN ∧
      mappings.account.data.length = ORACLE_MAPPINGS_LEN ∧
      config.priceIndex.toNat < MAX_ENTRIES := by
  have hlen : ∀ {data : List U8} {len : Nat} {discriminator : List U8},
      ¬ wellFormed data len discriminator = false → data.length = len := by
    intro data len discriminator hwell
    rw [Bool.not_eq_false, wellFormed, Bool.and_eq_true, beq_iff_eq] at hwell
    exact hwell.1
  simp only [readVerifiedPrice, verifyMappingEntry, bind_eq_ok, rejectIf_eq_ok, exists_const,
    ge_iff_le, BitVec.le_def, Nat.not_le] at h
  obtain ⟨-, -, hp, _, -, -, ⟨hm, hi, -⟩, -⟩ := h
  exact ⟨hlen hp, hlen hm, hi⟩

/-- A leg's price is read from its accounts on the chain. -/
theorem read_of_readLeg {P : Providers} {chain : Chain} {w : World} (hw : w.ReadsChain P chain)
    {leg : OracleLeg} {active : ActiveOracleConfig} (hleg : leg.config = active)
    (h : DepositContext.readLeg w leg = .ok p) :
    active.read P (chain.keyed leg.keys) w.clock = .ok p := by
  rw [← hleg, ← hw]
  exact h

/-- **What a Scope leg prices at** is the configured entry, verified. -/
theorem readLeg_scope {P : Providers} {chain : Chain} {w : World} (hw : w.ReadsChain P chain)
    {leg : OracleLeg} (hleg : leg.config = .scope config)
    (h : DepositContext.readLeg w leg = .ok p) :
    ∃ prices mappings rest, chain.keyed leg.keys = prices :: mappings :: rest ∧
      Scope.ScopeVerified config prices mappings w.clock.unixTimestamp ∧
      p = (Scope.priceAt prices.account.data config.priceIndex.toNat).price := by
  have hread := read_of_readLeg hw hleg h
  cases hkeys : chain.keyed leg.keys with
  | nil =>
    rw [hkeys] at hread
    cases hread
  | cons prices others =>
    rw [hkeys] at hread
    cases others with
    | nil => cases hread
    | cons mappings rest =>
      have hread : Scope.readVerifiedPrice config prices mappings w.clock.unixTimestamp = .ok p :=
        hread
      obtain ⟨hp, hm, hi⟩ := Scope.readVerifiedPrice_wellFormed hread
      obtain ⟨hverified, rfl⟩ := (Scope.readVerifiedPrice_eq_ok hp hm hi).mp hread
      exact ⟨prices, mappings, rest, rfl, hverified, rfl⟩

/-- **What a Pyth leg prices at** is a verified update, rounded down to the leg's decimals. -/
theorem readLeg_pyth {P : Providers} {chain : Chain} {w : World} (hw : w.ReadsChain P chain)
    (hP : P.pyth = Pyth.readVerifiedPrice) {leg : OracleLeg} {config : PythOracleConfig}
    (hleg : leg.config = .pyth config) (hbps : config.maxConfidenceBps ≠ 0)
    (h : DepositContext.readLeg w leg = .ok p) :
    ∃ account rest m, chain.keyed leg.keys = account :: rest ∧
      Pyth.PythVerified config account w.clock.unixTimestamp m ∧
      p.value.toNat = m.price.scaled config.priceDecimals ∧
      p.decimals = config.priceDecimals := by
  have hread := read_of_readLeg hw hleg h
  cases hkeys : chain.keyed leg.keys with
  | nil =>
    rw [hkeys] at hread
    cases hread
  | cons account rest =>
    rw [hkeys] at hread
    have hread : P.pyth config account w.clock.unixTimestamp = .ok p := hread
    rw [hP] at hread
    obtain ⟨m, hm, hvalue, hdec⟩ := (Pyth.readVerifiedPrice_eq_ok hbps).mp hread
    exact ⟨account, rest, m, rfl, hm, hvalue, hdec⟩

end Roshi
