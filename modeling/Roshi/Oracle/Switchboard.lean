import Roshi.Oracle.Leg
import Roshi.Relay.Cpi

/-!
# The Switchboard reader

`oracle/switchboard.rs`.  A leg's four accounts are pinned before any is read: the quote and
the queue to the configured addresses, the two sysvars to their own.  Whether the quote account
holds a quote that the queue's oracles signed, no older than allowed, is for `QuoteVerifier` to
say, a parameter here.  The price is the quote's value of the configured feed.

`readVerifiedPrice_eq_ok` says what an accepted price is, and `readLeg_switchboard` what a leg
of a deposit or a swap then prices at.
-/

namespace Roshi

open Lib

namespace Switchboard

/-- The slot hashes sysvar. -/
def SLOT_HASHES_ID : Pubkey :=
  #v[6, 167, 213, 23, 25, 47, 10, 175, 198, 242, 101, 227, 251, 119, 204, 122, 218, 130, 197, 41,
    208, 190, 59, 19, 110, 45, 0, 85, 32, 0, 0, 0]

/-- A quote: the value of each feed it carries, an `i128` by its bits. -/
structure OracleQuote where
  feed : Bytes 32 → Option (BitVec 128)

/-- `QuoteVerifier` with everything the reader sets: the queue, the slot hashes, the
instructions, the clock's slot and the greatest age; then the queue's key and the account. -/
structure QuoteVerifier where
  verifyAccount : (queue slothash ixSysvar : Scope.KeyedAccount) → (clockSlot maxAge : U64) →
    Bytes 32 → Scope.KeyedAccount → Option OracleQuote

variable (V : QuoteVerifier) (config : SwitchboardOracleConfig)

def verifyAccountContract (quote queue slothash ixSysvar : Scope.KeyedAccount) :
    ProgramResult Unit :=
  rejectIf (quote.key ≠ config.quoteAccount ∨ queue.key ≠ config.queueAccount
      ∨ slothash.key ≠ SLOT_HASHES_ID ∨ ixSysvar.key ≠ INSTRUCTIONS_SYSVAR_ID)
    .invalidAccountData

/-- A positive `i128` keeps its bits as a `u128`. -/
def priceFromQuote (quote : OracleQuote) : Option OraclePrice := do
  let rawValue ← quote.feed config.feedId
  if rawValue.toInt ≤ 0 then none
  else some { value := rawValue, decimals := config.priceDecimals }

/-- `SwitchboardOracle::read_verified_price`. -/
def readVerifiedPrice (quoteAccount queueAccount slothash ixSysvar : Scope.KeyedAccount)
    (clockSlot : U64) : ProgramResult OraclePrice := do
  verifyAccountContract config quoteAccount queueAccount slothash ixSysvar
  let quote ← okOr (V.verifyAccount queueAccount slothash ixSysvar clockSlot config.maxAgeSlots
    queueAccount.key quoteAccount) .invalidAccountData
  okOr (priceFromQuote config quote) .invalidAccountData

/-! ### An accepted price -/

/-- The verifier accepted `q` from the configured accounts. -/
structure SwitchboardVerified (quote queue slothash ixSysvar : Scope.KeyedAccount)
    (clockSlot : U64) (q : OracleQuote) : Prop where
  quote_key : quote.key = config.quoteAccount
  queue_key : queue.key = config.queueAccount
  slothash_key : slothash.key = SLOT_HASHES_ID
  ixSysvar_key : ixSysvar.key = INSTRUCTIONS_SYSVAR_ID
  verified : V.verifyAccount queue slothash ixSysvar clockSlot config.maxAgeSlots
    config.queueAccount quote = some q

variable {V config} {quote queue slothash ixSysvar : Scope.KeyedAccount} {slot : U64}
  {p : OraclePrice} {q : OracleQuote}

theorem verifyAccountContract_eq_ok {u : Unit} :
    verifyAccountContract config quote queue slothash ixSysvar = .ok u ↔
      quote.key = config.quoteAccount ∧ queue.key = config.queueAccount ∧
        slothash.key = SLOT_HASHES_ID ∧ ixSysvar.key = INSTRUCTIONS_SYSVAR_ID := by
  simp only [verifyAccountContract, rejectIf_eq_ok, not_or, not_not]

theorem priceFromQuote_eq_some :
    priceFromQuote config q = some p ↔
      ∃ raw, q.feed config.feedId = some raw ∧ 0 < raw.toInt ∧ (p.value.toNat : ℤ) = raw.toInt ∧
        p.decimals = config.priceDecimals := by
  rw [priceFromQuote, Option.bind_eq_bind, Option.bind_eq_some_iff]
  refine exists_congr fun raw => and_congr_right fun _ => ?_
  by_cases hraw : raw.toInt ≤ 0
  · simp [hraw, Int.not_lt.mpr hraw]
  · have hpos : 0 < raw.toInt := Int.not_le.mp hraw
    have hbits : (raw.toNat : ℤ) = raw.toInt := by
      rw [BitVec.toInt_eq_toNat_cond] at hpos ⊢
      split at hpos
      case isTrue hlt => rw [if_pos hlt]
      case isFalse => omega
    rw [if_neg hraw, Option.some.injEq]
    constructor
    · rintro rfl
      exact ⟨hpos, hbits, rfl⟩
    · obtain ⟨value, decimals⟩ := p
      rintro ⟨-, hvalue, rfl⟩
      have hvalue : value = raw := BitVec.eq_of_toNat_eq (by exact_mod_cast hvalue.trans hbits.symm)
      rw [hvalue]

/-- **What a verified read is**: the configured feed's positive value, exactly, in a quote that
the verifier took from the configured accounts. -/
theorem readVerifiedPrice_eq_ok :
    readVerifiedPrice V config quote queue slothash ixSysvar slot = .ok p ↔
      ∃ q raw, SwitchboardVerified V config quote queue slothash ixSysvar slot q ∧
        q.feed config.feedId = some raw ∧ 0 < raw.toInt ∧ (p.value.toNat : ℤ) = raw.toInt ∧
        p.decimals = config.priceDecimals := by
  simp only [readVerifiedPrice, bind_eq_ok, verifyAccountContract_eq_ok, okOr_eq_ok,
    priceFromQuote_eq_some, exists_const]
  constructor
  · rintro ⟨⟨hquote, hqueue, hslothash, hix⟩, q, hverified, raw, hraw⟩
    exact ⟨q, raw, ⟨hquote, hqueue, hslothash, hix, hqueue ▸ hverified⟩, hraw⟩
  · rintro ⟨q, raw, hverified, hraw⟩
    exact ⟨⟨hverified.quote_key, hverified.queue_key, hverified.slothash_key,
      hverified.ixSysvar_key⟩, q, hverified.queue_key ▸ hverified.verified, raw, hraw⟩

/-- The readers of the two providers, each as the source has it. -/
def QuoteVerifier.providers (V : QuoteVerifier) : Providers where
  pyth := Pyth.readVerifiedPrice
  switchboard := readVerifiedPrice V

end Switchboard

variable {V : Switchboard.QuoteVerifier} {chain : Chain} {w : World} {clock : Clock}
  {accounts : List Scope.KeyedAccount} {p : OraclePrice}

theorem ActiveOracleConfig.read_switchboard {P : Providers} {config : SwitchboardOracleConfig}
    (h : ActiveOracleConfig.read P (.switchboard config) accounts clock = .ok p) :
    ∃ quote queue slothash ixSysvar rest,
      accounts = quote :: queue :: slothash :: ixSysvar :: rest ∧
        P.switchboard config quote queue slothash ixSysvar clock.slot = .ok p := by
  rcases accounts with _ | ⟨quote, _ | ⟨queue, _ | ⟨slothash, _ | ⟨ixSysvar, rest⟩⟩⟩⟩
  · cases h
  · cases h
  · cases h
  · cases h
  · exact ⟨quote, queue, slothash, ixSysvar, rest, rfl, h⟩

/-- **What a Switchboard leg prices at** is the configured feed in a verified quote, exactly. -/
theorem readLeg_switchboard (hw : w.ReadsChain V.providers chain) {leg : OracleLeg}
    {config : SwitchboardOracleConfig} (hleg : leg.config = .switchboard config)
    (h : DepositContext.readLeg w leg = .ok p) :
    ∃ quote queue slothash ixSysvar rest q raw,
      chain.keyed leg.keys = quote :: queue :: slothash :: ixSysvar :: rest ∧
        Switchboard.SwitchboardVerified V config quote queue slothash ixSysvar w.clock.slot q ∧
        q.feed config.feedId = some raw ∧ 0 < raw.toInt ∧ (p.value.toNat : ℤ) = raw.toInt ∧
        p.decimals = config.priceDecimals := by
  obtain ⟨quote, queue, slothash, ixSysvar, rest, hkeys, hread⟩ :=
    ActiveOracleConfig.read_switchboard (read_of_readLeg hw hleg h)
  obtain ⟨q, raw, hverified, hraw⟩ := Switchboard.readVerifiedPrice_eq_ok.mp hread
  exact ⟨quote, queue, slothash, ixSysvar, rest, q, raw, hkeys, hverified, hraw⟩

end Roshi
